import FaceDetection.Webcc.Places

/-!
# A connection among others

`Talk` is what a client has from the server: it knows one connection, its reads and the answers. Every
connection of the server follows it, whatever the other connections and the workers do.
-/

open FaceDetection.Pieces FaceDetection.Trace

namespace FaceDetection.Webcc

/-! ## Exchanges -/

/-- The reads that made a request, and the answer: none is the 400 to what the parser rejects. -/
structure Exchange where
  reads : List Bytes
  answer : Option Response

variable (reserve : Nat → Bool) (handler : Int → Request → Except Fault Response)

/-- What the parser makes of reads behind a request that left `derived`. -/
abbrev parsed (derived : FormState) (reads : List Bytes) :
    Outcome RequestParser (Failure Request FormState) :=
  (RequestParser.readAll reserve (RequestParser.fresh derived) reads).1

/-- The request that is answered, and what it leaves to the next. -/
def settled (derived : FormState) (reads : List Bytes) : Option (Request × FormState) :=
  match parsed reserve derived reads with
  | .done q => some (q.message, q.derived)
  | .fail (.rejected request derived _) => some (request, derived)
  | _ => none

/-- The answer is the handler's to the request that the reads make, or they do not make one. -/
def Exchange.Answers (derived : FormState) (e : Exchange) : Prop :=
  match e.answer with
  | some response => ∃ q uninitialised, parsed reserve derived e.reads = .done q ∧
      handler uninitialised q.message = .ok response
  | none => ∃ request derived' chunked,
      parsed reserve derived e.reads = .fail (.rejected request derived' chunked)

/-- One exchange after the other. -/
def AllAnswer : FormState → List Exchange → FormState → Prop
  | derived, [], derived' => derived = derived'
  | derived, e :: es, derived' =>
    e.Answers reserve handler derived ∧
      ∃ request next, settled reserve derived e.reads = some (request, next) ∧
        AllAnswer next es derived'

variable {reserve handler} in
theorem AllAnswer.concat {d d' d'' : FormState} {es : List Exchange} {e : Exchange}
    {request : Request} (h : AllAnswer reserve handler d es d') (he : e.Answers reserve handler d')
    (hsettled : settled reserve d' e.reads = some (request, d'')) :
    AllAnswer reserve handler d (es ++ [e]) d'' := by
  induction es generalizing d with
  | nil =>
    cases h
    exact ⟨he, request, d'', hsettled, rfl⟩
  | cons first es ih =>
    obtain ⟨hfirst, request', next, hnext, hrest⟩ := h
    exact ⟨hfirst, request', next, hnext, ih hrest⟩

/-! ## The talk -/

inductive Talk.Phase where
  | silent
  | asking (reads : List Bytes)
  | asked (reads : List Bytes)
  | answering (e : Exchange)
  | finished

/-- `derived` is what the last request left to the parser. -/
structure Talk where
  exchanges : List Exchange
  derived : FormState
  phase : Talk.Phase

namespace Talk

inductive Event where
  | accepted
  | received (data : Bytes)
  | answered (uninitialised : Int)
  | written
  | ended

def start : Talk := { exchanges := [], derived := .start, phase := .silent }

def onReceived (t : Talk) (reads : List Bytes) : Talk :=
  match parsed reserve t.derived reads with
  | .more _ => { t with phase := .asking reads }
  | .done _ => { t with phase := .asked reads }
  | .fail (.rejected _ _ _) => { t with phase := .answering { reads := reads, answer := none } }
  | .fail (.crash _) => { t with phase := .finished }

def onAnswered (t : Talk) (reads : List Bytes) (uninitialised : Int) : Option Talk :=
  match parsed reserve t.derived reads with
  | .done q =>
    match handler uninitialised q.message with
    | .ok response => some { t with phase := .answering { reads := reads, answer := some response } }
    | .error _ => some { t with phase := .finished }
  | _ => none

def onWritten (t : Talk) (e : Exchange) : Option Talk :=
  match settled reserve t.derived e.reads with
  | some (request, derived) =>
    some {
      exchanges := t.exchanges ++ [e]
      derived := derived
      phase := if request.isConnectionKeepAlive then .asking [] else .finished }
  | none => none

def step (t : Talk) (e : Event) : Option Talk :=
  match t.phase, e with
  | .silent, .accepted => some { t with phase := .asking [] }
  | .asking reads, .received data => some (t.onReceived reserve (reads ++ [data]))
  | .asked reads, .answered uninitialised => t.onAnswered reserve handler reads uninitialised
  | .answering e, .written => t.onWritten reserve e
  | .asking _, .ended | .asked _, .ended | .answering _, .ended => some { t with phase := .finished }
  | _, _ => none

variable {reserve handler} {t : Talk}

theorem step_received {reads : List Bytes} (h : t.phase = .asking reads) (data : Bytes) :
    t.step reserve handler (.received data) = some (t.onReceived reserve (reads ++ [data])) := by
  unfold step
  rw [h]

theorem step_answered {reads : List Bytes} (h : t.phase = .asked reads) (uninitialised : Int) :
    t.step reserve handler (.answered uninitialised) =
      t.onAnswered reserve handler reads uninitialised := by
  unfold step
  rw [h]

theorem step_written {e : Exchange} (h : t.phase = .answering e) :
    t.step reserve handler .written = t.onWritten reserve e := by
  unfold step
  rw [h]

/-- What holds of a talk: its exchanges answer, and so does the one under way. -/
structure Ok (reserve : Nat → Bool) (handler : Int → Request → Except Fault Response) (t : Talk) :
    Prop where
  exchanges : AllAnswer reserve handler .start t.exchanges t.derived
  phase : ∀ e, t.phase = .answering e → e.Answers reserve handler t.derived

theorem Ok.step {u : Talk} {e : Event} (h : t.Ok reserve handler)
    (hstep : t.step reserve handler e = some u) : u.Ok reserve handler := by
  cases hphase : t.phase with
  | silent =>
    cases e <;> simp only [Talk.step, hphase] at hstep <;> cases hstep
    exact ⟨h.exchanges, by simp⟩
  | asking reads =>
    cases e with
    | received data =>
      rw [step_received hphase] at hstep
      cases hstep
      unfold onReceived
      cases hparsed : parsed reserve t.derived (reads ++ [data]) with
      | more q => exact ⟨h.exchanges, by simp⟩
      | done q => exact ⟨h.exchanges, by simp⟩
      | fail failure =>
        cases failure with
        | crash crash => exact ⟨h.exchanges, by simp⟩
        | rejected request derived chunked =>
          refine ⟨h.exchanges, fun e he => ?_⟩
          cases he
          exact ⟨request, derived, chunked, hparsed⟩
    | ended =>
      simp only [Talk.step, hphase] at hstep
      cases hstep
      exact ⟨h.exchanges, by simp⟩
    | _ => simp [Talk.step, hphase] at hstep
  | asked reads =>
    cases e with
    | answered uninitialised =>
      rw [step_answered hphase] at hstep
      unfold onAnswered at hstep
      cases hparsed : parsed reserve t.derived reads with
      | done q =>
        simp only [hparsed] at hstep
        cases hresponse : handler uninitialised q.message with
        | error e =>
          simp only [hresponse] at hstep
          cases hstep
          exact ⟨h.exchanges, by simp⟩
        | ok response =>
          simp only [hresponse] at hstep
          cases hstep
          refine ⟨h.exchanges, fun e he => ?_⟩
          cases he
          exact ⟨q, uninitialised, hparsed, hresponse⟩
      | _ => simp [hparsed] at hstep
    | ended =>
      simp only [Talk.step, hphase] at hstep
      cases hstep
      exact ⟨h.exchanges, by simp⟩
    | _ => simp [Talk.step, hphase] at hstep
  | answering exchange =>
    cases e with
    | written =>
      rw [step_written hphase] at hstep
      unfold onWritten at hstep
      cases hsettled : settled reserve t.derived exchange.reads with
      | none => simp [hsettled] at hstep
      | some p =>
        simp only [hsettled] at hstep
        cases hstep
        refine ⟨h.exchanges.concat (h.phase exchange hphase) hsettled, fun e he => ?_⟩
        simp only at he
        split_ifs at he
    | ended =>
      simp only [Talk.step, hphase] at hstep
      cases hstep
      exact ⟨h.exchanges, by simp⟩
    | _ => simp [Talk.step, hphase] at hstep
  | finished => cases e <;> simp [Talk.step, hphase] at hstep

theorem ok_run {es : List Event} (h : Trace.run (Talk.step reserve handler) Talk.start es = some t) :
    t.Ok reserve handler :=
  run_invariant h ⟨rfl, by simp [start]⟩ fun _ _ _ hok hstep => hok.step hstep

end Talk

/-! ## A connection of the server follows it -/

namespace Server

variable {κ : Type} [Fintype κ]

/-- What connection `i` sees of an event. -/
def talkEvents (i : Nat) (s : Server κ) : Event κ → List Talk.Event
  | .accept ok => if s.acceptor_open = true ∧ ok = true ∧ i = s.accepted then [.accepted] else []
  | .read j data _ => if j = i then [.received data] else []
  | .readFailed j _ => if j = i then [.ended] else []
  | .written j => if j = i then [.written] else []
  | .writeFailed j _ => if j = i then [.ended] else []
  | .signal => if some i ∈ s.workers.queue then [.ended] else []
  | .handle k uninitialised _ =>
    if s.workers.state k = .busy i then [.answered uninitialised] else []
  | .stopped | .pop _ | .leave _ => []

/-- Connection `i` of the server is where the talk is. -/
def PhaseMatches (i : Nat) (s : Server κ) (t : Talk) : Talk.Phase → Prop
  | .silent => s.connections i = none ∧ t = Talk.start
  | .asking reads => ∃ c, s.connections i = some c ∧ c.ops = [.read] ∧
      RequestParser.readAll reserve (RequestParser.fresh t.derived) reads = (.more c.requestParser, [])
  | .asked reads => ∃ c, s.connections i = some c ∧ s.workers.held i = 1 ∧
      parsed reserve t.derived reads = .done c.requestParser
  | .answering e => ∃ c timestamp, s.connections i = some c ∧
      c.ops = (({ c with ops := [] } : Connection).sendResponse timestamp
        (e.answer.getD (Response.new 400))).ops ∧
      settled reserve t.derived e.reads =
        some (c.requestParser.message, c.requestParser.derived)
  | .finished => ∃ c, s.connections i = some c ∧ (s.places i = 0 ∨ s.down = true)

structure Matches (i : Nat) (s : Server κ) (t : Talk) : Prop where
  onePlace : s.OnePlace
  phase : PhaseMatches reserve i s t t.phase

variable {reserve handler} {i : Nat} {s t : Server κ} {talk : Talk}

/-- A step about something else. -/
structure Elsewhere (i : Nat) (s t : Server κ) : Prop where
  connections : t.connections i = s.connections i
  held : t.workers.held i = s.workers.held i

theorem Matches.elsewhere (h : Matches reserve i s talk) (ht : t.OnePlace) (he : Elsewhere i s t)
    (hdown : s.down = false) : Matches reserve i t talk := by
  obtain ⟨hplace, hphase⟩ := h
  refine ⟨ht, ?_⟩
  cases hcase : talk.phase with
  | silent =>
    rw [hcase] at hphase
    exact ⟨he.connections.trans hphase.1, hphase.2⟩
  | asking reads =>
    rw [hcase] at hphase
    obtain ⟨c, hc, hrest⟩ := hphase
    exact ⟨c, he.connections.trans hc, hrest⟩
  | asked reads =>
    rw [hcase] at hphase
    obtain ⟨c, hc, hheld, hrest⟩ := hphase
    exact ⟨c, he.connections.trans hc, he.held.trans hheld, hrest⟩
  | answering e =>
    rw [hcase] at hphase
    obtain ⟨c, timestamp, hc, hrest⟩ := hphase
    exact ⟨c, timestamp, he.connections.trans hc, hrest⟩
  | finished =>
    rw [hcase] at hphase
    obtain ⟨c, hc, hfinished⟩ := hphase
    refine ⟨c, he.connections.trans hc, Or.inl ?_⟩
    unfold places opCount at hfinished ⊢
    rw [he.connections, he.held]
    simpa [hdown] using hfinished

/-- The pool has closed the connection; what is under way goes on. -/
theorem Matches.close (h : Matches reserve i s talk) (ht : t.OnePlace)
    (hconnections : t.connections i = (s.connections i).map Connection.close)
    (hheld : t.workers.held i = s.workers.held i) (hdown : s.down = false) :
    Matches reserve i t talk := by
  obtain ⟨hplace, hphase⟩ := h
  refine ⟨ht, ?_⟩
  cases hcase : talk.phase with
  | silent =>
    rw [hcase] at hphase
    exact ⟨by rw [hconnections, hphase.1]; rfl, hphase.2⟩
  | asking reads =>
    rw [hcase] at hphase
    obtain ⟨c, hc, hrest⟩ := hphase
    exact ⟨c.close, by rw [hconnections, hc]; rfl, hrest⟩
  | asked reads =>
    rw [hcase] at hphase
    obtain ⟨c, hc, hone, hrest⟩ := hphase
    exact ⟨c.close, by rw [hconnections, hc]; rfl, hheld.trans hone, hrest⟩
  | answering e =>
    rw [hcase] at hphase
    obtain ⟨c, timestamp, hc, hrest⟩ := hphase
    exact ⟨c.close, timestamp, by rw [hconnections, hc]; rfl, hrest⟩
  | finished =>
    rw [hcase] at hphase
    obtain ⟨c, hc, hfinished⟩ := hphase
    refine ⟨c.close, by rw [hconnections, hc]; rfl, Or.inl ?_⟩
    have hops : (fun c : Connection => c.ops.length) ∘ Connection.close = fun c => c.ops.length := rfl
    unfold places opCount at hfinished ⊢
    rw [hconnections, hheld, Option.map_map, hops]
    simpa [hdown] using hfinished

/-- A read is under way only while the client asks. -/
theorem Matches.asking {c : Connection} (h : Matches reserve i s talk) (hdown : s.down = false)
    (hc : s.connections i = some c) (hop : Op.read ∈ c.ops) :
    ∃ reads, talk.phase = .asking reads ∧ c.ops = [.read] ∧
      RequestParser.readAll reserve (RequestParser.fresh talk.derived) reads =
        (.more c.requestParser, []) := by
  obtain ⟨hplace, hphase⟩ := h
  have hone := hplace.places i
  have hpos := List.length_pos_of_mem hop
  unfold places opCount at hone
  simp only [hc, Option.map_some, Option.getD_some] at hone
  cases hcase : talk.phase <;> rw [hcase] at hphase
  case silent =>
    rw [hphase.1] at hc
    cases hc
  case asking reads =>
    obtain ⟨c', hc', hops, hall⟩ := hphase
    cases hc.symm.trans hc'
    exact ⟨reads, rfl, hops, hall⟩
  case asked reads =>
    obtain ⟨c', hc', hheld, -⟩ := hphase
    omega
  case answering e =>
    obtain ⟨c', timestamp, hc', hops, -⟩ := hphase
    cases hc.symm.trans hc'
    rw [hops] at hop
    simp [Connection.sendResponse] at hop
  case finished =>
    obtain ⟨c', hc', hfinished⟩ := hphase
    unfold places opCount at hfinished
    simp only [hc, Option.map_some, Option.getD_some, hdown, Bool.false_eq_true, or_false] at hfinished
    omega

/-- A connection is on the queue or with a worker only while the client has asked. -/
theorem Matches.asked (h : Matches reserve i s talk) (hdown : s.down = false)
    (hheld : 0 < s.workers.held i) :
    ∃ reads c, talk.phase = .asked reads ∧ s.connections i = some c ∧ c.ops = [] ∧
      s.workers.held i = 1 ∧ parsed reserve talk.derived reads = .done c.requestParser := by
  obtain ⟨hplace, hphase⟩ := h
  have hone := hplace.places i
  unfold places opCount at hone
  cases hcase : talk.phase <;> rw [hcase] at hphase
  case silent =>
    rw [hplace.unheld i hphase.1] at hheld
    omega
  case asking reads =>
    obtain ⟨c, hc, hops, -⟩ := hphase
    simp only [hc, Option.map_some, Option.getD_some, hops, List.length_singleton] at hone
    omega
  case asked reads =>
    obtain ⟨c, hc, hheld', hdone⟩ := hphase
    simp only [hc, Option.map_some, Option.getD_some] at hone
    exact ⟨reads, c, rfl, hc, List.eq_nil_of_length_eq_zero (by omega), hheld', hdone⟩
  case answering e =>
    obtain ⟨c, timestamp, hc, hops, -⟩ := hphase
    simp only [hc, Option.map_some, Option.getD_some, hops, Connection.sendResponse,
      List.nil_append, List.length_singleton] at hone
    omega
  case finished =>
    obtain ⟨c, hc, hfinished⟩ := hphase
    unfold places at hfinished
    simp only [hdown, Bool.false_eq_true, or_false] at hfinished
    omega

/-- A write is under way only while the client is answered. -/
theorem Matches.answering {c : Connection} {op : Op} (h : Matches reserve i s talk)
    (hdown : s.down = false) (hc : s.connections i = some c) (hop : c.writing = some op) :
    ∃ e, talk.phase = .answering e ∧ (c.takeOp op).ops = [] ∧ s.workers.held i = 0 ∧
      settled reserve talk.derived e.reads =
        some (c.requestParser.message, c.requestParser.derived) := by
  obtain ⟨hplace, hphase⟩ := h
  have hone := hplace.places i
  have hpos := List.length_pos_of_mem (Connection.mem_of_writing hop)
  have htake := Connection.length_takeOp (Connection.mem_of_writing hop)
  unfold places opCount at hone
  simp only [hc, Option.map_some, Option.getD_some] at hone
  cases hcase : talk.phase <;> rw [hcase] at hphase
  case silent =>
    rw [hphase.1] at hc
    cases hc
  case asking reads =>
    obtain ⟨c', hc', hops, -⟩ := hphase
    cases hc.symm.trans hc'
    rw [Connection.writing, hops] at hop
    cases hop
  case asked reads =>
    obtain ⟨c', hc', hheld, -⟩ := hphase
    omega
  case answering e =>
    obtain ⟨c', timestamp, hc', -, hsettled⟩ := hphase
    cases hc.symm.trans hc'
    exact ⟨e, rfl, List.eq_nil_of_length_eq_zero (by omega), by omega, hsettled⟩
  case finished =>
    obtain ⟨c', hc', hfinished⟩ := hphase
    unfold places opCount at hfinished
    simp only [hc, Option.map_some, Option.getD_some, hdown, Bool.false_eq_true, or_false] at hfinished
    omega

/-! ## One step -/

variable [DecidableEq κ]

omit [DecidableEq κ] in
/-- The handler of a read or a write of connection `j` sets it, and may put it on the queue. -/
theorem elsewhere_of_ne {j : Nat} (hij : i ≠ j)
    (hconnections : ∃ c, t.connections = Function.update s.connections j c)
    (hworkers : t.workers = s.workers ∨ t.workers = s.workers.push (some j)) : Elsewhere i s t := by
  obtain ⟨c, hconnections⟩ := hconnections
  refine ⟨by rw [hconnections, Function.update_of_ne hij], ?_⟩
  rcases hworkers with h | h <;> rw [h]
  rw [Workers.held_push, if_neg (by simpa using hij.symm), Nat.add_zero]

omit [DecidableEq κ] in
theorem elsewhere_onRead {j : Nat} (hij : i ≠ j) (c : Connection) (data timestamp : Bytes) :
    Elsewhere i s (s.onRead reserve j c data timestamp) := by
  unfold onRead
  simp only
  split
  · exact elsewhere_of_ne hij ⟨_, rfl⟩ (Or.inl rfl)
  · exact elsewhere_of_ne hij ⟨_, rfl⟩ (Or.inl rfl)
  · exact elsewhere_of_ne hij ⟨_, rfl⟩ (Or.inr rfl)
  · exact elsewhere_of_ne hij ⟨_, rfl⟩ (Or.inl rfl)
  · exact elsewhere_of_ne hij ⟨_, rfl⟩ (Or.inl rfl)

omit [DecidableEq κ] in
theorem elsewhere_onFailure {j : Nat} (hij : i ≠ j) (c : Connection) (aborted : Bool) :
    Elsewhere i s (s.onFailure j c aborted) := by
  unfold onFailure
  split <;> exact elsewhere_of_ne hij ⟨_, rfl⟩ (Or.inl rfl)

omit [DecidableEq κ] in
theorem elsewhere_onWrite {j : Nat} (hij : i ≠ j) (c : Connection) :
    Elsewhere i s (s.onWrite j c) := by
  unfold onWrite
  split <;> exact elsewhere_of_ne hij ⟨_, rfl⟩ (Or.inl rfl)

omit [DecidableEq κ] [Fintype κ] in
theorem opCount_setConnection (s : Server κ) (i : Nat) (c : Connection) :
    (s.setConnection i c).opCount i = c.ops.length := by
  unfold opCount
  rw [setConnection_connections, Function.update_self]
  rfl

omit [DecidableEq κ] in
theorem held_eq_zero {c : Connection} (h : s.OnePlace) (hc : s.connections i = some c)
    (hops : c.ops.length = 1) : s.workers.held i = 0 := by
  have hone := h.places i
  unfold places opCount at hone
  simp only [hc, Option.map_some, Option.getD_some, hops] at hone
  omega

omit [DecidableEq κ] in
theorem follows_received {c : Connection} {data timestamp : Bytes} (h : Matches reserve i s talk)
    (hdown : s.down = false) (hc : s.connections i = some c) (hop : Op.read ∈ c.ops)
    (ht : (s.onRead reserve i c data timestamp).OnePlace) :
    ∃ talk', Talk.step reserve handler talk (.received data) = some talk' ∧
      Matches reserve i (s.onRead reserve i c data timestamp) talk' := by
  obtain ⟨reads, hphase, hops, hall⟩ := h.asking hdown hc hop
  have hheld := held_eq_zero h.onePlace hc (by rw [hops]; rfl)
  have hrest : (c.takeOp .read).ops = [] := by
    unfold Connection.takeOp
    rw [hops]
    rfl
  have hparsed : RequestParser.readAll reserve (RequestParser.fresh talk.derived) (reads ++ [data]) =
      (RequestParser.read reserve c.requestParser data, []) := feedAll_concat hall data
  refine ⟨_, Talk.step_received hphase data, ht, ?_⟩
  cases hparse : RequestParser.parse reserve c.requestParser data with
  | error e =>
    have hread : (c.takeOp .read).onRead reserve timestamp data = (.crashed e, c.takeOp .read) :=
      Connection.onRead_error (c := c.takeOp .read) hparse timestamp
    have hplaces : (s.setConnection i (c.takeOp .read)).places i = 0 := by
      unfold places
      rw [opCount_setConnection, hrest, List.length_nil, Nat.zero_add]
      exact hheld
    have hset : (s.setConnection i (c.takeOp .read)).connections i = some (c.takeOp .read) :=
      Function.update_self ..
    have hfail : RequestParser.read reserve c.requestParser data = .fail (.crash e) := by
      rw [RequestParser.read, hparse]
      rfl
    unfold Talk.onReceived parsed onRead
    rw [hparsed, hfail]
    simp only [hread]
    cases e with
    | fuel => exact ⟨c.takeOp .read, hset, Or.inl hplaces⟩
    | lengthError => exact ⟨c.takeOp .read, hset, Or.inr rfl⟩
  | ok r =>
    have hread := Connection.onRead_ok (c := c.takeOp .read) hparse timestamp
    have hset : ∀ c', (s.setConnection i c').connections i = some c' := fun c' =>
      Function.update_self ..
    have houtcome : RequestParser.read reserve c.requestParser data = Parser.outcome (.ok r) := by
      rw [RequestParser.read, hparse]
    rw [houtcome] at hparsed
    unfold Talk.onReceived parsed onRead
    rw [hparsed]
    by_cases hok : r.1 = false
    · have hrejected : Parser.outcome (.ok r) =
          .fail (.rejected r.2.message r.2.derived r.2.chunked) := by simp [Parser.outcome, hok]
      rw [if_pos hok] at hread
      rw [hrejected] at hparsed ⊢
      simp only [hread]
      refine ⟨_, timestamp, hset _, ?_, ?_⟩
      · simp only [Connection.sendResponse, hrest, Connection.request]
        rfl
      · unfold settled parsed
        rw [hparsed]
        rfl
    by_cases hfinished : r.2.finished = false
    · have hmore : Parser.outcome (.ok r) = .more r.2 := by simp [Parser.outcome, hok, hfinished]
      rw [if_neg hok, if_pos hfinished] at hread
      rw [hmore] at hparsed ⊢
      simp only [hread]
      exact ⟨_, hset _, by simp [Connection.doRead, hrest], hparsed⟩
    · have hdone : Parser.outcome (.ok r) = .done r.2 := by simp [Parser.outcome, hok, hfinished]
      rw [if_neg hok, if_neg hfinished] at hread
      rw [hdone] at hparsed ⊢
      simp only [hread]
      refine ⟨_, hset _, ?_, ?_⟩
      · change (s.workers.push (some i)).held i = 1
        rw [Workers.held_push, if_pos rfl, hheld]
      · unfold parsed
        rw [hparsed]

omit [DecidableEq κ] in
theorem follows_written {c : Connection} {op : Op} (h : Matches reserve i s talk)
    (hdown : s.down = false) (hc : s.connections i = some c) (hop : c.writing = some op)
    (ht : (s.onWrite i (c.takeOp op)).OnePlace) :
    ∃ talk', Talk.step reserve handler talk .written = some talk' ∧
      Matches reserve i (s.onWrite i (c.takeOp op)) talk' := by
  obtain ⟨e, hphase, hops, hheld, hsettled⟩ := h.answering hdown hc hop
  rw [Talk.step_written hphase]
  unfold Talk.onWritten
  rw [hsettled]
  unfold onWrite at ht ⊢
  have hrequest : (c.takeOp op).request = c.requestParser.message := rfl
  rw [hrequest] at ht ⊢
  refine ⟨_, rfl, ?_⟩
  split_ifs at ht ⊢ with halive
  · refine ⟨ht, (c.takeOp op).start, Function.update_self .., ?_, rfl⟩
    simp [Connection.start, Connection.doRead, hops]
  · refine ⟨ht, (c.takeOp op).close, Function.update_self .., Or.inl ?_⟩
    unfold places poolClose
    rw [opCount_setConnection]
    change (c.takeOp op).ops.length + s.workers.held i = 0
    rw [hops, hheld]
    rfl

omit [DecidableEq κ] in
/-- An operation that fails is the last. -/
theorem follows_failure {c : Connection} {op : Op} {aborted : Bool} (h : Matches reserve i s talk)
    (hdown : s.down = false) (hc : s.connections i = some c) (hop : op ∈ c.ops)
    (hwhich : op = .read ∨ c.writing = some op)
    (ht : (s.onFailure i (c.takeOp op) aborted).OnePlace) :
    ∃ talk', Talk.step reserve handler talk .ended = some talk' ∧
      Matches reserve i (s.onFailure i (c.takeOp op) aborted) talk' := by
  have hplaces : s.workers.held i = 0 ∧ (c.takeOp op).ops = [] := by
    have hone := h.onePlace.places i
    have htake := Connection.length_takeOp hop
    unfold places opCount at hone
    simp only [hc, Option.map_some, Option.getD_some] at hone
    exact ⟨by omega, List.eq_nil_of_length_eq_zero (by omega)⟩
  have hstep : Talk.step reserve handler talk .ended = some { talk with phase := .finished } := by
    unfold Talk.step
    rcases hwhich with rfl | hwriting
    · obtain ⟨reads, hphase, -⟩ := h.asking hdown hc hop
      rw [hphase]
    · obtain ⟨e, hphase, -⟩ := h.answering hdown hc hwriting
      rw [hphase]
  refine ⟨_, hstep, ht, ?_⟩
  unfold onFailure poolClose
  split
  · refine ⟨c.takeOp op, Function.update_self .., Or.inl ?_⟩
    unfold places
    rw [opCount_setConnection]
    change (c.takeOp op).ops.length + s.workers.held i = 0
    rw [hplaces.1, hplaces.2]
    rfl
  · refine ⟨(c.takeOp op).close, Function.update_self .., Or.inl ?_⟩
    unfold places
    rw [opCount_setConnection]
    change (c.takeOp op).ops.length + s.workers.held i = 0
    rw [hplaces.1, hplaces.2]
    rfl

theorem follows_answered {k : κ} {c : Connection} {uninitialised : Int} {timestamp : Bytes}
    {response : Response} (h : Matches reserve i s talk) (hdown : s.down = false)
    (hk : s.workers.state k = .busy i) (hc : s.connections i = some c)
    (hresponse : handler uninitialised c.request = .ok response)
    (ht : ({ s with workers := s.workers.finish k }.setConnection i
      (c.sendResponse timestamp response)).OnePlace) :
    ∃ talk', Talk.step reserve handler talk (.answered uninitialised) = some talk' ∧
      Matches reserve i ({ s with workers := s.workers.finish k }.setConnection i
        (c.sendResponse timestamp response)) talk' := by
  obtain ⟨reads, c', hphase, hc', hops, hheld, hdone⟩ := h.asked hdown (Workers.held_pos_of_busy hk)
  cases hc.symm.trans hc'
  rw [Talk.step_answered hphase]
  unfold Talk.onAnswered
  have hrequest : c.request = c.requestParser.message := rfl
  rw [hdone]
  simp only [← hrequest, hresponse]
  refine ⟨_, rfl, ht, _, timestamp, Function.update_self .., ?_, ?_⟩
  · simp only [Connection.sendResponse, hops, Connection.request, Option.getD_some]
    rfl
  · unfold settled
    rw [hdone]
    rfl

omit [DecidableEq κ] in
theorem follows_throws {k : κ} {c : Connection} {uninitialised : Int} {e : Fault}
    (h : Matches reserve i s talk) (hdown : s.down = false) (hk : s.workers.state k = .busy i)
    (hc : s.connections i = some c) (he : handler uninitialised c.request = .error e)
    (ht : ({ s with down := true } : Server κ).OnePlace) :
    ∃ talk', Talk.step reserve handler talk (.answered uninitialised) = some talk' ∧
      Matches reserve i ({ s with down := true } : Server κ) talk' := by
  obtain ⟨reads, c', hphase, hc', hops, hheld, hdone⟩ := h.asked hdown (Workers.held_pos_of_busy hk)
  cases hc.symm.trans hc'
  rw [Talk.step_answered hphase]
  unfold Talk.onAnswered
  have hrequest : c.request = c.requestParser.message := rfl
  rw [hdone]
  simp only [← hrequest, he]
  exact ⟨_, rfl, ht, c, hc, Or.inr rfl⟩

omit [DecidableEq κ] in
/-- `Stop` drops what is on the queue. -/
theorem follows_signal (h : Matches reserve i s talk) (hdown : s.down = false)
    (ht : s.onSignal.OnePlace) :
    ∃ talk', Trace.run (Talk.step reserve handler) talk (talkEvents i s .signal) = some talk' ∧
      Matches reserve i s.onSignal talk' := by
  have hheld : s.onSignal.workers.held i = s.workers.total (Workers.isBusy i) := by
    change (s.workers.clear.push none).held i = _
    rw [Workers.held_push, if_neg (by simp)]
    exact Nat.zero_add _
  unfold talkEvents
  by_cases hmem : some i ∈ s.workers.queue
  · obtain ⟨reads, c, hphase, hc, hops, hone, -⟩ := h.asked hdown (Workers.held_pos_of_mem hmem)
    have hcount := List.count_pos_iff.mpr hmem
    have hstep : Talk.step reserve handler talk .ended = some { talk with phase := .finished } := by
      unfold Talk.step
      rw [hphase]
    rw [if_pos hmem, run_cons_eq hstep]
    refine ⟨_, rfl, ht, c, hc, Or.inl ?_⟩
    unfold Workers.held at hone
    unfold places opCount
    rw [hheld]
    change ((s.connections i).map fun c => c.ops.length).getD 0 + _ = 0
    rw [hc, Option.map_some, Option.getD_some, hops, List.length_nil]
    omega
  · rw [if_neg hmem]
    refine ⟨talk, rfl, h.elsewhere ht ⟨rfl, ?_⟩ hdown⟩
    rw [hheld, Workers.held, List.count_eq_zero_of_not_mem hmem, Nat.zero_add]

/-- One event of the talk. -/
theorem run_one {talk' : Talk} {e : Talk.Event} (h : Talk.step reserve handler talk e = some talk') :
    Trace.run (Talk.step reserve handler) talk [e] = some talk' := by
  rw [run_cons_eq h]
  rfl

omit [DecidableEq κ] in
theorem follows_accept (h : Matches reserve s.accepted s talk) (hopen : s.acceptor_open = true)
    (ht : (s.onAccept true).OnePlace) :
    ∃ talk', Trace.run (Talk.step reserve handler) talk [.accepted] = some talk' ∧
      Matches reserve s.accepted (s.onAccept true) talk' := by
  obtain ⟨hplace, hphase⟩ := h
  have hnone := hplace.accepted s.accepted le_rfl
  have htalk : talk = Talk.start := by
    cases hcase : talk.phase <;> rw [hcase] at hphase
    case silent => exact hphase.2
    all_goals
      obtain ⟨c, hphase⟩ := hphase
      first
        | (obtain ⟨hc, -⟩ := hphase; rw [hnone] at hc; cases hc)
        | (obtain ⟨timestamp, hc, -⟩ := hphase; rw [hnone] at hc; cases hc)
  subst htalk
  have hstep : Talk.step reserve handler Talk.start .accepted =
      some { Talk.start with phase := .asking [] } := rfl
  refine ⟨_, run_one hstep, ht, Connection.accepted, ?_, rfl, rfl⟩
  unfold onAccept
  rw [if_neg (by simp [hopen]), if_pos rfl]
  exact Function.update_self ..

/-- The step lemma. -/
theorem follows {e : Event κ} (h : Matches reserve i s talk)
    (hstep : step reserve handler s e = some t) :
    ∃ talk', Trace.run (Talk.step reserve handler) talk (talkEvents i s e) = some talk' ∧
      Matches reserve i t talk' := by
  have ht := h.onePlace.step hstep
  obtain ⟨hdown, hsteps⟩ := step_cases hstep
  have hstay : Elsewhere i s t → ∃ talk', Trace.run (Talk.step reserve handler) talk [] = some talk' ∧
      Matches reserve i t talk' := fun he => ⟨talk, rfl, h.elsewhere ht he hdown⟩
  cases hsteps with
  | @accept ok hio haccepting =>
    simp only [talkEvents]
    split_ifs with hnew
    · obtain ⟨hopen, rfl, rfl⟩ := hnew
      exact follows_accept h hopen ht
    · apply hstay
      unfold onAccept
      split_ifs with hclosed hok
      · exact ⟨rfl, rfl⟩
      · refine elsewhere_of_ne (j := s.accepted) ?_ ⟨_, rfl⟩ (Or.inl rfl)
        rintro rfl
        exact hnew ⟨by simpa using hclosed, hok, rfl⟩
      · exact ⟨rfl, rfl⟩
  | @read j c data timestamp hio hc hop =>
    simp only [talkEvents]
    split_ifs with hij
    · subst hij
      obtain ⟨talk', htalk, hmatches⟩ := follows_received h hdown hc hop ht
      exact ⟨talk', run_one htalk, hmatches⟩
    · exact hstay (elsewhere_onRead (Ne.symm hij) c data timestamp)
  | @readFailed j c aborted hio hc hop =>
    simp only [talkEvents]
    split_ifs with hij
    · subst hij
      obtain ⟨talk', htalk, hmatches⟩ := follows_failure h hdown hc hop (Or.inl rfl) ht
      exact ⟨talk', run_one htalk, hmatches⟩
    · exact hstay (elsewhere_onFailure (Ne.symm hij) _ aborted)
  | @written j c op hio hc hop =>
    simp only [talkEvents]
    split_ifs with hij
    · subst hij
      obtain ⟨talk', htalk, hmatches⟩ := follows_written h hdown hc hop ht
      exact ⟨talk', run_one htalk, hmatches⟩
    · exact hstay (elsewhere_onWrite (Ne.symm hij) _)
  | @writeFailed j c op aborted hio hc hop =>
    simp only [talkEvents]
    split_ifs with hij
    · subst hij
      obtain ⟨talk', htalk, hmatches⟩ :=
        follows_failure h hdown hc (Connection.mem_of_writing hop) (Or.inr hop) ht
      exact ⟨talk', run_one htalk, hmatches⟩
    · exact hstay (elsewhere_onFailure (Ne.symm hij) _ aborted)
  | signal => exact follows_signal h hdown ht
  | stopped hio hall =>
    refine ⟨talk, rfl, ?_⟩
    by_cases hpool : i ∈ s.pool
    · exact h.close ht (if_pos hpool) rfl hdown
    · exact h.elsewhere ht ⟨if_neg hpool, rfl⟩ hdown
  | @pop k w hw => exact hstay ⟨rfl, Workers.held_pop hw i⟩
  | @handle k j c uninitialised timestamp response hk hc hresponse =>
    simp only [talkEvents]
    split_ifs with hi
    · cases hk.symm.trans hi
      obtain ⟨talk', htalk, hmatches⟩ := follows_answered h hdown hk hc hresponse ht
      exact ⟨talk', run_one htalk, hmatches⟩
    · apply hstay
      have hij : i ≠ j := by
        rintro rfl
        exact hi hk
      refine ⟨Function.update_of_ne hij .., ?_⟩
      have hfinish := Workers.held_finish hk i
      rwa [if_neg (Ne.symm hij), Nat.add_zero] at hfinish
  | @throws k j c uninitialised timestamp e hk hc he =>
    simp only [talkEvents]
    split_ifs with hi
    · cases hk.symm.trans hi
      obtain ⟨talk', htalk, hmatches⟩ := follows_throws h hdown hk hc he ht
      exact ⟨talk', run_one htalk, hmatches⟩
    · exact hstay ⟨rfl, rfl⟩
  | @leave k w hw => exact hstay ⟨rfl, Workers.held_leave hw i⟩

omit [DecidableEq κ] in
theorem matches_init (i : Nat) : Matches reserve i (init : Server κ) Talk.start :=
  ⟨onePlace_init, rfl, rfl⟩

/-- Every connection follows its talk: whatever the other connections and the workers do, what it is
answered depends on its own reads only. The answers written so far, and the one under way, are the
handler's to the requests that the reads make one after the other, or 400 to what makes none. -/
theorem connection_talks {es : List (Event κ)}
    (h : Trace.run (step reserve handler) init es = some s) (i : Nat) :
    ∃ talk, Trace.run (Talk.step reserve handler) Talk.start
        (share (step reserve handler) (talkEvents i) init es) = some talk ∧
      talk.Ok reserve handler ∧ Matches reserve i s talk := by
  obtain ⟨talk, htalk, hmatches⟩ := run_simulates h (matches_init i)
    fun _ _ _ _ hm hstep => follows hm hstep
  exact ⟨talk, htalk, Talk.ok_run htalk, hmatches⟩

/-- A client that asks once and is answered. -/
theorem connection_talks_once :
    ∃ s : Server (Fin 2), Trace.run (step (fun _ => true) fun _ _ => .ok (Response.new 404)) init
        [.accept true, .read 0 (ascii "GET / HTTP/1.1\r\n\r\n") [], .pop 1, .handle 1 0 [],
          .written 0] = some s ∧
      ∃ talk : Talk, talk.exchanges.length = 1 ∧ Matches (fun _ => true) 0 s talk := by
  obtain ⟨s, hs⟩ : ∃ s : Server (Fin 2),
      Trace.run (step (fun _ => true) fun _ _ => .ok (Response.new 404)) init
        [.accept true, .read 0 (ascii "GET / HTTP/1.1\r\n\r\n") [], .pop 1, .handle 1 0 [],
          .written 0] = some s := ⟨_, rfl⟩
  obtain ⟨talk, htalk, -, hmatches⟩ := connection_talks hs 0
  cases htalk
  exact ⟨s, hs, _, rfl, hmatches⟩

end Server

end FaceDetection.Webcc
