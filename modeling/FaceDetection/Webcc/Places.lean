import FaceDetection.Webcc.Server

/-!
# One owner

A connection has an operation under way, or it is on the queue, or a worker has taken it and not begun to
answer, and never two of these at once: so no two workers handle one connection, and no operation begins
before the last has ended. A worker that has begun the answer has nothing more to do with the connection,
but still holds it on its way back. The pool has the connections that are open.
-/

open FaceDetection.Trace

namespace FaceDetection.Webcc

/-! ## Operations -/

namespace Connection

theorem length_takeOp {c : Connection} {op : Op} (h : op ∈ c.ops) :
    (c.takeOp op).ops.length + 1 = c.ops.length := by
  have hpos := List.length_pos_of_mem h
  have hlen := List.length_erase_of_mem h
  simp only [takeOp]
  omega

theorem mem_of_writing {c : Connection} {op : Op} (h : c.writing = some op) : op ∈ c.ops :=
  List.mem_of_find?_eq_some h

theorem onRead_error {reserve : Nat → Bool} {data : Bytes} {c : Connection} {e : Crash}
    (h : RequestParser.parse reserve c.requestParser data = .error e) (timestamp : Bytes) :
    c.onRead reserve timestamp data = (.crashed e, c) := by
  unfold onRead
  rw [h]

theorem onRead_ok {reserve : Nat → Bool} {data : Bytes} {c : Connection} {r : Bool × RequestParser}
    (h : RequestParser.parse reserve c.requestParser data = .ok r) (timestamp : Bytes) :
    c.onRead reserve timestamp data =
      if r.1 = false then
        (.rejected, { c with requestParser := r.2 }.sendResponse timestamp (Response.new 400))
      else if r.2.finished = false then (.waiting, { c with requestParser := r.2 }.doRead)
      else (.enqueued, { c with requestParser := r.2 }) := by
  unfold onRead
  rw [h]

/-- How many operations `OnRead` begins. -/
def AfterRead.begun : AfterRead → Nat
  | .waiting | .rejected => 1
  | .enqueued | .crashed _ => 0

theorem onRead_ops (reserve : Nat → Bool) (timestamp data : Bytes) (c : Connection) :
    let r := c.onRead reserve timestamp data
    r.2.closed = c.closed ∧ r.2.ops.length = c.ops.length + r.1.begun := by
  cases hparse : RequestParser.parse reserve c.requestParser data with
  | error e =>
    rw [onRead_error hparse]
    exact ⟨rfl, rfl⟩
  | ok r =>
    rw [onRead_ok hparse]
    split_ifs
    · exact ⟨rfl, by simp [sendResponse, AfterRead.begun]⟩
    · exact ⟨rfl, by simp [doRead, AfterRead.begun]⟩
    · exact ⟨rfl, rfl⟩

end Connection

/-! ## What a step does -/

namespace Server

variable {κ : Type} [DecidableEq κ] [Fintype κ] (reserve : Nat → Bool)
  (handler : Int → Request → Except Fault Response)

/-- What a step can be, with what has to hold for it. -/
inductive Steps (s : Server κ) : Event κ → Server κ → Prop
  | accept {ok : Bool} (hio : s.io = .running) (haccepting : s.accepting = true) :
    Steps s (.accept ok) (s.onAccept ok)
  | read {i : Nat} {c : Connection} {data timestamp : Bytes} (hio : s.io = .running)
    (hc : s.connections i = some c) (hop : Op.read ∈ c.ops) :
    Steps s (.read i data timestamp) (s.onRead reserve i c data timestamp)
  | readFailed {i : Nat} {c : Connection} {aborted : Bool} (hio : s.io = .running)
    (hc : s.connections i = some c) (hop : Op.read ∈ c.ops) :
    Steps s (.readFailed i aborted) (s.onFailure i (c.takeOp .read) aborted)
  | written {i : Nat} {c : Connection} {op : Op} (hio : s.io = .running)
    (hc : s.connections i = some c) (hop : c.writing = some op) :
    Steps s (.written i) (s.onWrite i (c.takeOp op))
  | writeFailed {i : Nat} {c : Connection} {op : Op} {aborted : Bool} (hio : s.io = .running)
    (hc : s.connections i = some c) (hop : c.writing = some op) :
    Steps s (.writeFailed i aborted) (s.onFailure i (c.takeOp op) aborted)
  | signal (hio : s.io = .running) (hawaiting : s.awaiting = true) : Steps s .signal s.onSignal
  | stopped (hio : s.io = .joining) (hall : ∀ k, s.workers.state k = .stopped) :
    Steps s .stopped s.afterStop
  | pop {k : κ} {w : Workers Nat κ} (hw : s.workers.pop k = some w) :
    Steps s (.pop k) { s with workers := w }
  | handle {k : κ} {i : Nat} {c : Connection} {uninitialised : Int} {timestamp : Bytes}
    {response : Response} (hk : s.workers.state k = .busy i) (hc : s.connections i = some c)
    (hresponse : handler uninitialised c.request = .ok response) :
    Steps s (.handle k uninitialised timestamp)
      ({ s with workers := s.workers.finish k }.setConnection i (c.sendResponse timestamp response))
  | throws {k : κ} {i : Nat} {c : Connection} {uninitialised : Int} {timestamp : Bytes} {e : Fault}
    (hk : s.workers.state k = .busy i) (hc : s.connections i = some c)
    (he : handler uninitialised c.request = .error e) :
    Steps s (.handle k uninitialised timestamp) { s with down := true }
  | leave {k : κ} {w : Workers Nat κ} (hw : s.workers.leave k = some w) :
    Steps s (.leave k) { s with workers := w }

variable {reserve handler}

theorem step_cases {s t : Server κ} {e : Event κ} (h : step reserve handler s e = some t) :
    s.down = false ∧ Steps reserve handler s e t := by
  have hdown : s.down = false := by
    by_contra hdown
    rw [step.eq_def, if_pos (by simpa using hdown)] at h
    cases h
  refine ⟨hdown, ?_⟩
  rw [step.eq_def, if_neg (by simp [hdown])] at h
  cases e with
  | accept ok =>
    simp only at h
    split_ifs at h with hguard
    cases h
    exact .accept hguard.1 hguard.2
  | read i data timestamp =>
    simp only at h
    cases hc : s.connections i with
    | none => simp [hc] at h
    | some c =>
      simp only [hc] at h
      split_ifs at h with hguard
      cases h
      exact .read hguard.1 hc hguard.2
  | readFailed i aborted =>
    simp only at h
    cases hc : s.connections i with
    | none => simp [hc] at h
    | some c =>
      simp only [hc] at h
      split_ifs at h with hguard
      cases h
      exact .readFailed hguard.1 hc hguard.2
  | written i =>
    simp only at h
    cases hc : s.connections i with
    | none => simp [hc] at h
    | some c =>
      simp only [hc] at h
      cases hop : c.writing with
      | none => simp [hop] at h
      | some op =>
        simp only [hop] at h
        split_ifs at h with hguard
        cases h
        exact .written hguard hc hop
  | writeFailed i aborted =>
    simp only at h
    cases hc : s.connections i with
    | none => simp [hc] at h
    | some c =>
      simp only [hc] at h
      cases hop : c.writing with
      | none => simp [hop] at h
      | some op =>
        simp only [hop] at h
        split_ifs at h with hguard
        cases h
        exact .writeFailed hguard hc hop
  | signal =>
    simp only at h
    split_ifs at h with hguard
    cases h
    exact .signal hguard.1 hguard.2
  | stopped =>
    simp only at h
    split_ifs at h with hguard
    cases h
    exact .stopped hguard.1 hguard.2
  | pop k =>
    obtain ⟨w, hw, rfl⟩ := Option.map_eq_some_iff.mp h
    exact .pop hw
  | handle k uninitialised timestamp =>
    simp only at h
    cases hk : s.workers.state k with
    | busy i =>
      simp only [hk, onHandle] at h
      cases hc : s.connections i with
      | none => simp [hc] at h
      | some c =>
        simp only [hc] at h
        cases hresponse : handler uninitialised c.request with
        | error e =>
          simp only [hresponse] at h
          cases h
          exact .throws hk hc hresponse
        | ok response =>
          simp only [hresponse] at h
          cases h
          exact .handle hk hc hresponse
    | _ => simp [hk] at h
  | leave k =>
    obtain ⟨w, hw, rfl⟩ := Option.map_eq_some_iff.mp h
    exact .leave hw

/-! ## One place -/

def opCount (s : Server κ) (i : Nat) : Nat := ((s.connections i).map fun c => c.ops.length).getD 0

/-- In how many places connection `i` is. -/
def places (s : Server κ) (i : Nat) : Nat := s.opCount i + s.workers.held i

structure OnePlace (s : Server κ) : Prop where
  places : ∀ i, s.places i ≤ 1
  accepted : ∀ i, s.accepted ≤ i → s.connections i = none
  unheld : ∀ i, s.connections i = none → s.workers.held i = 0
  pool : ∀ i, i ∈ s.pool ↔ ∃ c, s.connections i = some c ∧ c.closed = false

omit [DecidableEq κ] in
/-- A step about connection `i`, which leaves it in no more places than before. -/
theorem OnePlace.update {s t : Server κ} (h : s.OnePlace) {i : Nat} {c : Connection}
    (hc : s.connections i = some c) (ht : t.connections i ≠ none)
    (hplaces : t.places i ≤ s.places i) (hothers : ∀ j, j ≠ i →
      t.connections j = s.connections j ∧ t.workers.held j ≤ s.workers.held j)
    (haccepted : t.accepted = s.accepted)
    (hpool : ∀ j, j ∈ t.pool ↔ ∃ c, t.connections j = some c ∧ c.closed = false) : t.OnePlace := by
  refine ⟨fun j => ?_, fun j hj => ?_, fun j hj => ?_, hpool⟩
  · by_cases hji : j = i
    · subst hji
      exact hplaces.trans (h.places j)
    · obtain ⟨hconnections, hheld⟩ := hothers j hji
      have hj := h.places j
      unfold Server.places opCount at hj ⊢
      rw [hconnections]
      omega
  · rw [haccepted] at hj
    have hnone := h.accepted j hj
    have hji : j ≠ i := by
      rintro rfl
      rw [hc] at hnone
      cases hnone
    exact (hothers j hji).1.trans hnone
  · have hji : j ≠ i := by
      rintro rfl
      exact ht hj
    obtain ⟨hconnections, hheld⟩ := hothers j hji
    have hzero := h.unheld j (hconnections.symm.trans hj)
    omega

omit [DecidableEq κ] [Fintype κ] in
theorem setConnection_connections (s : Server κ) (i : Nat) (c : Connection) :
    (s.setConnection i c).connections = Function.update s.connections i (some c) := rfl

omit [DecidableEq κ] in
/-- Connection `i` goes on as `c'`, in no more places and as open as it was. -/
theorem OnePlace.set {s : Server κ} (h : s.OnePlace) {i : Nat} {c : Connection}
    (hc : s.connections i = some c) (c' : Connection) (hclosed : c'.closed = c.closed) (workers : Workers Nat κ)
    (hothers : ∀ j, j ≠ i → workers.held j = s.workers.held j)
    (hplaces : c'.ops.length + workers.held i ≤ c.ops.length + s.workers.held i) :
    ({ s with workers := workers }.setConnection i c').OnePlace := by
  apply h.update hc
  · rw [setConnection_connections, Function.update_self]
    simp
  · unfold Server.places opCount
    rw [setConnection_connections, Function.update_self, hc]
    exact hplaces
  · intro j hj
    exact ⟨Function.update_of_ne hj .., (hothers j hj).le⟩
  · rfl
  · intro j
    rw [setConnection_connections]
    by_cases hj : j = i
    · subst hj
      rw [Function.update_self]
      refine (h.pool j).trans ?_
      simp [hc, hclosed]
    · rw [Function.update_of_ne hj]
      exact h.pool j

omit [DecidableEq κ] in
/-- The pool closes connection `i`, which may have been closed before. -/
theorem OnePlace.poolClose {s : Server κ} (h : s.OnePlace) {i : Nat} {c c' : Connection}
    (hc : s.connections i = some c) (hops : c'.ops.length ≤ c.ops.length) :
    (s.poolClose i c').OnePlace := by
  apply h.update hc
  · unfold Server.poolClose
    rw [setConnection_connections, Function.update_self]
    simp
  · unfold Server.places opCount Server.poolClose
    rw [setConnection_connections, Function.update_self, hc]
    exact Nat.add_le_add_right hops _
  · intro j hj
    exact ⟨Function.update_of_ne hj .., le_rfl⟩
  · rfl
  · intro j
    have hpool : j ∈ (s.poolClose i c').pool ↔ j ≠ i ∧ j ∈ s.pool := Finset.mem_erase
    rw [hpool]
    unfold Server.poolClose
    rw [setConnection_connections]
    by_cases hj : j = i
    · subst hj
      simp [Connection.close]
    · rw [Function.update_of_ne hj, h.pool j]
      simp [hj]

omit [DecidableEq κ] in
/-- The workers hand connections on. -/
theorem OnePlace.workers {s : Server κ} (h : s.OnePlace) {w : Workers Nat κ}
    (hheld : ∀ i, w.held i = s.workers.held i) : ({ s with workers := w } : Server κ).OnePlace := by
  refine ⟨fun i => ?_, h.accepted, fun i hi => ?_, h.pool⟩
  · have hi := h.places i
    unfold Server.places opCount at hi ⊢
    rwa [hheld i]
  · rw [hheld i]
    exact h.unheld i hi

/-! ## Each event -/

omit [DecidableEq κ] in
/-- A new connection is in one place: it is read. -/
theorem OnePlace.onAccept {s : Server κ} (h : s.OnePlace) (ok : Bool) : (s.onAccept ok).OnePlace := by
  unfold Server.onAccept
  split_ifs with hclosed hok
  · exact ⟨h.places, h.accepted, h.unheld, h.pool⟩
  · have hzero := h.unheld _ (h.accepted s.accepted le_rfl)
    refine ⟨fun i => ?_, fun i hi => ?_, fun i hi => ?_, fun i => ?_⟩
    · unfold Server.places opCount
      rw [setConnection_connections]
      by_cases hi : i = s.accepted
      · subst hi
        rw [Function.update_self]
        exact hzero.symm ▸ le_rfl
      · rw [Function.update_of_ne hi]
        exact h.places i
    · change s.accepted + 1 ≤ i at hi
      rw [setConnection_connections, Function.update_of_ne (by omega)]
      exact h.accepted i (by omega)
    · by_cases hi' : i = s.accepted
      · subst hi'
        exact hzero
      · rw [setConnection_connections, Function.update_of_ne hi'] at hi
        exact h.unheld i hi
    · rw [setConnection_connections]
      refine (Finset.mem_insert).trans ?_
      by_cases hi : i = s.accepted
      · subst hi
        rw [Function.update_self]
        exact iff_of_true (Or.inl rfl) ⟨_, rfl, rfl⟩
      · rw [Function.update_of_ne hi]
        simp only [hi, false_or]
        exact h.pool i
  · exact h

omit [DecidableEq κ] in
/-- A connection that has been read is read again, written or put on the queue, or nothing more
happens to it. -/
theorem OnePlace.onRead {s : Server κ} (h : s.OnePlace) {i : Nat} {c : Connection}
    (hc : s.connections i = some c) (hop : Op.read ∈ c.ops) (data timestamp : Bytes) :
    (s.onRead reserve i c data timestamp).OnePlace := by
  obtain ⟨hclosed, hlen⟩ := (c.takeOp .read).onRead_ops reserve timestamp data
  have htake := Connection.length_takeOp hop
  unfold Server.onRead
  simp only
  generalize (c.takeOp .read).onRead reserve timestamp data = r at hclosed hlen
  cases hr : r.1 with
  | waiting =>
    rw [hr, Connection.AfterRead.begun] at hlen
    exact h.set hc _ hclosed s.workers (fun _ _ => rfl) (by omega)
  | rejected =>
    rw [hr, Connection.AfterRead.begun] at hlen
    exact h.set hc _ hclosed s.workers (fun _ _ => rfl) (by omega)
  | enqueued =>
    rw [hr, Connection.AfterRead.begun] at hlen
    apply h.set hc _ hclosed (s.workers.push (some i))
    · intro j hj
      rw [Workers.held_push, if_neg (by simpa using hj.symm), Nat.add_zero]
    · rw [Workers.held_push, if_pos rfl]
      omega
  | crashed e =>
    rw [hr, Connection.AfterRead.begun] at hlen
    have hset := h.set hc _ hclosed s.workers (fun _ _ => rfl) (by omega)
    cases e <;> exact ⟨hset.places, hset.accepted, hset.unheld, hset.pool⟩

omit [DecidableEq κ] in
theorem OnePlace.onFailure {s : Server κ} (h : s.OnePlace) {i : Nat} {c : Connection}
    (hc : s.connections i = some c) {op : Op} (hop : op ∈ c.ops) (aborted : Bool) :
    (s.onFailure i (c.takeOp op) aborted).OnePlace := by
  have htake := Connection.length_takeOp hop
  unfold Server.onFailure
  split
  · exact h.set hc (c.takeOp op) rfl s.workers (fun _ _ => rfl) (by omega)
  · exact h.poolClose hc (by omega)

omit [DecidableEq κ] in
theorem OnePlace.onWrite {s : Server κ} (h : s.OnePlace) {i : Nat} {c : Connection}
    (hc : s.connections i = some c) {op : Op} (hop : op ∈ c.ops) :
    (s.onWrite i (c.takeOp op)).OnePlace := by
  have htake := Connection.length_takeOp hop
  unfold Server.onWrite
  split
  · apply h.set hc (c.takeOp op).start rfl s.workers (fun _ _ => rfl)
    simp only [Connection.start, Connection.doRead, List.length_append, List.length_singleton]
    omega
  · exact h.poolClose hc (by omega)

omit [DecidableEq κ] in
/-- What was on the queue is in no place. -/
theorem OnePlace.onSignal {s : Server κ} (h : s.OnePlace) : s.onSignal.OnePlace := by
  have hheld : ∀ i, (s.workers.clear.push none).held i ≤ s.workers.held i := by
    intro i
    rw [Workers.held_push, if_neg (by simp)]
    exact Workers.held_clear_le s.workers i
  refine ⟨fun i => le_trans (Nat.add_le_add_left (hheld i) _) (h.places i), h.accepted,
    fun i hi => ?_, h.pool⟩
  exact Nat.le_zero.mp (h.unheld i hi ▸ hheld i)

omit [DecidableEq κ] in
/-- All sockets are closed, and no connection moves. -/
theorem OnePlace.afterStop {s : Server κ} (h : s.OnePlace) : s.afterStop.OnePlace := by
  refine ⟨fun i => ?_, fun i hi => ?_, fun i hi => ?_, fun i => ?_⟩
  · have hi := h.places i
    unfold Server.places opCount at hi ⊢
    unfold Server.afterStop
    simp only
    split
    · rw [Option.map_map]
      exact hi
    · exact hi
  · unfold Server.afterStop
    simp only [h.accepted i hi, Option.map_none, ite_self]
  · unfold Server.afterStop at hi
    apply h.unheld i
    simp only at hi
    split_ifs at hi
    · exact Option.map_eq_none_iff.mp hi
    · exact hi
  · unfold Server.afterStop
    simp only [Finset.notMem_empty, false_iff]
    rintro ⟨c, hc, hopen⟩
    split_ifs at hc with hpool
    · obtain ⟨c', -, rfl⟩ := Option.map_eq_some_iff.mp hc
      cases hopen
    · exact hpool ((h.pool i).mpr ⟨c, hc, hopen⟩)

/-- The connection goes from the worker to the write. -/
theorem OnePlace.sendResponse {s : Server κ} (h : s.OnePlace) {k : κ} {i : Nat} {c : Connection}
    (hk : s.workers.state k = .busy i) (hc : s.connections i = some c) (timestamp : Bytes)
    (response : Response) :
    ({ s with workers := s.workers.finish k }.setConnection i
      (c.sendResponse timestamp response)).OnePlace := by
  have hheld := Workers.held_finish hk i
  rw [if_pos rfl] at hheld
  apply h.set hc (c.sendResponse timestamp response) rfl (s.workers.finish k)
  · intro j hj
    have hother := Workers.held_finish hk j
    rwa [if_neg (Ne.symm hj), Nat.add_zero] at hother
  · simp only [Connection.sendResponse, List.length_append, List.length_singleton]
    omega

/-- The step lemma. -/
theorem OnePlace.step {s t : Server κ} {e : Event κ} (h : s.OnePlace)
    (hstep : Server.step reserve handler s e = some t) : t.OnePlace := by
  obtain ⟨-, hsteps⟩ := step_cases hstep
  cases hsteps with
  | accept => exact h.onAccept _
  | read _ hc hop => exact h.onRead hc hop _ _
  | readFailed _ hc hop => exact h.onFailure hc hop _
  | written _ hc hop => exact h.onWrite hc (Connection.mem_of_writing hop)
  | writeFailed _ hc hop => exact h.onFailure hc (Connection.mem_of_writing hop) _
  | signal => exact h.onSignal
  | stopped => exact h.afterStop
  | pop hw => exact h.workers (Workers.held_pop hw)
  | handle hk hc => exact h.sendResponse hk hc _ _
  | throws => exact ⟨h.places, h.accepted, h.unheld, h.pool⟩
  | leave hw => exact h.workers (Workers.held_leave hw)

omit [DecidableEq κ] in
theorem onePlace_init : (init : Server κ).OnePlace := by
  have hheld : ∀ i, (init : Server κ).workers.held i = 0 := by
    intro i
    have htotal : (init : Server κ).workers.total (Workers.isBusy i) = 0 :=
      Finset.sum_eq_zero fun k _ => by simp [init, Workers.isBusy]
    unfold Workers.held
    rw [htotal]
    rfl
  refine ⟨fun i => ?_, fun i _ => rfl, fun i _ => hheld i, fun i => by simp [init]⟩
  have hops : (init : Server κ).opCount i = 0 := rfl
  unfold Server.places
  rw [hops, hheld i]
  omega

theorem onePlace_run {s : Server κ} {es : List (Event κ)}
    (h : Trace.run (step reserve handler) init es = some s) : s.OnePlace :=
  run_invariant h onePlace_init fun _ _ _ hs hstep => hs.step hstep

/-! ## On the way back -/

omit [Fintype κ] in
/-- What a step leaves of a worker that waits. -/
theorem Steps.waiting {s t : Server κ} {e : Event κ} (h : Steps reserve handler s e t) {k : κ}
    (hk : s.workers.state k = .waiting) (hpop : e ≠ .pop k) : t.workers.state k = .waiting := by
  cases h with
  | accept =>
    unfold Server.onAccept
    split_ifs <;> exact hk
  | read =>
    unfold Server.onRead
    simp only
    split <;> exact hk
  | readFailed | writeFailed =>
    unfold Server.onFailure
    split <;> exact hk
  | written =>
    unfold Server.onWrite
    split <;> exact hk
  | signal | stopped | throws => exact hk
  | @pop j w hw =>
    obtain ⟨-, x, queue, -, rfl⟩ := Workers.pop_eq hw
    have hne : k ≠ j := by
      rintro rfl
      exact hpop rfl
    exact (Function.update_of_ne hne ..).trans hk
  | @handle j i c uninitialised timestamp response hj hc hresponse =>
    have hne : k ≠ j := by
      rintro rfl
      rw [hk] at hj
      cases hj
    exact (Function.update_of_ne hne ..).trans hk
  | @leave j w hw =>
    obtain ⟨hleaving, rfl⟩ := Workers.leave_eq hw
    have hne : k ≠ j := by
      rintro rfl
      rw [hk] at hleaving
      cases hleaving
    exact (Function.update_of_ne hne ..).trans hk

/-- A server with the connections that workers still hold on their way back from `SendResponse`. The
write has begun by then, and the thread of `Run` may be through with it before the worker is back. -/
structure Returning (κ : Type) where
  server : Server κ
  holding : κ → Option Nat

namespace Returning

inductive Event (κ : Type) where
  | event (e : Server.Event κ)
  | returned (k : κ)

def init : Returning κ := { server := Server.init, holding := fun _ => none }

/-- The connection that worker `k` has taken. -/
def taken (s : Returning κ) (k : κ) : Option Nat :=
  match s.server.workers.state k with
  | .busy i => some i
  | _ => none

variable (reserve handler) in
/-- A worker keeps its connection until it is back, and takes the next one only then. When the service
throws it does not come back. -/
def step (s : Returning κ) : Event κ → Option (Returning κ)
  | .event (.pop k) =>
    if s.holding k = none then
      (Server.step reserve handler s.server (.pop k)).map fun server => { s with server := server }
    else none
  | .event (.handle k uninitialised timestamp) =>
    (Server.step reserve handler s.server (.handle k uninitialised timestamp)).map fun server =>
      { server := server
        holding := if server.down then s.holding else Function.update s.holding k (s.taken k) }
  | .event e => (Server.step reserve handler s.server e).map fun server => { s with server := server }
  | .returned k =>
    if s.holding k = none then none
    else some { s with holding := Function.update s.holding k none }

/-- What the server itself does in a step. -/
def serverEvents (_ : Returning κ) : Event κ → List (Server.Event κ)
  | .event e => [e]
  | .returned _ => []

/-- A step is one of the server, or the way back of a worker. -/
theorem step_cases {s t : Returning κ} {e : Event κ} (h : step reserve handler s e = some t) :
    (∃ e', e = .event e' ∧ Server.step reserve handler s.server e' = some t.server ∧
        (∀ k, e' = .pop k → s.holding k = none) ∧
        (t.holding = s.holding ∨ t.server.down = false ∧ ∃ k uninitialised timestamp,
          e' = .handle k uninitialised timestamp ∧
            t.holding = Function.update s.holding k (s.taken k))) ∨
      ∃ k, e = .returned k ∧ t = { s with holding := Function.update s.holding k none } := by
  cases e with
  | returned k =>
    simp only [step] at h
    split_ifs at h
    exact Or.inr ⟨k, rfl, (Option.some.inj h).symm⟩
  | event e =>
    left
    cases e with
    | pop k =>
      simp only [step] at h
      split_ifs at h with hback
      obtain ⟨server, hserver, rfl⟩ := Option.map_eq_some_iff.mp h
      refine ⟨.pop k, rfl, hserver, fun j hj => ?_, Or.inl rfl⟩
      cases hj
      exact hback
    | handle k uninitialised timestamp =>
      obtain ⟨server, hserver, rfl⟩ := Option.map_eq_some_iff.mp h
      refine ⟨_, rfl, hserver, fun j hj => (by cases hj), ?_⟩
      cases hdown : server.down with
      | true => exact Or.inl (by simp)
      | false => exact Or.inr ⟨rfl, k, uninitialised, timestamp, rfl, by simp⟩
    | _ =>
      obtain ⟨server, hserver, rfl⟩ := Option.map_eq_some_iff.mp h
      exact ⟨_, rfl, hserver, fun j hj => (by cases hj), Or.inl rfl⟩

/-- The server runs as it does without the ways back. -/
theorem run_server {s : Returning κ} {es : List (Event κ)}
    (h : Trace.run (step reserve handler) init es = some s) :
    ∃ es', Trace.run (Server.step reserve handler) Server.init es' = some s.server := by
  have hfollows : ∀ (s : Returning κ) (e : Event κ) (t : Returning κ) (server : Server κ),
      s.server = server → step reserve handler s e = some t →
        ∃ server', Trace.run (Server.step reserve handler) server (serverEvents s e) = some server' ∧
          t.server = server' := by
    rintro s e t _ rfl hstep
    refine ⟨t.server, ?_, rfl⟩
    rcases step_cases hstep with ⟨e', rfl, hserver, -, -⟩ | ⟨k, rfl, rfl⟩
    · exact run_cons_eq hserver []
    · rfl
  obtain ⟨server, hrun, rfl⟩ := run_simulates (R := fun (s : Returning κ) server => s.server = server) h rfl hfollows
  exact ⟨_, hrun⟩

/-- A worker on its way back has taken nothing else. -/
def Idle (s : Returning κ) : Prop := ∀ k, s.holding k ≠ none → s.server.workers.state k = .waiting

theorem Idle.step {s t : Returning κ} {e : Event κ} (h : s.Idle)
    (hstep : Returning.step reserve handler s e = some t) : t.Idle := by
  rcases step_cases hstep with ⟨e', rfl, hserver, hpop, hholding⟩ | ⟨j, rfl, rfl⟩
  · obtain ⟨-, hsteps⟩ := Server.step_cases hserver
    have hsame : ∀ k, s.holding k ≠ none → t.server.workers.state k = .waiting :=
      fun k hk => hsteps.waiting (h k hk) fun heq => hk (hpop k heq)
    rcases hholding with heq | ⟨hup, j, uninitialised, timestamp, rfl, heq⟩
    · intro k hk
      rw [heq] at hk
      exact hsame k hk
    · intro k hk
      rw [heq] at hk
      by_cases hkj : k = j
      · subst hkj
        -- The service has answered, so worker `k` waits now.
        generalize t.server = server at hsteps hup
        cases hsteps with
        | handle => exact Function.update_self ..
        | throws => cases hup
      · rw [Function.update_of_ne hkj] at hk
        exact hsame k hk
  · intro k hk
    by_cases hkj : k = j
    · subst hkj
      exact absurd (Function.update_self ..) hk
    · simp only [Function.update_of_ne hkj] at hk
      exact h k hk

theorem idle_run {s : Returning κ} {es : List (Event κ)}
    (h : Trace.run (step reserve handler) init es = some s) : s.Idle :=
  run_invariant h (fun _ hk => absurd rfl hk) fun _ _ _ hs hstep => hs.step hstep

end Returning

/-! ## One owner -/

/-- Of a server that has run, in whatever order the events came: a worker that has taken a connection
and not begun to answer is the only one, holds no other, and the connection is not on the queue and has
no operation under way; the queue has no connection twice, and none with an operation under way; no
connection has two operations under way; and the pool has just those whose socket is open. -/
theorem one_owner {s : Returning κ} {es : List (Returning.Event κ)}
    (h : Trace.run (Returning.step reserve handler) Returning.init es = some s) :
    let server := s.server
    (∀ i k, server.workers.state k = .busy i → some i ∉ server.workers.queue ∧
        (∀ k', server.workers.state k' = .busy i → k' = k) ∧ s.holding k = none ∧
        ∃ c, server.connections i = some c ∧ c.ops = []) ∧
      (∀ i, server.workers.queue.count (some i) ≤ 1) ∧
      (∀ i, some i ∈ server.workers.queue → ∃ c, server.connections i = some c ∧ c.ops = []) ∧
      (∀ i c, server.connections i = some c → c.ops.length ≤ 1) ∧
      ∀ i, i ∈ server.pool ↔ ∃ c, server.connections i = some c ∧ c.closed = false := by
  intro server
  obtain ⟨es', hrun⟩ := Returning.run_server h
  have hplace : server.OnePlace := onePlace_run hrun
  have hheld : ∀ i, server.workers.held i ≤ 1 := by
    intro i
    have hi := hplace.places i
    unfold Server.places at hi
    omega
  have hidle : ∀ i, 0 < server.workers.held i → ∃ c, server.connections i = some c ∧ c.ops = [] := by
    intro i hpos
    have hi := hplace.places i
    unfold Server.places opCount at hi
    cases hc : server.connections i with
    | none =>
      have hzero := hplace.unheld i hc
      omega
    | some c =>
      refine ⟨c, rfl, List.eq_nil_of_length_eq_zero ?_⟩
      simp only [hc, Option.map_some, Option.getD_some] at hi
      omega
  refine ⟨fun i k hk => ?_, fun i => ?_, fun i hi => ?_, fun i c hc => ?_, hplace.pool⟩
  · obtain ⟨hqueue, hunique⟩ := Workers.busy_unique (hheld i) hk
    refine ⟨hqueue, hunique, ?_, hidle i (Workers.held_pos_of_busy hk)⟩
    by_contra hholding
    have hwaiting := Returning.idle_run h k hholding
    rw [hk] at hwaiting
    cases hwaiting
  · have hle := hheld i
    unfold Workers.held at hle
    omega
  · exact hidle i (Workers.held_pos_of_mem hi)
  · have hi := hplace.places i
    unfold Server.places opCount at hi
    simp only [hc, Option.map_some, Option.getD_some] at hi
    omega

/-- The second of two workers has taken a connection whose last answer the first has sent, and is not
back from. -/
theorem one_owner_busy :
    ∃ s : Returning (Fin 2),
      Trace.run (Returning.step (fun _ => true) fun _ _ => .ok (Response.new 404)) Returning.init
        [.event (.accept true), .event (.read 0 (ascii "GET / HTTP/1.1\r\n\r\n") []),
          .event (.pop 0), .event (.handle 0 0 []), .event (.written 0),
          .event (.read 0 (ascii "GET / HTTP/1.1\r\n\r\n") []), .event (.pop 1)] = some s ∧
      s.holding 0 = some 0 ∧ s.server.workers.state 1 = .busy 0 ∧
      ∀ k, s.server.workers.state k = .busy 0 → k = 1 := by
  obtain ⟨s, hs, hholding, hbusy⟩ : ∃ s : Returning (Fin 2),
      Trace.run (Returning.step (fun _ => true) fun _ _ => .ok (Response.new 404)) Returning.init
        [.event (.accept true), .event (.read 0 (ascii "GET / HTTP/1.1\r\n\r\n") []),
          .event (.pop 0), .event (.handle 0 0 []), .event (.written 0),
          .event (.read 0 (ascii "GET / HTTP/1.1\r\n\r\n") []), .event (.pop 1)] = some s ∧
      s.holding 0 = some 0 ∧ s.server.workers.state 1 = .busy 0 := ⟨_, rfl, rfl, rfl⟩
  exact ⟨s, hs, hholding, hbusy, ((one_owner hs).1 0 1 hbusy).2.1⟩

end Server

end FaceDetection.Webcc
