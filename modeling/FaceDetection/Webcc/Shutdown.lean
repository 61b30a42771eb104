import FaceDetection.Webcc.Places

/-!
# A signal stops the server

`Stop` empties the queue, puts a null connection on it and waits for the workers. Each of them takes the
null connection off and puts it back, so all of them end, whatever they were doing at the signal.
-/

open FaceDetection.Trace

namespace FaceDetection.Webcc.Server

variable {κ : Type} [DecidableEq κ] [Fintype κ] {reserve : Nat → Bool}
  {handler : Int → Request → Except Fault Response}

/-! ## The handlers of operations -/

/-- What the handler of a read or a write leaves as it is. -/
structure Handled (s t : Server κ) : Prop where
  acceptor_open : t.acceptor_open = s.acceptor_open
  awaiting : t.awaiting = s.awaiting
  accepted : t.accepted = s.accepted
  pool : t.pool ⊆ s.pool
  io : t.io = s.io ∨ t.io = .stuck
  workers : t.workers = s.workers ∨ ∃ i, t.workers = s.workers.push (some i)

omit [DecidableEq κ] [Fintype κ] in
theorem handled_onRead (s : Server κ) (i : Nat) (c : Connection) (data timestamp : Bytes) :
    s.Handled (s.onRead reserve i c data timestamp) := by
  unfold onRead
  simp only
  split
  · exact ⟨rfl, rfl, rfl, subset_rfl, Or.inl rfl, Or.inl rfl⟩
  · exact ⟨rfl, rfl, rfl, subset_rfl, Or.inl rfl, Or.inl rfl⟩
  · exact ⟨rfl, rfl, rfl, subset_rfl, Or.inl rfl, Or.inr ⟨i, rfl⟩⟩
  · exact ⟨rfl, rfl, rfl, subset_rfl, Or.inr rfl, Or.inl rfl⟩
  · exact ⟨rfl, rfl, rfl, subset_rfl, Or.inl rfl, Or.inl rfl⟩

omit [DecidableEq κ] [Fintype κ] in
theorem handled_onFailure (s : Server κ) (i : Nat) (c : Connection) (aborted : Bool) :
    s.Handled (s.onFailure i c aborted) := by
  unfold onFailure
  split
  · exact ⟨rfl, rfl, rfl, subset_rfl, Or.inl rfl, Or.inl rfl⟩
  · exact ⟨rfl, rfl, rfl, Finset.erase_subset _ _, Or.inl rfl, Or.inl rfl⟩

omit [DecidableEq κ] [Fintype κ] in
theorem handled_onWrite (s : Server κ) (i : Nat) (c : Connection) : s.Handled (s.onWrite i c) := by
  unfold onWrite
  split
  · exact ⟨rfl, rfl, rfl, subset_rfl, Or.inl rfl, Or.inl rfl⟩
  · exact ⟨rfl, rfl, rfl, Finset.erase_subset _ _, Or.inl rfl, Or.inl rfl⟩

/-! ## Before, in and after `Stop` -/

/-- `Stop` has returned: what is left is a queue that nobody reads. -/
structure Stopped (s : Server κ) : Prop where
  awaiting : s.awaiting = false
  io : s.io ≠ .joining
  workers : ∀ k, s.workers.state k = .stopped
  queue : ∃ rest, s.workers.queue = none :: rest
  pool : s.pool = ∅

structure Phases (s : Server κ) : Prop where
  acceptor : s.acceptor_open = s.awaiting
  before : s.awaiting = true → s.io ≠ .joining ∧ s.workers.Running
  joining : s.io = .joining → s.awaiting = false ∧ s.workers.Stopping
  after : s.awaiting = false → s.io ≠ .joining → s.Stopped

omit [DecidableEq κ] in
theorem Phases.of_running {s : Server κ} (hawaiting : s.awaiting = true)
    (hacceptor : s.acceptor_open = true) (hio : s.io ≠ .joining) (hrunning : s.workers.Running) :
    s.Phases :=
  ⟨hacceptor.trans hawaiting.symm, fun _ => ⟨hio, hrunning⟩, fun h => absurd h hio,
    fun h => absurd (hawaiting.symm.trans h) (by simp)⟩

omit [DecidableEq κ] in
theorem Phases.of_joining {s : Server κ} (hio : s.io = .joining) (hawaiting : s.awaiting = false)
    (hacceptor : s.acceptor_open = false) (hstopping : s.workers.Stopping) : s.Phases :=
  ⟨hacceptor.trans hawaiting.symm, fun h => absurd (hawaiting.symm.trans h) (by simp),
    fun _ => ⟨hawaiting, hstopping⟩, fun _ h => absurd hio h⟩

omit [DecidableEq κ] in
theorem Phases.of_stopped {s : Server κ} (hs : s.Stopped) (hacceptor : s.acceptor_open = false) :
    s.Phases :=
  ⟨hacceptor.trans hs.awaiting.symm, fun h => absurd (hs.awaiting.symm.trans h) (by simp),
    fun h => absurd h hs.io, fun _ _ => hs⟩

/-- The server while `Stop` waits: only a worker can do something, or `Stop` returns. -/
theorem joining_step {s t : Server κ} {e : Event κ} (hio : s.io = .joining)
    (h : step reserve handler s e = some t) :
    (∃ k, s.workers.act k = some t.workers ∧ t.io = .joining ∧ t.awaiting = s.awaiting ∧
        t.acceptor_open = s.acceptor_open ∧ t.accepted = s.accepted ∧ t.down = s.down) ∨
      t = s.afterStop ∧ (∀ k, s.workers.state k = .stopped) ∨
      t = { s with down := true } ∧ ∃ u request e, handler u request = .error e := by
  obtain ⟨-, hsteps⟩ := step_cases h
  cases hsteps with
  | accept hrunning => rw [hio] at hrunning; cases hrunning
  | read hrunning => rw [hio] at hrunning; cases hrunning
  | readFailed hrunning => rw [hio] at hrunning; cases hrunning
  | written hrunning => rw [hio] at hrunning; cases hrunning
  | writeFailed hrunning => rw [hio] at hrunning; cases hrunning
  | signal hrunning => rw [hio] at hrunning; cases hrunning
  | stopped _ hall => exact Or.inr (Or.inl ⟨rfl, hall⟩)
  | @pop k w hw =>
    refine Or.inl ⟨k, ?_, hio, rfl, rfl, rfl, rfl⟩
    rw [Workers.act, (Workers.pop_eq hw).1]
    exact hw
  | @handle k i c uninitialised timestamp response hk hc hresponse =>
    refine Or.inl ⟨k, ?_, hio, rfl, rfl, rfl, rfl⟩
    rw [Workers.act, hk]
    rfl
  | throws _ _ he => exact Or.inr (Or.inr ⟨rfl, _, _, _, he⟩)
  | @leave k w hw =>
    refine Or.inl ⟨k, ?_, hio, rfl, rfl, rfl, rfl⟩
    rw [Workers.act, (Workers.leave_eq hw).1]
    exact hw

omit [DecidableEq κ] [Fintype κ] in
theorem Handled.stopped {s t : Server κ} (h : s.Handled t) (hs : s.Stopped) : t.Stopped := by
  obtain ⟨hawaiting, hio, hworkers, ⟨rest, hqueue⟩, hpool⟩ := hs
  refine ⟨h.awaiting.trans hawaiting, ?_, ?_, ?_, ?_⟩
  · rcases h.io with heq | heq <;> rw [heq]
    · exact hio
    · simp
  · rcases h.workers with heq | ⟨i, heq⟩ <;> rw [heq] <;> exact hworkers
  · rcases h.workers with heq | ⟨i, heq⟩
    · exact ⟨rest, heq ▸ hqueue⟩
    · refine ⟨rest ++ [some i], ?_⟩
      rw [heq, Workers.push, hqueue, List.cons_append]
  · exact Finset.subset_empty.mp (hpool ▸ h.pool)

/-- The server behind `Stop`: no worker takes anything, and no connection opens. -/
theorem stopped_step {s t : Server κ} {e : Event κ} (hs : s.Stopped)
    (hacceptor : s.acceptor_open = false) (h : step reserve handler s e = some t) :
    t.Stopped ∧ t.acceptor_open = false ∧ t.accepted = s.accepted := by
  have hhandled : ∀ u : Server κ, s.Handled u →
      u.Stopped ∧ u.acceptor_open = false ∧ u.accepted = s.accepted :=
    fun u hu => ⟨hu.stopped hs, hu.acceptor_open.trans hacceptor, hu.accepted⟩
  obtain ⟨-, hsteps⟩ := step_cases h
  cases hsteps with
  | accept =>
    unfold onAccept
    rw [if_pos hacceptor]
    exact ⟨⟨hs.awaiting, hs.io, hs.workers, hs.queue, hs.pool⟩, hacceptor, rfl⟩
  | read => exact hhandled _ (handled_onRead ..)
  | readFailed => exact hhandled _ (handled_onFailure ..)
  | written => exact hhandled _ (handled_onWrite ..)
  | writeFailed => exact hhandled _ (handled_onFailure ..)
  | signal _ htrue =>
    rw [hs.awaiting] at htrue
    cases htrue
  | stopped hjoining => exact absurd hjoining hs.io
  | @pop k w hw =>
    have hwaiting := (Workers.pop_eq hw).1
    rw [hs.workers k] at hwaiting
    cases hwaiting
  | @handle k i c uninitialised timestamp response hk =>
    rw [hs.workers k] at hk
    cases hk
  | throws => exact ⟨⟨hs.awaiting, hs.io, hs.workers, hs.queue, hs.pool⟩, hacceptor, rfl⟩
  | @leave k w hw =>
    have hleaving := (Workers.leave_eq hw).1
    rw [hs.workers k] at hleaving
    cases hleaving

theorem stopped_afterStop {s : Server κ} (hs : s.Phases) (hio : s.io = .joining)
    (hall : ∀ k, s.workers.state k = .stopped) : s.afterStop.Stopped := by
  obtain ⟨hawaiting, hstopping⟩ := hs.joining hio
  have hend : ∀ k, s.workers.act k = none := by
    intro k
    unfold Workers.act
    rw [hall k]
  exact ⟨hawaiting, by simp [afterStop], hall, ⟨[], (hstopping.all_stopped hend).2⟩, rfl⟩

omit [DecidableEq κ] in
theorem Handled.running {s t : Server κ} (h : s.Handled t) (hio : s.io ≠ .joining)
    (hawaiting : s.awaiting = true) (hacceptor : s.acceptor_open = true)
    (hrunning : s.workers.Running) : t.Phases := by
  apply Phases.of_running (h.awaiting.trans hawaiting) (h.acceptor_open.trans hacceptor)
  · rcases h.io with heq | heq <;> rw [heq]
    · exact hio
    · simp
  · rcases h.workers with heq | ⟨i, heq⟩ <;> rw [heq]
    · exact hrunning
    · exact hrunning.push i

/-- The step lemma. -/
theorem Phases.step {s t : Server κ} {e : Event κ} (hs : s.Phases)
    (h : Server.step reserve handler s e = some t) : t.Phases := by
  by_cases hio : s.io = .joining
  · obtain ⟨hawaiting, hstopping⟩ := hs.joining hio
    have hclosed := hs.acceptor.trans hawaiting
    rcases joining_step hio h with ⟨k, hact, hio', hawaiting', hacceptor', -, -⟩ | ⟨rfl, hall⟩ | ⟨rfl, -⟩
    · exact .of_joining hio' (hawaiting'.trans hawaiting) (hacceptor'.trans hclosed)
        (hstopping.act hact).1
    · exact .of_stopped (stopped_afterStop hs hio hall) hclosed
    · exact .of_joining hio hawaiting hclosed hstopping
  cases hawaiting : s.awaiting with
  | false =>
    obtain ⟨hstopped, hclosed, -⟩ :=
      stopped_step (hs.after hawaiting hio) (hs.acceptor.trans hawaiting) h
    exact .of_stopped hstopped hclosed
  | true =>
    have hopen := hs.acceptor.trans hawaiting
    have hrunning := (hs.before hawaiting).2
    have hhandled : ∀ u : Server κ, s.Handled u → u.Phases :=
      fun u hu => hu.running hio hawaiting hopen hrunning
    obtain ⟨-, hsteps⟩ := step_cases h
    cases hsteps with
    | accept =>
      unfold onAccept
      rw [if_neg (by simp [hopen])]
      split
      · exact .of_running hawaiting hopen hio hrunning
      · exact .of_running hawaiting hopen hio hrunning
    | read => exact hhandled _ (handled_onRead ..)
    | readFailed => exact hhandled _ (handled_onFailure ..)
    | written => exact hhandled _ (handled_onWrite ..)
    | writeFailed => exact hhandled _ (handled_onFailure ..)
    | signal => exact .of_joining rfl rfl rfl (Workers.stopping_clear hrunning)
    | stopped hjoining => exact absurd hjoining hio
    | pop hw => exact .of_running hawaiting hopen hio (hrunning.pop hw)
    | handle hk => exact .of_running hawaiting hopen hio (hrunning.finish _)
    | throws => exact .of_running hawaiting hopen hio hrunning
    | @leave k w hw =>
      have hleaving := (Workers.leave_eq hw).1
      rcases hrunning.2 k with hk | ⟨i, hk⟩ <;> rw [hk] at hleaving <;> cases hleaving

theorem phases_run {s : Server κ} {es : List (Event κ)}
    (h : Trace.run (step reserve handler) init es = some s) : s.Phases := by
  apply run_invariant h
  · exact .of_running rfl rfl (by simp [init]) ⟨rfl, fun _ => Or.inl rfl⟩
  · exact fun _ _ _ hs hstep => hs.step hstep

/-! ## From the signal on -/

/-- Behind a signal no worker takes a connection, and none is accepted. -/
theorem ending_step {s t : Server κ} {e : Event κ} (hs : s.Phases) (hawaiting : s.awaiting = false)
    (h : step reserve handler s e = some t) :
    t.awaiting = false ∧ t.accepted = s.accepted ∧
      ∀ k i, t.workers.state k = .busy i → s.workers.state k = .busy i := by
  by_cases hio : s.io = .joining
  · have hstopping := (hs.joining hio).2
    rcases joining_step hio h with ⟨k, hact, -, hsame, -, haccepted, -⟩ | ⟨rfl, -⟩ | ⟨rfl, -⟩
    · exact ⟨hsame.trans hawaiting, haccepted, fun _ _ hj => hstopping.busy_of_act hact hj⟩
    · exact ⟨hawaiting, rfl, fun _ _ hj => hj⟩
    · exact ⟨hawaiting, rfl, fun _ _ hj => hj⟩
  · obtain ⟨hstopped, -, haccepted⟩ :=
      stopped_step (hs.after hawaiting hio) (hs.acceptor.trans hawaiting) h
    refine ⟨hstopped.awaiting, haccepted, fun k i hk => ?_⟩
    rw [hstopped.workers k] at hk
    cases hk

/-- The steps while `Stop` waits are counted by what the workers still have to do. -/
theorem joining_run (hhandler : ∀ u request, ∃ response, handler u request = .ok response)
    {s t : Server κ} {es : List (Event κ)} (hs : s.Phases) (hio : s.io = .joining)
    (hdown : s.down = false) (h : Trace.run (step reserve handler) s es = some t)
    (ht : t.io = .joining) : t.down = false ∧ es.length + t.workers.work ≤ s.workers.work := by
  induction es generalizing s with
  | nil =>
    rw [run_nil h]
    exact ⟨hdown, by simp⟩
  | cons e es ih =>
    obtain ⟨u, hstep, hrun⟩ := run_cons h
    obtain ⟨hawaiting, hstopping⟩ := hs.joining hio
    rcases joining_step hio hstep with
      ⟨k, hact, hio', -, -, -, hdown'⟩ | ⟨rfl, hall⟩ | ⟨-, n, request, e, he⟩
    · obtain ⟨hdown'', hle⟩ := ih (hs.step hstep) hio' (hdown'.trans hdown) hrun
      have hless := (hstopping.act hact).2
      rw [List.length_cons]
      exact ⟨hdown'', by omega⟩
    · -- Once `Stop` has returned it is not called again.
      have hclosed := hs.acceptor.trans hawaiting
      have hstopped := run_invariant (P := fun s => s.Stopped ∧ s.acceptor_open = false) hrun
        ⟨stopped_afterStop hs hio hall, hclosed⟩ fun _ _ _ hP hnext =>
          ⟨(stopped_step hP.1 hP.2 hnext).1, (stopped_step hP.1 hP.2 hnext).2.1⟩
      exact absurd ht hstopped.1.io
    · obtain ⟨response, hresponse⟩ := hhandler n request
      rw [he] at hresponse
      cases hresponse

/-- While `Stop` waits, a worker can take a step, or `Stop` can return. -/
theorem joining_progress (hhandler : ∀ u request, ∃ response, handler u request = .ok response)
    {s : Server κ} (hs : s.Phases) (hplace : s.OnePlace) (hio : s.io = .joining)
    (hdown : s.down = false) : ∃ e t, step reserve handler s e = some t := by
  have hstopping := (hs.joining hio).2
  by_cases hall : ∀ k, s.workers.state k = .stopped
  · refine ⟨.stopped, s.afterStop, ?_⟩
    rw [step.eq_def, if_neg (by simp [hdown])]
    exact if_pos ⟨hio, hall⟩
  rw [not_forall] at hall
  obtain ⟨k, hk⟩ := hall
  obtain ⟨j, w, hact⟩ := hstopping.progress hk
  unfold Workers.act at hact
  cases hj : s.workers.state j with
  | waiting =>
    rw [hj] at hact
    refine ⟨.pop j, { s with workers := w }, ?_⟩
    rw [step.eq_def, if_neg (by simp [hdown])]
    simp only [hact, Option.map_some]
  | busy i =>
    have hconnection : s.connections i ≠ none := by
      intro hnone
      have hpos := Workers.held_pos_of_busy hj
      rw [hplace.unheld i hnone] at hpos
      omega
    obtain ⟨c, hc⟩ := Option.ne_none_iff_exists'.mp hconnection
    obtain ⟨response, hresponse⟩ := hhandler 0 c.request
    refine ⟨.handle j 0 [], { s with workers := s.workers.finish j }.setConnection i
      (c.sendResponse [] response), ?_⟩
    rw [step.eq_def, if_neg (by simp [hdown])]
    simp only [hj, onHandle, hc, hresponse]
  | leaving =>
    rw [hj] at hact
    refine ⟨.leave j, { s with workers := w }, ?_⟩
    rw [step.eq_def, if_neg (by simp [hdown])]
    simp only [hact, Option.map_some]
  | stopped =>
    rw [hj] at hact
    cases hact

/-- A signal stops a server whose service does not throw. While `Stop` waits, something can happen; it
waits for three steps of each worker at most; and when it has returned, every worker has ended and every
connection is closed. From the signal on no worker takes a connection and none is accepted. -/
theorem signal_stops (hhandler : ∀ u request, ∃ response, handler u request = .ok response)
    {s : Server κ} {es : List (Event κ)} (h : Trace.run (step reserve handler) init es = some s)
    (hio : s.io = .joining) (hdown : s.down = false) {t : Server κ} {fs : List (Event κ)}
    (hrun : Trace.run (step reserve handler) s fs = some t) :
    (t.io = .joining → fs.length ≤ 3 * Fintype.card κ ∧
        ∃ e u, step reserve handler t e = some u) ∧
      (t.io ≠ .joining → (∀ k, t.workers.state k = .stopped) ∧
        ∀ i c, t.connections i = some c → c.closed = true) ∧
      t.accepted = s.accepted ∧
      ∀ k i, t.workers.state k = .busy i → s.workers.state k = .busy i := by
  have hs := phases_run h
  have hplace : t.OnePlace := onePlace_run ((run_append h fs).trans hrun)
  have hending := run_invariant
    (P := fun t => t.Phases ∧ t.awaiting = false ∧ t.accepted = s.accepted ∧
      ∀ k i, t.workers.state k = .busy i → s.workers.state k = .busy i) hrun
    ⟨hs, (hs.joining hio).1, rfl, fun _ _ hk => hk⟩ (by
      rintro u e v ⟨hu, hawaiting, haccepted, hbusy⟩ hstep
      obtain ⟨hawaiting', haccepted', hbusy'⟩ := ending_step hu hawaiting hstep
      exact ⟨hu.step hstep, hawaiting', haccepted'.trans haccepted, fun k i hk =>
        hbusy k i (hbusy' k i hk)⟩)
  obtain ⟨ht, hawaiting, haccepted, hbusy⟩ := hending
  refine ⟨fun hjoin => ?_, fun hjoin => ?_, haccepted, hbusy⟩
  · obtain ⟨hdown', hle⟩ := joining_run hhandler hs hio hdown hrun hjoin
    refine ⟨?_, ?_⟩
    · have := Workers.work_le s.workers
      omega
    · exact joining_progress hhandler ht hplace hjoin hdown'
  · have hstopped := ht.after hawaiting hjoin
    refine ⟨hstopped.workers, fun i c hc => ?_⟩
    by_contra hopen
    have hpool := (hplace.pool i).mpr ⟨c, hc, by simpa using hopen⟩
    rw [hstopped.pool] at hpool
    cases hpool

/-- Two workers, one after the other. -/
theorem signal_stops_two :
    ∃ t : Server (Fin 2), Trace.run (step (fun _ => true) fun _ _ => .ok (Response.new 404)) init
        [.accept true, .signal, .pop 1, .leave 1, .pop 0, .leave 0, .stopped] = some t ∧
      ∀ i c, t.connections i = some c → c.closed = true := by
  obtain ⟨s, hs, hio, hdown⟩ : ∃ s : Server (Fin 2),
      Trace.run (step (fun _ => true) fun _ _ => .ok (Response.new 404)) init
        [.accept true, .signal] = some s ∧ s.io = .joining ∧ s.down = false := ⟨_, rfl, rfl, rfl⟩
  obtain ⟨t, ht, hrunning⟩ : ∃ t : Server (Fin 2),
      Trace.run (step (fun _ => true) fun _ _ => .ok (Response.new 404)) s
        [.pop 1, .leave 1, .pop 0, .leave 0, .stopped] = some t ∧ t.io = .running := by
    cases hs
    exact ⟨_, rfl, rfl⟩
  have hstops := signal_stops (fun _ _ => ⟨_, rfl⟩) hs hio hdown ht
  refine ⟨t, ?_, (hstops.2.1 (by simp [hrunning])).2⟩
  rw [← ht, ← run_append hs]
  rfl

end FaceDetection.Webcc.Server
