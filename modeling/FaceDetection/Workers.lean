import Mathlib

/-!
# Workers at a queue

Any number of workers take items off one queue. A null item stops them: who takes it puts it back for
the next and ends. `held i` says in how many places an item is, and `pills` in how many places the null
item is. A worker between its take of the null item and its return of it is `leaving`.
-/

namespace FaceDetection

inductive Worker (ι : Type) where
  | waiting
  | busy (i : ι)
  | leaving
  | stopped
  deriving DecidableEq

structure Workers (ι κ : Type) where
  queue : List (Option ι)
  state : κ → Worker ι

namespace Workers

variable {ι κ : Type} [DecidableEq ι] [DecidableEq κ]

def push (x : Option ι) (w : Workers ι κ) : Workers ι κ := { w with queue := w.queue ++ [x] }

def clear (w : Workers ι κ) : Workers ι κ := { w with queue := [] }

def setState (w : Workers ι κ) (k : κ) (x : Worker ι) : Workers ι κ :=
  { w with state := Function.update w.state k x }

/-- `none` when worker `k` cannot take anything. -/
def pop (w : Workers ι κ) (k : κ) : Option (Workers ι κ) :=
  if w.state k = .waiting then
    match w.queue with
    | [] => none
    | none :: queue => some ({ w with queue := queue }.setState k .leaving)
    | some i :: queue => some ({ w with queue := queue }.setState k (.busy i))
  else none

/-- Worker `k` has done what it took. -/
def finish (w : Workers ι κ) (k : κ) : Workers ι κ := w.setState k .waiting

def leave (w : Workers ι κ) (k : κ) : Option (Workers ι κ) :=
  if w.state k = .leaving then some ((w.setState k .stopped).push none) else none

/-- Whatever worker `k` does next. -/
def act (w : Workers ι κ) (k : κ) : Option (Workers ι κ) :=
  match w.state k with
  | .waiting => w.pop k
  | .busy _ => some (w.finish k)
  | .leaving => w.leave k
  | .stopped => none

/-! ## Sums over the workers -/

section Sums

variable [Fintype κ]

def total (f : Worker ι → Nat) (w : Workers ι κ) : Nat := ∑ k, f (w.state k)

omit [DecidableEq ι] in
theorem total_setState (f : Worker ι → Nat) (w : Workers ι κ) (k : κ) (x : Worker ι) :
    (w.setState k x).total f + f (w.state k) = w.total f + f x := by
  have hrest : ∑ j ∈ Finset.univ.erase k, f (Function.update w.state k x j) =
      ∑ j ∈ Finset.univ.erase k, f (w.state j) := by
    apply Finset.sum_congr rfl
    intro j hj
    rw [Function.update_of_ne (Finset.ne_of_mem_erase hj)]
  have hbefore := Finset.add_sum_erase Finset.univ (fun j => f (w.state j)) (Finset.mem_univ k)
  have hafter := Finset.add_sum_erase Finset.univ (fun j => f (Function.update w.state k x j))
    (Finset.mem_univ k)
  simp only [Function.update_self, hrest] at hafter hbefore
  simp only [total, setState]
  omega

omit [DecidableEq ι] [DecidableEq κ] in
theorem le_total (f : Worker ι → Nat) (w : Workers ι κ) (k : κ) : f (w.state k) ≤ w.total f :=
  Finset.single_le_sum (f := fun j => f (w.state j)) (fun _ _ => Nat.zero_le _) (Finset.mem_univ k)

def isBusy (i : ι) (x : Worker ι) : Nat := if x = .busy i then 1 else 0

def isLeaving : Worker ι → Nat
  | .leaving => 1
  | .waiting | .busy _ | .stopped => 0

def rank : Worker ι → Nat
  | .busy _ => 3
  | .waiting => 2
  | .leaving => 1
  | .stopped => 0

/-- In how many places an item is. -/
def held (i : ι) (w : Workers ι κ) : Nat := w.queue.count (some i) + w.total (isBusy i)

/-- In how many places the null item is. -/
def pills (w : Workers ι κ) : Nat := w.queue.count none + w.total isLeaving

/-- How many steps the workers can still take when no item comes. -/
def work (w : Workers ι κ) : Nat := w.total rank

/-! ### Each operation -/

omit [Fintype κ] in
theorem pop_eq {w w' : Workers ι κ} {k : κ} (h : w.pop k = some w') :
    w.state k = .waiting ∧ ∃ x queue, w.queue = x :: queue ∧
      w' = { w.setState k (x.elim .leaving .busy) with queue := queue } := by
  unfold pop at h
  split_ifs at h with hwaiting
  refine ⟨hwaiting, ?_⟩
  cases hqueue : w.queue with
  | nil =>
    rw [hqueue] at h
    cases h
  | cons x queue =>
    rw [hqueue] at h
    cases x <;> cases h <;> exact ⟨_, queue, rfl, rfl⟩

omit [Fintype κ] in
theorem leave_eq {w w' : Workers ι κ} {k : κ} (h : w.leave k = some w') :
    w.state k = .leaving ∧
      w' = { w.setState k .stopped with queue := w.queue ++ [none] } := by
  unfold leave at h
  split_ifs at h with hleaving
  cases h
  exact ⟨hleaving, rfl⟩

/-- What is taken off the queue is with the worker. -/
theorem held_pop {w w' : Workers ι κ} {k : κ} (h : w.pop k = some w') (i : ι) :
    w'.held i = w.held i := by
  obtain ⟨hwaiting, x, queue, hqueue, rfl⟩ := pop_eq h
  have htotal := total_setState (isBusy i) w k (x.elim .leaving .busy)
  have hbefore : isBusy i (w.state k) = 0 := by simp [hwaiting, isBusy]
  have hafter : isBusy i (x.elim .leaving .busy) = if x = some i then 1 else 0 := by
    cases x <;> simp [isBusy]
  have hcount : w.queue.count (some i) = queue.count (some i) + if x = some i then 1 else 0 := by
    rw [hqueue, List.count_cons]
    simp
  unfold held
  rw [hcount]
  change queue.count (some i) + (w.setState k (x.elim .leaving .busy)).total (isBusy i) = _
  omega

theorem pills_pop {w w' : Workers ι κ} {k : κ} (h : w.pop k = some w') : w'.pills = w.pills := by
  obtain ⟨hwaiting, x, queue, hqueue, rfl⟩ := pop_eq h
  have htotal := total_setState isLeaving w k (x.elim .leaving .busy)
  have hbefore : isLeaving (w.state k) = 0 := by simp [hwaiting, isLeaving]
  have hafter : isLeaving (x.elim .leaving .busy) = if x = none then 1 else 0 := by
    cases x <;> simp [isLeaving]
  have hcount : w.queue.count none = queue.count none + if x = none then 1 else 0 := by
    rw [hqueue, List.count_cons]
    simp
  unfold pills
  rw [hcount]
  change queue.count none + (w.setState k (x.elim .leaving .busy)).total isLeaving = _
  omega

theorem work_pop {w w' : Workers ι κ} {k : κ} (h : w.pop k = some w') (hnone : ∀ x ∈ w.queue, x = none) :
    w'.work < w.work := by
  obtain ⟨hwaiting, x, queue, hqueue, rfl⟩ := pop_eq h
  have hx : x = none := hnone x (by rw [hqueue]; exact List.mem_cons_self)
  have htotal := total_setState rank w k .leaving
  rw [hwaiting, rank, rank] at htotal
  rw [hx]
  change (w.setState k .leaving).total rank < w.total rank
  omega

omit [DecidableEq κ] in
theorem held_push (w : Workers ι κ) (x : Option ι) (i : ι) :
    (w.push x).held i = w.held i + if x = some i then 1 else 0 := by
  simp only [held, push, List.count_append, List.count_singleton, beq_iff_eq]
  change _ + w.total (isBusy i) = _
  omega

omit [DecidableEq κ] in
theorem pills_push (w : Workers ι κ) (x : Option ι) :
    (w.push x).pills = w.pills + if x = none then 1 else 0 := by
  simp only [pills, push, List.count_append, List.count_singleton, beq_iff_eq]
  change _ + w.total isLeaving = _
  omega

theorem held_finish {w : Workers ι κ} {k : κ} {j : ι} (h : w.state k = .busy j) (i : ι) :
    (w.finish k).held i + (if j = i then 1 else 0) = w.held i := by
  have htotal := total_setState (isBusy i) w k .waiting
  have hbefore : isBusy i (w.state k) = if j = i then 1 else 0 := by simp [h, isBusy]
  have hafter : isBusy i (.waiting : Worker ι) = 0 := by simp [isBusy]
  change w.queue.count (some i) + (w.setState k .waiting).total (isBusy i) + _ =
    w.queue.count (some i) + w.total (isBusy i)
  omega

theorem pills_finish {w : Workers ι κ} {k : κ} {j : ι} (h : w.state k = .busy j) :
    (w.finish k).pills = w.pills := by
  have htotal := total_setState isLeaving w k .waiting
  rw [h, isLeaving, isLeaving] at htotal
  change w.queue.count none + (w.setState k .waiting).total isLeaving =
    w.queue.count none + w.total isLeaving
  omega

omit [DecidableEq ι] in
theorem work_finish {w : Workers ι κ} {k : κ} {j : ι} (h : w.state k = .busy j) :
    (w.finish k).work < w.work := by
  have htotal := total_setState rank w k .waiting
  rw [h, rank, rank] at htotal
  change (w.setState k .waiting).total rank < w.total rank
  omega

theorem held_leave {w w' : Workers ι κ} {k : κ} (h : w.leave k = some w') (i : ι) :
    w'.held i = w.held i := by
  obtain ⟨hleaving, rfl⟩ := leave_eq h
  have htotal := total_setState (isBusy i) w k .stopped
  have hbefore : isBusy i (w.state k) = 0 := by simp [hleaving, isBusy]
  have hafter : isBusy i (.stopped : Worker ι) = 0 := by simp [isBusy]
  simp only [held, List.count_append, List.count_singleton]
  change w.queue.count (some i) + 0 + (w.setState k .stopped).total (isBusy i) = _
  omega

theorem pills_leave {w w' : Workers ι κ} {k : κ} (h : w.leave k = some w') : w'.pills = w.pills := by
  obtain ⟨hleaving, rfl⟩ := leave_eq h
  have htotal := total_setState isLeaving w k .stopped
  rw [hleaving, isLeaving, isLeaving] at htotal
  simp only [pills, List.count_append, List.count_singleton]
  change w.queue.count none + 1 + (w.setState k .stopped).total isLeaving = _
  omega

theorem work_leave {w w' : Workers ι κ} {k : κ} (h : w.leave k = some w') : w'.work < w.work := by
  obtain ⟨hleaving, rfl⟩ := leave_eq h
  have htotal := total_setState rank w k .stopped
  rw [hleaving, rank, rank] at htotal
  change (w.setState k .stopped).total rank < w.total rank
  omega

omit [DecidableEq κ] in
theorem held_clear_le (w : Workers ι κ) (i : ι) : w.clear.held i ≤ w.held i := by
  change 0 + w.total (isBusy i) ≤ w.queue.count (some i) + w.total (isBusy i)
  omega

omit [DecidableEq κ] in
theorem held_pos_of_busy {w : Workers ι κ} {k : κ} {i : ι} (h : w.state k = .busy i) :
    0 < w.held i := by
  have hle := le_total (isBusy i) w k
  rw [h, isBusy, if_pos rfl] at hle
  unfold held
  omega

omit [DecidableEq κ] in
theorem held_pos_of_mem {w : Workers ι κ} {i : ι} (h : some i ∈ w.queue) : 0 < w.held i := by
  have hpos := List.count_pos_iff.mpr h
  unfold held
  omega

/-- An item in one place is with one worker at most, and then not on the queue. -/
theorem busy_unique {w : Workers ι κ} {k : κ} {i : ι} (hheld : w.held i ≤ 1)
    (h : w.state k = .busy i) : some i ∉ w.queue ∧ ∀ k', w.state k' = .busy i → k' = k := by
  -- Without worker `k` the item would be nowhere.
  have hfinish := held_finish h i
  rw [if_pos rfl] at hfinish
  constructor
  · intro hmem
    have hpos : 0 < (w.finish k).held i := held_pos_of_mem hmem
    omega
  · intro k' hk'
    by_contra hne
    have hstate : (w.finish k).state k' = .busy i := by
      rw [← hk']
      exact Function.update_of_ne hne ..
    have hpos := held_pos_of_busy hstate
    omega

/-! ## The null item -/

/-- The null item is in one place, and no other is on the queue. -/
structure Stopping (w : Workers ι κ) : Prop where
  pill : w.pills = 1
  queue : ∀ x ∈ w.queue, x = none

/-- No worker has seen the null item. -/
def Running (w : Workers ι κ) : Prop :=
  w.queue.count none = 0 ∧ ∀ k, w.state k = .waiting ∨ ∃ i, w.state k = .busy i

omit [DecidableEq κ] in
theorem stopping_clear {w : Workers ι κ} (h : w.Running) : (w.clear.push none).Stopping := by
  have hleaving : w.total isLeaving = 0 := by
    apply Finset.sum_eq_zero
    intro k _
    rcases h.2 k with hk | ⟨i, hk⟩ <;> rw [hk] <;> rfl
  constructor
  · rw [pills_push, if_pos rfl]
    change 0 + w.total isLeaving + 1 = 1
    omega
  · intro x hx
    exact List.mem_singleton.mp hx

omit [DecidableEq κ] [Fintype κ] in
theorem Running.push {w : Workers ι κ} (h : w.Running) (i : ι) : (w.push (some i)).Running := by
  refine ⟨?_, h.2⟩
  simp [Workers.push, List.count_append, h.1]

omit [Fintype κ] in
theorem Running.finish {w : Workers ι κ} (h : w.Running) (k : κ) : (w.finish k).Running := by
  refine ⟨h.1, fun j => ?_⟩
  by_cases hj : j = k
  · subst hj
    exact Or.inl (Function.update_self ..)
  · have hsame : (w.finish k).state j = w.state j := Function.update_of_ne hj ..
    rw [hsame]
    exact h.2 j

omit [Fintype κ] in
theorem Running.pop {w w' : Workers ι κ} (h : w.Running) {k : κ} (hpop : w.pop k = some w') :
    w'.Running := by
  obtain ⟨-, x, queue, hqueue, rfl⟩ := pop_eq hpop
  obtain ⟨hcount, hstate⟩ := h
  rw [hqueue, List.count_cons] at hcount
  cases x with
  | none => simp at hcount
  | some i =>
    refine ⟨by simpa using hcount, fun j => ?_⟩
    by_cases hj : j = k
    · subst hj
      exact Or.inr ⟨i, Function.update_self ..⟩
    · have hsame : ({ w.setState k ((some i).elim .leaving .busy) with queue := queue } :
          Workers ι κ).state j = w.state j := Function.update_of_ne hj ..
      rw [hsame]
      exact hstate j

/-- The step lemma: while the workers stop, each of their steps brings them closer to it. -/
theorem Stopping.act {w w' : Workers ι κ} (h : w.Stopping) {k : κ} (hact : w.act k = some w') :
    w'.Stopping ∧ w'.work < w.work := by
  unfold Workers.act at hact
  cases hk : w.state k with
  | waiting =>
    rw [hk] at hact
    refine ⟨⟨(pills_pop hact).trans h.pill, ?_⟩, work_pop hact h.queue⟩
    obtain ⟨-, x, queue, hqueue, rfl⟩ := pop_eq hact
    intro y hy
    exact h.queue y (by rw [hqueue]; exact List.mem_cons_of_mem x hy)
  | busy i =>
    rw [hk] at hact
    cases hact
    exact ⟨⟨(pills_finish hk).trans h.pill, h.queue⟩, work_finish hk⟩
  | leaving =>
    rw [hk] at hact
    refine ⟨⟨(pills_leave hact).trans h.pill, ?_⟩, work_leave hact⟩
    obtain ⟨-, rfl⟩ := leave_eq hact
    intro y hy
    rcases List.mem_append.mp hy with hy | hy
    · exact h.queue y hy
    · exact List.mem_singleton.mp hy
  | stopped =>
    rw [hk] at hact
    cases hact

/-- While the workers stop, no item is taken. -/
theorem Stopping.busy_of_act {w w' : Workers ι κ} (h : w.Stopping) {k j : κ} {i : ι}
    (hact : w.act k = some w') (hj : w'.state j = .busy i) : w.state j = .busy i := by
  have hset : ∃ x, (∀ i, x ≠ .busy i) ∧ w'.state = Function.update w.state k x := by
    unfold Workers.act at hact
    cases hk : w.state k with
    | waiting =>
      rw [hk] at hact
      obtain ⟨-, x, queue, hqueue, rfl⟩ := pop_eq hact
      have hx : x = none := h.queue x (by rw [hqueue]; exact List.mem_cons_self)
      subst hx
      exact ⟨.leaving, by simp, rfl⟩
    | busy i =>
      rw [hk] at hact
      cases hact
      exact ⟨.waiting, by simp, rfl⟩
    | leaving =>
      rw [hk] at hact
      obtain ⟨-, rfl⟩ := leave_eq hact
      exact ⟨.stopped, by simp, rfl⟩
    | stopped =>
      rw [hk] at hact
      cases hact
  obtain ⟨x, hx, hstate⟩ := hset
  rw [hstate] at hj
  by_cases hjk : j = k
  · subst hjk
    rw [Function.update_self] at hj
    exact absurd hj (hx i)
  · rwa [Function.update_of_ne hjk] at hj

/-- While a worker has not stopped, some worker can take a step. -/
theorem Stopping.progress {w : Workers ι κ} (h : w.Stopping) {k : κ} (hk : w.state k ≠ .stopped) :
    ∃ j w', w.act j = some w' := by
  cases hstate : w.state k with
  | stopped => exact absurd hstate hk
  | busy i => exact ⟨k, w.finish k, by simp [Workers.act, hstate]⟩
  | leaving => exact ⟨k, _, by simp [Workers.act, leave, hstate]; rfl⟩
  | waiting =>
    cases hqueue : w.queue with
    | cons x queue =>
      have hx : x = none := h.queue x (by rw [hqueue]; exact List.mem_cons_self)
      exact ⟨k, _, by simp [Workers.act, pop, hstate, hqueue, hx]; rfl⟩
    | nil =>
      -- The null item is with a worker, which puts it back.
      have hleaving : w.total isLeaving ≠ 0 := by
        have hpill := h.pill
        rw [pills, hqueue, List.count_nil] at hpill
        omega
      obtain ⟨j, -, hj⟩ := Finset.exists_ne_zero_of_sum_ne_zero hleaving
      have hstate : w.state j = .leaving := by
        cases hj' : w.state j <;> rw [hj'] at hj <;> first | rfl | exact absurd rfl hj
      exact ⟨j, _, by simp [Workers.act, leave, hstate]; rfl⟩

/-- Where no worker can take a step, all have stopped, and the null item is left. -/
theorem Stopping.all_stopped {w : Workers ι κ} (h : w.Stopping) (hend : ∀ k, w.act k = none) :
    (∀ k, w.state k = .stopped) ∧ w.queue = [none] := by
  have hstopped : ∀ k, w.state k = .stopped := by
    intro k
    by_contra hk
    obtain ⟨j, w', hact⟩ := h.progress hk
    rw [hend j] at hact
    cases hact
  refine ⟨hstopped, ?_⟩
  have hpill := h.pill
  have hleaving : w.total isLeaving = 0 := by
    apply Finset.sum_eq_zero
    intro k _
    rw [hstopped k]
    rfl
  have hall := List.eq_replicate_of_mem h.queue
  rw [pills, hleaving, hall, List.count_replicate_self, Nat.add_zero] at hpill
  rw [hall, hpill]
  rfl

omit [DecidableEq ι] [DecidableEq κ] in
theorem work_le (w : Workers ι κ) : w.work ≤ 3 * Fintype.card κ := by
  have hle : w.work ≤ (Finset.univ : Finset κ).card • 3 := by
    apply Finset.sum_le_card_nsmul
    intro k _
    cases w.state k <;> simp [rank]
  rw [Finset.card_univ, smul_eq_mul] at hle
  omega

end Sums

end Workers

end FaceDetection
