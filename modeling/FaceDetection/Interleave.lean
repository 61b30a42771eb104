import Mathlib

/-!
# Processes over shared state

A process is a step function on the shared state and its own. Any number of them run interleaved:
at each moment one of them takes a step. `choice` is what the outside decides in that step.
-/

namespace FaceDetection.Interleave

variable {ι Shared Local Choice : Type}

/-- All processes and what they share. -/
structure System (ι Shared Local : Type) where
  shared : Shared
  process : ι → Local

variable (step : Choice → Shared → Local → Option (Shared × Local))

/-! ## One process alone -/

/-- Some steps of one process that nothing interrupts. -/
def Runs : Shared × Local → Shared × Local → Prop :=
  Relation.ReflTransGen fun a b => ∃ choice, step choice a.1 a.2 = some b

/-- The steps of a process under given choices, as long as it takes any. -/
def run : List Choice → Shared × Local → Shared × Local
  | [], a => a
  | choice :: choices, a =>
    match step choice a.1 a.2 with
    | some b => run choices b
    | none => a

theorem runs_run (choices : List Choice) (a : Shared × Local) :
    Runs step a (run step choices a) := by
  induction choices generalizing a with
  | nil => exact Relation.ReflTransGen.refl
  | cons choice choices ih =>
    unfold run
    split
    · exact Relation.ReflTransGen.head ⟨choice, ‹_›⟩ (ih _)
    · exact Relation.ReflTransGen.refl

theorem Runs.invariant {step : Choice → Shared → Local → Option (Shared × Local)}
    {P : Shared × Local → Prop} {a b : Shared × Local} (h : Runs step a b) (start : P a)
    (next : ∀ choice a b, P a → step choice a.1 a.2 = some b → P b) : P b := by
  induction h with
  | refl => exact start
  | tail _ hstep ih =>
    obtain ⟨choice, hstep⟩ := hstep
    exact next choice _ _ ih hstep

/-! ## Interleaved processes -/

variable [DecidableEq ι]

/-- Process `i` takes a step. -/
def Step (i : ι) (s t : System ι Shared Local) : Prop :=
  ∃ choice shared l, step choice s.shared (s.process i) = some (shared, l) ∧
    t = ⟨shared, Function.update s.process i l⟩

def Reaches : System ι Shared Local → System ι Shared Local → Prop :=
  Relation.ReflTransGen fun s t => ∃ i, Step step i s t

/-- The states of a given schedule. A process that has ended passes. -/
def runSchedule : List (ι × Choice) → System ι Shared Local → System ι Shared Local
  | [], s => s
  | (i, choice) :: schedule, s =>
    match step choice s.shared (s.process i) with
    | some (shared, l) => runSchedule schedule ⟨shared, Function.update s.process i l⟩
    | none => runSchedule schedule s

theorem reaches_runSchedule (schedule : List (ι × Choice)) (s : System ι Shared Local) :
    Reaches step s (runSchedule step schedule s) := by
  induction schedule generalizing s with
  | nil => exact Relation.ReflTransGen.refl
  | cons entry schedule ih =>
    obtain ⟨i, choice⟩ := entry
    unfold runSchedule
    split
    · exact Relation.ReflTransGen.head ⟨i, choice, _, _, ‹_›, rfl⟩ (ih _)
    · exact ih s

variable {step}

/-- A mark `P` of process `i` that some of its steps set and none takes back. `Q` is the condition, before a
step, under which the step sets it. -/
theorem mark_runSchedule {P : Local → Prop} {Q : Choice → Local → Prop}
    (passes : ∀ choice shared l, step choice shared l = none → ¬ Q choice l)
    (steps : ∀ choice shared l shared' l', step choice shared l = some (shared', l') →
      (P l' ↔ P l ∨ Q choice l))
    (schedule : List (ι × Choice)) (s : System ι Shared Local) (i : ι) :
    P ((runSchedule step schedule s).process i) ↔ P (s.process i) ∨
      ∃ n choice, schedule[n]? = some (i, choice) ∧
        Q choice ((runSchedule step (schedule.take n) s).process i) := by
  induction schedule generalizing s with
  | nil => simp [runSchedule]
  | cons entry schedule ih =>
    obtain ⟨j, choice⟩ := entry
    -- Either the first step sets the mark, or a later one does.
    have hsplit : (∃ n choice', ((j, choice) :: schedule)[n]? = some (i, choice') ∧
        Q choice' ((runSchedule step (((j, choice) :: schedule).take n) s).process i)) ↔
          (j = i ∧ Q choice (s.process i)) ∨ ∃ n choice', schedule[n]? = some (i, choice') ∧
            Q choice' ((runSchedule step ((j, choice) :: schedule.take n) s).process i) := by
      constructor
      · rintro ⟨n, choice', hentry, hsets⟩
        cases n with
        | zero =>
          cases hentry
          exact Or.inl ⟨rfl, hsets⟩
        | succ n => exact Or.inr ⟨n, choice', hentry, hsets⟩
      · rintro (⟨rfl, hsets⟩ | ⟨n, choice', hentry, hsets⟩)
        · exact ⟨0, choice, rfl, hsets⟩
        · exact ⟨n + 1, choice', hentry, hsets⟩
    rw [hsplit]
    unfold runSchedule
    cases hstep : step choice s.shared (s.process j) with
    | none =>
      have hno : ¬ (j = i ∧ Q choice (s.process i)) := by
        rintro ⟨rfl, hsets⟩
        exact passes _ _ _ hstep hsets
      simp only
      rw [ih s]
      simp only [hno, false_or]
    | some next =>
      obtain ⟨shared, l⟩ := next
      simp only
      rw [ih]
      by_cases hj : j = i
      · subst hj
        simp only [Function.update_self, true_and, steps _ _ _ _ _ hstep, or_assoc]
      · have hi : Function.update s.process j l i = s.process i := Function.update_of_ne (Ne.symm hj) ..
        simp only [hi, hj, false_and, false_or]

/-- A property of the whole system that every step keeps. -/
theorem Reaches.invariant {P : System ι Shared Local → Prop} {s t : System ι Shared Local}
    (h : Reaches step s t) (start : P s)
    (next : ∀ i s t, P s → Step step i s t → P t) : P t := by
  induction h with
  | refl => exact start
  | tail _ hstep ih =>
    obtain ⟨i, hstep⟩ := hstep
    exact next i _ _ ih hstep

/-- A property of each process on its own. A process keeps its own, and no step of another process
spoils it. `Inv` is what is known of every state on the way. -/
theorem Reaches.each {Inv : System ι Shared Local → Prop} {P : Shared → Local → Prop}
    {s t : System ι Shared Local} (h : Reaches step s t) (inv : ∀ t, Reaches step s t → Inv t)
    (start : ∀ i, P s.shared (s.process i))
    (own : ∀ t i choice shared l, Inv t → P t.shared (t.process i) →
      step choice t.shared (t.process i) = some (shared, l) → P shared l)
    (other : ∀ t i j choice shared l, Inv t → i ≠ j → P t.shared (t.process j) →
      step choice t.shared (t.process i) = some (shared, l) → P shared (t.process j)) :
    ∀ i, P t.shared (t.process i) := by
  induction h with
  | refl => exact start
  | @tail t u hreach hstep ih =>
    obtain ⟨i, choice, shared, l, hstep, rfl⟩ := hstep
    intro j
    change P shared (Function.update t.process i l j)
    by_cases hj : j = i
    · subst hj
      rw [Function.update_self]
      exact own t j choice shared l (inv t hreach) (ih j) hstep
    · rw [Function.update_of_ne hj]
      exact other t i j choice shared l (inv t hreach) (Ne.symm hj) (ih j) hstep

end FaceDetection.Interleave
