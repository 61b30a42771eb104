import Mathlib

/-!
# Runs of a machine

A machine is a partial step function on states and events. A run is a list of events each of which
could happen. A part of a machine has a share of the events; when it follows a machine of its own step by
step, it does so over whole runs.
-/

namespace FaceDetection.Trace

variable {σ ε τ δ : Type} {step : σ → ε → Option σ}

def run (step : σ → ε → Option σ) : σ → List ε → Option σ
  | s, [] => some s
  | s, e :: es =>
    match step s e with
    | none => none
    | some t => run step t es

theorem run_nil {s t : σ} (h : run step s [] = some t) : t = s := by
  cases h
  rfl

theorem run_cons {s u : σ} {e : ε} {es : List ε} (h : run step s (e :: es) = some u) :
    ∃ t, step s e = some t ∧ run step t es = some u := by
  unfold run at h
  cases hstep : step s e with
  | none =>
    rw [hstep] at h
    cases h
  | some t =>
    rw [hstep] at h
    exact ⟨t, rfl, h⟩

theorem run_cons_eq {s t : σ} {e : ε} (h : step s e = some t) (es : List ε) :
    run step s (e :: es) = run step t es := by
  rw [run, h]

theorem run_append {s t : σ} {es : List ε} (h : run step s es = some t) (fs : List ε) :
    run step s (es ++ fs) = run step t fs := by
  induction es generalizing s with
  | nil => rw [List.nil_append, run_nil h]
  | cons e es ih =>
    obtain ⟨u, hstep, hrun⟩ := run_cons h
    rw [List.cons_append, run_cons_eq hstep, ih hrun]

theorem run_invariant {P : σ → Prop} {s t : σ} {es : List ε} (h : run step s es = some t)
    (start : P s) (next : ∀ s e t, P s → step s e = some t → P t) : P t := by
  induction es generalizing s with
  | nil =>
    rw [run_nil h]
    exact start
  | cons e es ih =>
    obtain ⟨u, hstep, hrun⟩ := run_cons h
    exact ih hrun (next s e u start hstep)

/-! ## A part of a machine -/

/-- The events of a part over a run. -/
def share (step : σ → ε → Option σ) (part : σ → ε → List δ) : σ → List ε → List δ
  | _, [] => []
  | s, e :: es =>
    match step s e with
    | none => []
    | some t => part s e ++ share step part t es

/-- The part follows a machine of its own, which `R` relates to the whole. -/
theorem run_simulates {part : σ → ε → List δ} {step' : τ → δ → Option τ} {R : σ → τ → Prop} {s t : σ}
    {s' : τ} {es : List ε} (h : run step s es = some t) (start : R s s')
    (follows : ∀ s e t s', R s s' → step s e = some t →
      ∃ t', run step' s' (part s e) = some t' ∧ R t t') :
    ∃ t', run step' s' (share step part s es) = some t' ∧ R t t' := by
  induction es generalizing s s' with
  | nil =>
    rw [run_nil h]
    exact ⟨s', rfl, start⟩
  | cons e es ih =>
    obtain ⟨u, hstep, hrun⟩ := run_cons h
    obtain ⟨u', hpart, hu⟩ := follows s e u s' start hstep
    obtain ⟨t', hrest, ht⟩ := ih hrun hu
    refine ⟨t', ?_, ht⟩
    unfold share
    rw [hstep]
    simp only
    rw [run_append hpart, hrest]

end FaceDetection.Trace
