import FaceDetection.Cxx

/-!
# Preconditions and postconditions of calls that may throw

`Ends c x P`: the call `x` uses up no loop, and what it returns has `P`. Under `c` it does return; it
may throw otherwise. The rules follow the shape of the program, so a proof walks down its `do` block.
-/

namespace FaceDetection

variable {α β : Type} {c c' : Prop}

def Ends (c : Prop) (x : Except Fault α) (P : α → Prop) : Prop :=
  match x with
  | .ok a => P a
  | .error e => e ≠ .fuel ∧ ¬ c

theorem Ends.ok {a : α} {P : α → Prop} (h : P a) : Ends c (.ok a) P := h

theorem Ends.pure {a : α} {P : α → Prop} (h : P a) : Ends c (Pure.pure a) P := h

theorem Ends.error {e : Fault} {P : α → Prop} (h : e ≠ .fuel) (hc : ¬ c) : Ends c (.error e) P :=
  ⟨h, hc⟩

/-- After a throw nothing runs. -/
theorem Ends.throw_bind {e : Fault} {f : α → Except Fault β} {Q : β → Prop} (h : e ≠ .fuel)
    (hc : ¬ c) : Ends c (MonadExcept.throw e >>= f) Q :=
  ⟨h, hc⟩

theorem Ends.mono {x : Except Fault α} {P Q : α → Prop} (h : Ends c x P) (hpq : ∀ a, P a → Q a) :
    Ends c x Q := by
  cases x with
  | ok a => exact hpq a h
  | error e => exact h

theorem Ends.pre {x : Except Fault α} {P : α → Prop} (h : Ends c' x P) (hc : c → c') :
    Ends c x P := by
  cases x with
  | ok a => exact h
  | error e => exact ⟨h.1, fun hpre => h.2 (hc hpre)⟩

theorem Ends.bind {x : Except Fault α} {f : α → Except Fault β} {P : α → Prop} {Q : β → Prop}
    (h : Ends c x P) (hf : ∀ a, P a → Ends c (f a) Q) : Ends c (x >>= f) Q := by
  cases x with
  | ok a => exact hf a h
  | error e => exact h

theorem Ends.map {x : Except Fault α} {f : α → β} {P : α → Prop} {Q : β → Prop}
    (h : Ends c x P) (hf : ∀ a, P a → Q (f a)) : Ends c (x.map f) Q := by
  cases x with
  | ok a => exact hf a h
  | error e => exact h

theorem Ends.ite {p : Prop} [Decidable p] {x y : Except Fault α} {P : α → Prop}
    (hx : p → Ends c x P) (hy : ¬ p → Ends c y P) : Ends c (if p then x else y) P := by
  split
  · exact hx ‹p›
  · exact hy ‹¬ p›

theorem Ends.of_ok {x : Except Fault α} {P : α → Prop} {a : α} (h : Ends c x P) (hx : x = .ok a) :
    P a := by
  subst hx; exact h

theorem Ends.ne_fuel {x : Except Fault α} {P : α → Prop} (h : Ends c x P) : x ≠ .error .fuel := by
  rintro rfl; exact h.1 rfl

theorem ok_bind (a : α) (f : α → Except Fault β) : (Except.ok a >>= f) = f a := rfl

/-- What a bind that returned has done. -/
theorem bind_ok {x : Except Fault α} {f : α → Except Fault β} {b : β} (h : x >>= f = .ok b) :
    ∃ a, x = .ok a ∧ f a = .ok b := by
  cases x with
  | ok a => exact ⟨a, rfl, h⟩
  | error e => cases h

end FaceDetection
