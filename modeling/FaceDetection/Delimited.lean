import Mathlib

/-!
# Records that end in a delimiter

`cut d s` is what stands before the first `d` in `s`, and what stands after it. `scan` hands the
records of a text to a step function, one after the other, until the step asks to stop or no whole
record is left. A reader that gets its text in pieces keeps the rest and scans on when more comes:
by `scan_append_wait` and `scan_append_stop` that changes nothing.
-/

namespace FaceDetection.Delimited

variable {α σ : Type} [DecidableEq α] {d : List α}

/-! ## The first delimiter -/

def cut (d : List α) : List α → Option (List α × List α)
  | [] => if d = [] then some ([], []) else none
  | c :: s =>
    if d.isPrefixOf (c :: s) then some ([], (c :: s).drop d.length)
    else (cut d s).map fun p => (c :: p.1, p.2)

theorem cut_eq_append {s a b : List α} (h : cut d s = some (a, b)) : s = a ++ d ++ b := by
  induction s generalizing a b with
  | nil =>
    unfold cut at h
    split_ifs at h with hd
    cases h
    simp [hd]
  | cons c s ih =>
    unfold cut at h
    split_ifs at h with hleads
    · obtain ⟨u, hu⟩ := List.isPrefixOf_iff_prefix.mp hleads
      cases h
      rw [← hu]
      simp
    · obtain ⟨p, hp, hab⟩ := Option.map_eq_some_iff.mp h
      cases hab
      rw [ih hp]
      simp

theorem cut_length {s a b : List α} (h : cut d s = some (a, b)) :
    s.length = a.length + d.length + b.length := by
  rw [cut_eq_append h]
  simp only [List.length_append]

/-- The first delimiter stays the first when more follows. -/
theorem cut_append {s a b : List α} (h : cut d s = some (a, b)) (t : List α) :
    cut d (s ++ t) = some (a, b ++ t) := by
  induction s generalizing a b with
  | nil =>
    unfold cut at h
    split_ifs at h with hd
    subst hd
    cases h
    cases t <;> simp [cut]
  | cons c s ih =>
    unfold cut at h
    rw [List.cons_append, cut]
    split_ifs at h with hleads
    · obtain ⟨u, hu⟩ := List.isPrefixOf_iff_prefix.mp hleads
      have hlonger : d.isPrefixOf (c :: (s ++ t)) = true := by
        apply List.isPrefixOf_iff_prefix.mpr
        exact ⟨u ++ t, by rw [← List.append_assoc, hu, List.cons_append]⟩
      cases h
      rw [if_pos hlonger, ← List.cons_append, ← hu]
      simp
    · obtain ⟨p, hp, hab⟩ := Option.map_eq_some_iff.mp h
      cases hab
      have hno : ¬ d.isPrefixOf (c :: (s ++ t)) = true := by
        intro hlonger
        -- `s` holds a whole `d`, so a prefix of the longer text is one of the shorter.
        have hlen := cut_length hp
        apply hleads
        rw [List.isPrefixOf_iff_prefix] at hlonger ⊢
        apply List.prefix_of_prefix_length_le hlonger ⟨t, rfl⟩
        simp only [List.length_cons]
        omega
      rw [if_neg hno, ih hp]
      rfl

theorem cut_eq_none_iff (s : List α) : cut d s = none ↔ ¬ d <:+: s := by
  induction s with
  | nil => simp [cut]
  | cons c s ih =>
    rw [cut, List.infix_cons_iff]
    split_ifs with hleads
    · simp [List.isPrefixOf_iff_prefix.mp hleads]
    · rw [List.isPrefixOf_iff_prefix] at hleads
      simp [hleads, ih]

/-- The first `d` in `a ++ d` is the one at its end. -/
def IsRecord (d a : List α) : Prop := cut d (a ++ d) = some (a, [])

instance (a : List α) : Decidable (IsRecord d a) :=
  inferInstanceAs (Decidable (cut d (a ++ d) = some (a, [])))

theorem IsRecord.cut_eq {a : List α} (h : IsRecord d a) (b : List α) :
    cut d (a ++ d ++ b) = some (a, b) := by
  rw [cut_append h b, List.nil_append]

theorem isRecord_nil : IsRecord d [] := by
  unfold IsRecord
  cases d <;> simp [cut]

theorem isRecord_of_cut {s a b : List α} (h : cut d s = some (a, b)) : IsRecord d a := by
  induction s generalizing a b with
  | nil =>
    unfold cut at h
    split_ifs at h
    cases h
    exact isRecord_nil
  | cons c s ih =>
    unfold cut at h
    split_ifs at h with hleads
    · cases h
      exact isRecord_nil
    · obtain ⟨p, hp, hab⟩ := Option.map_eq_some_iff.mp h
      cases hab
      have hrecord := ih hp
      have hno : ¬ d.isPrefixOf (c :: (p.1 ++ d)) = true := by
        intro hshort
        apply hleads
        rw [List.isPrefixOf_iff_prefix] at hshort ⊢
        apply List.IsPrefix.trans hshort
        exact ⟨p.2, by rw [cut_eq_append hp, List.cons_append]⟩
      unfold IsRecord at hrecord ⊢
      rw [List.cons_append, cut, if_neg hno, hrecord]
      rfl

/-- A text without the first character of the delimiter. -/
theorem isRecord_of_not_mem {x : α} {a : List α} (h : x ∉ a) : IsRecord (x :: d) a := by
  induction a with
  | nil => exact isRecord_nil
  | cons c a ih =>
    rw [List.mem_cons, not_or] at h
    unfold IsRecord at ih ⊢
    have hno : ¬ (x :: d).isPrefixOf (c :: (a ++ x :: d)) = true := by
      simp [h.1]
    rw [List.cons_append, cut, if_neg hno, ih h.2]
    rfl

/-! ## Record after record -/

variable (d) (step : σ → List α → σ × Bool)

/-- At most `n` records. -/
def scanLoop : Nat → σ → List α → σ × List α × Bool
  | 0, st, s => (st, s, false)
  | n + 1, st, s =>
    match cut d s with
    | none => (st, s, false)
    | some p =>
      if (step st p.1).2 then ((step st p.1).1, p.2, true) else scanLoop n (step st p.1).1 p.2

/-- The last state, what is left of the text, and whether the step has asked to stop. A text has no
more records than characters. -/
def scan (st : σ) (s : List α) : σ × List α × Bool := scanLoop d step s.length st s

variable {d step}

theorem scanLoop_eq_of_le (hd : d ≠ []) (n m : Nat) (st : σ) (s : List α) (hn : s.length ≤ n)
    (hm : s.length ≤ m) : scanLoop d step n st s = scanLoop d step m st s := by
  have hcut_nil : cut d [] = none := by simp [cut, hd]
  have hpos : 0 < d.length := List.length_pos_of_ne_nil hd
  induction n generalizing m st s with
  | zero =>
    obtain rfl : s = [] := List.eq_nil_of_length_eq_zero (by omega)
    cases m <;> simp [scanLoop, hcut_nil]
  | succ n ih =>
    cases m with
    | zero =>
      obtain rfl : s = [] := List.eq_nil_of_length_eq_zero (by omega)
      simp [scanLoop, hcut_nil]
    | succ m =>
      unfold scanLoop
      cases hcut : cut d s with
      | none => rfl
      | some p =>
        have hlen := cut_length hcut
        simp only
        rw [ih m _ p.2 (by omega) (by omega)]

theorem scan_eq (hd : d ≠ []) (st : σ) (s : List α) :
    scan d step st s =
      match cut d s with
      | none => (st, s, false)
      | some p =>
        if (step st p.1).2 then ((step st p.1).1, p.2, true)
        else scan d step (step st p.1).1 p.2 := by
  have hpos : 0 < d.length := List.length_pos_of_ne_nil hd
  unfold scan
  rw [scanLoop_eq_of_le hd s.length (s.length + 1) st s (by omega) (by omega), scanLoop]
  cases hcut : cut d s with
  | none => rfl
  | some p =>
    have hlen := cut_length hcut
    simp only
    rw [scanLoop_eq_of_le hd s.length p.2.length _ p.2 (by omega) (by omega)]

theorem scan_of_cut_none (hd : d ≠ []) {s : List α} (st : σ) (h : cut d s = none) :
    scan d step st s = (st, s, false) := by
  rw [scan_eq hd, h]

theorem scan_of_cut (hd : d ≠ []) {s a b : List α} (st : σ) (h : cut d s = some (a, b)) :
    scan d step st s =
      if (step st a).2 then ((step st a).1, b, true) else scan d step (step st a).1 b := by
  rw [scan_eq hd, h]

/-- Induction along the records of a text. -/
theorem scan_induction (step : σ → List α → σ × Bool) (hd : d ≠ []) {motive : σ → List α → Prop}
    (wait : ∀ st s, cut d s = none → motive st s)
    (stop : ∀ st s a b, cut d s = some (a, b) → (step st a).2 = true → motive st s)
    (next : ∀ st s a b, cut d s = some (a, b) → (step st a).2 = false →
      motive (step st a).1 b → motive st s) (st : σ) (s : List α) : motive st s := by
  have hpos : 0 < d.length := List.length_pos_of_ne_nil hd
  induction hn : s.length using Nat.strong_induction_on generalizing st s with
  | _ n ih =>
    cases hcut : cut d s with
    | none => exact wait st s hcut
    | some p =>
      have hlen := cut_length hcut
      cases hstop : (step st p.1).2 with
      | true => exact stop st s p.1 p.2 hcut hstop
      | false => exact next st s p.1 p.2 hcut hstop (ih p.2.length (by omega) _ _ rfl)

theorem scan_append_wait (hd : d ≠ []) (st : σ) (s t : List α)
    (h : (scan d step st s).2.2 = false) :
    scan d step st (s ++ t) = scan d step (scan d step st s).1 ((scan d step st s).2.1 ++ t) := by
  induction st, s using scan_induction step hd with
  | wait st s hcut => rw [scan_of_cut_none hd st hcut]
  | stop st s a b hcut hstop =>
    rw [scan_of_cut hd st hcut, if_pos hstop] at h
    cases h
  | next st s a b hcut hstop ih =>
    have hgo : ¬ (step st a).2 = true := by simp [hstop]
    rw [scan_of_cut hd st hcut, if_neg hgo] at h ⊢
    rw [scan_of_cut hd st (cut_append hcut t), if_neg hgo]
    exact ih h

theorem scan_append_stop (hd : d ≠ []) (st : σ) (s t : List α)
    (h : (scan d step st s).2.2 = true) :
    scan d step st (s ++ t) =
      ((scan d step st s).1, (scan d step st s).2.1 ++ t, true) := by
  induction st, s using scan_induction step hd with
  | wait st s hcut =>
    rw [scan_of_cut_none hd st hcut] at h
    cases h
  | stop st s a b hcut hstop =>
    rw [scan_of_cut hd st hcut, if_pos hstop, scan_of_cut hd st (cut_append hcut t), if_pos hstop]
  | next st s a b hcut hstop ih =>
    have hgo : ¬ (step st a).2 = true := by simp [hstop]
    rw [scan_of_cut hd st hcut, if_neg hgo] at h ⊢
    rw [scan_of_cut hd st (cut_append hcut t), if_neg hgo]
    exact ih h

/-- Records that do not stop the scan, and then any text. -/
theorem scan_records (hd : d ≠ []) (records : List (List α)) (st : σ) (t : List α)
    (hrecords : ∀ a ∈ records, IsRecord d a)
    (hgo : ∀ st, ∀ a ∈ records, (step st a).2 = false) :
    scan d step st (records.flatMap (· ++ d) ++ t) =
      scan d step (records.foldl (fun st a => (step st a).1) st) t := by
  induction records generalizing st with
  | nil => rfl
  | cons a records ih =>
    have hcut := (hrecords a List.mem_cons_self).cut_eq (records.flatMap (· ++ d) ++ t)
    rw [List.flatMap_cons, List.append_assoc, scan_of_cut hd st hcut,
      if_neg (by simp [hgo st a List.mem_cons_self])]
    apply ih
    · intro b hb
      exact hrecords b (List.mem_cons_of_mem a hb)
    · intro st b hb
      exact hgo st b (List.mem_cons_of_mem a hb)

/-- `P` relates a state to the text that led to it: every step keeps it that goes on, and one that
stops turns it into `Q`. -/
theorem scan_consumed (step : σ → List α → σ × Bool) (hd : d ≠ []) {P : σ → List α → Prop}
    {Q : σ → List α → List α → Prop}
    (go : ∀ st u a, P st u → (step st a).2 = false → P (step st a).1 (u ++ a ++ d))
    (stop : ∀ st u a, P st u → (step st a).2 = true → Q (step st a).1 u a)
    (st : σ) (u s : List α) (start : P st u) :
    ((scan d step st s).2.2 = false →
        ∃ v, s = v ++ (scan d step st s).2.1 ∧ P (scan d step st s).1 (u ++ v)) ∧
      ((scan d step st s).2.2 = true →
        ∃ v a, s = v ++ a ++ d ++ (scan d step st s).2.1 ∧ Q (scan d step st s).1 (u ++ v) a) := by
  induction st, s using scan_induction step hd generalizing u with
  | wait st s hcut =>
    rw [scan_of_cut_none hd st hcut]
    exact ⟨fun _ => ⟨[], rfl, by rwa [List.append_nil]⟩, fun h => Bool.noConfusion h⟩
  | stop st s a b hcut hstop =>
    rw [scan_of_cut hd st hcut, if_pos hstop]
    refine ⟨fun h => Bool.noConfusion h, fun _ => ⟨[], a, cut_eq_append hcut, ?_⟩⟩
    rw [List.append_nil]
    exact stop st u a start hstop
  | next st s a b hcut hstop ih =>
    rw [scan_of_cut hd st hcut, if_neg (by simp [hstop])]
    obtain ⟨hwait, hstopped⟩ := ih (u ++ a ++ d) (go st u a start hstop)
    constructor
    · intro h
      obtain ⟨v, hv, hP⟩ := hwait h
      refine ⟨a ++ d ++ v, ?_, by simpa only [List.append_assoc] using hP⟩
      rw [cut_eq_append hcut, List.append_assoc (a ++ d), ← hv]
    · intro h
      obtain ⟨v, a', hv, hQ⟩ := hstopped h
      refine ⟨a ++ d ++ v, a', ?_, by simpa only [List.append_assoc] using hQ⟩
      rw [cut_eq_append hcut]
      conv_lhs => rw [hv]
      simp only [List.append_assoc]

/-- The same for a property of the states alone. -/
theorem scan_spec (step : σ → List α → σ × Bool) (hd : d ≠ []) {P Q : σ → Prop}
    (go : ∀ st a, P st → (step st a).2 = false → P (step st a).1)
    (stop : ∀ st a, P st → (step st a).2 = true → Q (step st a).1)
    (st : σ) (s : List α) (start : P st) :
    ((scan d step st s).2.2 = false → P (scan d step st s).1) ∧
      ((scan d step st s).2.2 = true → Q (scan d step st s).1) := by
  have h := scan_consumed step hd (P := fun st _ => P st) (Q := fun st _ _ => Q st)
    (fun st _ a => go st a) (fun st _ a => stop st a) st [] s start
  constructor
  · intro hwait
    obtain ⟨_, _, hP⟩ := h.1 hwait
    exact hP
  · intro hstop
    obtain ⟨_, _, _, hQ⟩ := h.2 hstop
    exact hQ

/-- A change of the state that no step sees. -/
theorem scan_map (hd : d ≠ []) (f : σ → σ)
    (hf : ∀ st a, step (f st) a = (f (step st a).1, (step st a).2)) (st : σ) (s : List α) :
    scan d step (f st) s = (f (scan d step st s).1, (scan d step st s).2) := by
  induction st, s using scan_induction step hd with
  | wait st s hcut => rw [scan_of_cut_none hd _ hcut, scan_of_cut_none hd _ hcut]
  | stop st s a b hcut hstop =>
    rw [scan_of_cut hd _ hcut, scan_of_cut hd _ hcut, hf, if_pos hstop, if_pos hstop]
  | next st s a b hcut hstop ih =>
    have hgo : ¬ (step st a).2 = true := by simp [hstop]
    rw [scan_of_cut hd _ hcut, scan_of_cut hd _ hcut, hf, if_neg hgo, if_neg hgo, ih]

end FaceDetection.Delimited
