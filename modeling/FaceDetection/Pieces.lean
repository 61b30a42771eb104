import Mathlib

/-!
# A text that comes in pieces

A consumer takes a piece of a text and says whether it wants more, is done, or fails. `Resumes` says
when the pieces do not matter: a consumer that wants more goes on as if it had got the text so far in
one piece. `I` holds of the states it comes to, and `Plain` of the outcomes for which this is so.
-/

namespace FaceDetection.Pieces

variable {σ α ε : Type}

inductive Outcome (σ ε : Type) where
  | more (s : σ)
  | done (s : σ)
  | fail (e : ε)

/-- The pieces are consumed until the consumer is done or fails. The rest is left. -/
def feedAll (feed : σ → List α → Outcome σ ε) : σ → List (List α) → Outcome σ ε × List (List α)
  | s, [] => (.more s, [])
  | s, piece :: pieces =>
    match feed s piece with
    | .more s => feedAll feed s pieces
    | .done s => (.done s, pieces)
    | .fail e => (.fail e, pieces)

/-- Pieces that were not enough, and one more. -/
theorem feedAll_concat {feed : σ → List α → Outcome σ ε} {s s' : σ} {pieces : List (List α)}
    (h : feedAll feed s pieces = (.more s', [])) (piece : List α) :
    feedAll feed s (pieces ++ [piece]) = (feed s' piece, []) := by
  induction pieces generalizing s with
  | nil =>
    cases h
    rw [List.nil_append, feedAll]
    cases feed s' piece <;> rfl
  | cons a pieces ih =>
    rw [feedAll] at h
    rw [List.cons_append, feedAll]
    cases hfeed : feed s a with
    | more t =>
      rw [hfeed] at h
      exact ih h
    | done t =>
      rw [hfeed] at h
      cases h
    | fail e =>
      rw [hfeed] at h
      cases h

/-- What holds of a state, and stays while the consumer wants more, holds where the last piece came. -/
theorem feedAll_last {feed : σ → List α → Outcome σ ε} {I : σ → Prop}
    (next : ∀ s a t, I s → feed s a = .more t → I t) {s : σ} (hs : I s) (pieces : List (List α)) :
    (∃ t, (feedAll feed s pieces).1 = .more t ∧ I t) ∨
      ∃ t a, I t ∧ (feedAll feed s pieces).1 = feed t a := by
  induction pieces generalizing s with
  | nil => exact Or.inl ⟨s, rfl, hs⟩
  | cons piece pieces ih =>
    unfold feedAll
    cases hfeed : feed s piece with
    | more t => exact ih (next s piece t hs hfeed)
    | done t => exact Or.inr ⟨s, piece, hs, hfeed.symm⟩
    | fail e => exact Or.inr ⟨s, piece, hs, hfeed.symm⟩

structure Resumes (feed : σ → List α → Outcome σ ε) (I : σ → Prop)
    (Plain : Outcome σ ε → Prop) : Prop where
  more : ∀ s a b s', I s → feed s a = .more s' → Plain (.more s') →
    I s' ∧ feed s (a ++ b) = feed s' b
  done : ∀ s a b s', I s → feed s a = .done s' → Plain (.done s') →
    ∃ s'', feed s (a ++ b) = .done s''
  fail : ∀ s a b e, I s → feed s a = .fail e → Plain (.fail e) → feed s (a ++ b) = .fail e
  plain : ∀ s a b, I s → Plain (feed s (a ++ b)) → Plain (feed s a)

variable {feed : σ → List α → Outcome σ ε} {I : σ → Prop} {Plain : Outcome σ ε → Prop}

/-- What the consumer says of a text: more, done or failed, whatever its state. -/
def Outcome.kind : Outcome σ ε → Outcome Unit ε
  | .more _ => .more ()
  | .done _ => .done ()
  | .fail e => .fail e

theorem Outcome.kind_eq_done {o : Outcome σ ε} (h : o.kind = .done ()) : ∃ s, o = .done s := by
  cases o with
  | more s => cases h
  | done s => exact ⟨s, rfl⟩
  | fail e => cases h

theorem Outcome.kind_eq_fail {o : Outcome σ ε} {e : ε} (h : o.kind = .fail e) : o = .fail e := by
  cases o with
  | more s => cases h
  | done s => cases h
  | fail e' =>
    cases h
    rfl

theorem feedAll_cons_more {s s' : σ} {piece : List α} (h : feed s piece = .more s')
    (pieces : List (List α)) : feedAll feed s (piece :: pieces) = feedAll feed s' pieces := by
  rw [feedAll, h]

theorem feedAll_cons_end {s : σ} {piece : List α} (h : ¬ ∃ s', feed s piece = .more s')
    (pieces : List (List α)) : feedAll feed s (piece :: pieces) = (feed s piece, pieces) := by
  unfold feedAll
  cases hfeed : feed s piece with
  | more s' => exact absurd ⟨s', hfeed⟩ h
  | done s' => rfl
  | fail e => rfl

/-- The outcome is that of the pieces used, taken as one. Fewer would not have ended it. -/
theorem Resumes.feedAll_spec (h : Resumes feed I Plain) (s : σ) (pieces : List (List α)) (hs : I s)
    (hnil : feed s [] = .more s) (hplain : Plain (feed s pieces.flatten)) :
    ∃ used, pieces = used ++ (feedAll feed s pieces).2 ∧
      (feedAll feed s pieces).1 = feed s used.flatten ∧
      (∀ shorter rest, used = shorter ++ rest → rest ≠ [] → ∃ s', feed s shorter.flatten = .more s') ∧
      ((∃ s', feed s used.flatten = .more s') → used = pieces) := by
  induction pieces generalizing s with
  | nil =>
    refine ⟨[], rfl, hnil.symm, ?_, fun _ => rfl⟩
    intro shorter rest hnil hrest
    exact absurd (List.append_eq_nil_iff.mp hnil.symm).2 hrest
  | cons piece pieces ih =>
    have hone : feed s [piece].flatten = feed s piece := by simp
    by_cases hmore : ∃ s', feed s piece = .more s'
    · obtain ⟨s', hfeed⟩ := hmore
      have hplain' : Plain (.more s') := by
        rw [← hfeed]
        exact h.plain s piece pieces.flatten hs hplain
      have hstep : ∀ text, feed s (piece ++ text) = feed s' text := fun text =>
        (h.more s piece text s' hs hfeed hplain').2
      have hnil' : feed s' [] = .more s' := by rw [← hstep, List.append_nil, hfeed]
      obtain ⟨used, hpieces, houtcome, hshorter, hall⟩ :=
        ih s' (h.more s piece [] s' hs hfeed hplain').1 hnil' (by rwa [← hstep])
      rw [feedAll_cons_more hfeed]
      refine ⟨piece :: used, by rw [List.cons_append, ← hpieces], ?_, ?_, ?_⟩
      · rw [List.flatten_cons, hstep, houtcome]
      · intro shorter rest hsplit hrest
        cases shorter with
        | nil => exact ⟨s, hnil⟩
        | cons first shorter =>
          cases hsplit
          rw [List.flatten_cons, hstep]
          exact hshorter shorter rest rfl hrest
      · rw [List.flatten_cons, hstep]
        intro hends
        rw [hall hends]
    · rw [feedAll_cons_end hmore]
      refine ⟨[piece], rfl, hone.symm, ?_, fun hends => absurd (hone ▸ hends) hmore⟩
      intro shorter rest hsplit hrest
      rcases List.append_eq_singleton_iff.mp hsplit.symm with ⟨rfl, -⟩ | ⟨-, hnil'⟩
      · exact ⟨s, hnil⟩
      · exact absurd hnil' hrest

/-- Whether a text is done with, or fails, does not depend on its pieces. -/
theorem Resumes.kind_feedAll (h : Resumes feed I Plain) (s : σ) (pieces : List (List α)) (hs : I s)
    (hnil : feed s [] = .more s) (hplain : Plain (feed s pieces.flatten)) :
    (feedAll feed s pieces).1.kind = (feed s pieces.flatten).kind := by
  obtain ⟨used, hpieces, houtcome, -, hmore⟩ := h.feedAll_spec s pieces hs hnil hplain
  have hflatten : pieces.flatten = used.flatten ++ (feedAll feed s pieces).2.flatten := by
    conv_lhs => rw [hpieces, List.flatten_append]
  have hused : Plain (feed s used.flatten) := by
    rw [hflatten] at hplain
    exact h.plain s _ _ hs hplain
  rw [houtcome]
  cases hcase : feed s used.flatten with
  | more s' => rw [← hmore ⟨s', hcase⟩, hcase]
  | done s' =>
    rw [hcase] at hused
    obtain ⟨s'', h''⟩ := h.done s _ (feedAll feed s pieces).2.flatten s' hs hcase hused
    rw [hflatten, h'']
    rfl
  | fail e =>
    rw [hcase] at hused
    rw [hflatten, h.fail s _ _ e hs hcase hused]

/-! ## Cuts -/

theorem prefix_split {s a b : List α} (hs : s <+: a ++ b) (hlen : a.length ≤ s.length) :
    ∃ u, s = a ++ u ∧ u <+: b := by
  obtain ⟨u, rfl⟩ := List.prefix_of_prefix_length_le (List.prefix_append a b) hs hlen
  exact ⟨u, rfl, (List.prefix_append_right_inj a).mp hs⟩

/-- The cuts of a text behind its first part `head`, which ends inside the piece `last`: the rest of
that piece is `e`. -/
theorem cuts_behind {front rest : List (List α)} {last e head : List α}
    (he : front.flatten ++ last = head ++ e) (hfront : front.flatten.length < head.length)
    {P : Nat → Prop} (hzero : ¬ P 0) :
    (∃ f, f <+: front ++ last :: rest ∧ P (f.flatten.length - head.length)) ↔
      ∃ f, f <+: e :: rest ∧ P f.flatten.length := by
  have hlast : ∀ f : List (List α), (front ++ last :: f).flatten.length - head.length =
      (e :: f).flatten.length := by
    intro f
    rw [List.flatten_append, List.flatten_cons, ← List.append_assoc, he, List.append_assoc,
      List.length_append, Nat.add_sub_cancel_left, List.flatten_cons]
  constructor
  · rintro ⟨f, hf, hcut⟩
    by_cases hlen : f.flatten.length ≤ head.length
    · rw [Nat.sub_eq_zero_of_le hlen] at hcut
      exact absurd hcut hzero
    · have hlong : front.length ≤ f.length := by
        by_contra hless
        -- A shorter prefix would end before the head does.
        have hinside := List.prefix_of_prefix_length_le hf (List.prefix_append front _) (by omega)
        obtain ⟨g, rfl⟩ := hinside
        rw [List.flatten_append, List.length_append] at hfront
        omega
      obtain ⟨u, rfl, hu⟩ := prefix_split hf hlong
      cases u with
      | nil =>
        rw [List.append_nil] at hlen
        omega
      | cons a u =>
        obtain ⟨rfl, hu'⟩ := List.cons_prefix_cons.mp hu
        exact ⟨e :: u, List.cons_prefix_cons.mpr ⟨rfl, hu'⟩, by rwa [← hlast]⟩
  · rintro ⟨f, hf, hcut⟩
    cases f with
    | nil => exact absurd hcut hzero
    | cons a f =>
      obtain ⟨rfl, hf'⟩ := List.cons_prefix_cons.mp hf
      refine ⟨front ++ last :: f, ?_, by rwa [hlast]⟩
      exact (List.prefix_append_right_inj front).mpr (List.cons_prefix_cons.mpr ⟨rfl, hf'⟩)

/-! ## Two consumers of one text -/

variable {σ' ε' : Type}

/-- Two outcomes of one kind, with their states or failures related. -/
inductive Outcome.Rel (More Done : σ → σ' → Prop) (Fail : ε → ε' → Prop) :
    Outcome σ ε → Outcome σ' ε' → Prop
  | more {s : σ} {s' : σ'} (h : More s s') : Outcome.Rel More Done Fail (.more s) (.more s')
  | done {s : σ} {s' : σ'} (h : Done s s') : Outcome.Rel More Done Fail (.done s) (.done s')
  | fail {e : ε} {e' : ε'} (h : Fail e e') : Outcome.Rel More Done Fail (.fail e) (.fail e')

/-- Consumers that agree on one piece agree on all of them. `R` is told the text to come. -/
theorem feedAll_rel {feed : σ → List α → Outcome σ ε} {feed' : σ' → List α → Outcome σ' ε'}
    {R : List α → σ → σ' → Prop} {Done : σ → σ' → Prop} {Fail : ε → ε' → Prop}
    (one : ∀ a b s s', R (a ++ b) s s' → Outcome.Rel (R b) Done Fail (feed s a) (feed' s' a))
    (pieces : List (List α)) {s : σ} {s' : σ'} (h : R pieces.flatten s s') :
    Outcome.Rel (R []) Done Fail (feedAll feed s pieces).1 (feedAll feed' s' pieces).1 ∧
      (feedAll feed s pieces).2 = (feedAll feed' s' pieces).2 := by
  induction pieces generalizing s s' with
  | nil => exact ⟨.more h, rfl⟩
  | cons piece pieces ih =>
    have hpiece := one piece pieces.flatten s s' h
    unfold feedAll
    cases hfeed : feed s piece <;> cases hfeed' : feed' s' piece <;> rw [hfeed, hfeed'] at hpiece
    case more.more =>
      cases hpiece with
      | more hmore => exact ih hmore
    case done.done =>
      cases hpiece with
      | done hdone => exact ⟨.done hdone, rfl⟩
    case fail.fail =>
      cases hpiece with
      | fail hfail => exact ⟨.fail hfail, rfl⟩
    all_goals cases hpiece

end FaceDetection.Pieces
