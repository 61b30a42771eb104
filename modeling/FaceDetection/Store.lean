import Mathlib

/-!
# A list of entries under distinct keys

`norm` says which keys are the same: two keys with one norm share an entry. An entry keeps its
place and the spelling of its key, whatever is stored under it later.
-/

namespace FaceDetection

variable {κ ν β : Type} {norm : κ → ν}

structure Store (norm : κ → ν) (β : Type) where
  entries : List (κ × β)
  distinct : (entries.map fun e => norm e.1).Nodup

namespace Store

@[ext]
theorem ext {s t : Store norm β} (h : s.entries = t.entries) : s = t := by
  cases s
  cases t
  congr

def empty : Store norm β := ⟨[], List.nodup_nil⟩

@[simp] theorem entries_empty : (empty : Store norm β).entries = [] := rfl

variable [DecidableEq ν]

/-- The value of the first entry under `k`. -/
def lookup (norm : κ → ν) (k : κ) : List (κ × β) → Option β
  | [] => none
  | e :: es => if norm e.1 = norm k then some e.2 else lookup norm k es

def get? (s : Store norm β) (k : κ) : Option β := lookup norm k s.entries

/-! ## Setting -/

/-- The first entry under `k` gets the value; without one, a new entry comes to the end. -/
def put (norm : κ → ν) (k : κ) (v : β) : List (κ × β) → List (κ × β)
  | [] => [(k, v)]
  | e :: es => if norm e.1 = norm k then (e.1, v) :: es else e :: put norm k v es

theorem norms_put (k : κ) (v : β) (es : List (κ × β)) :
    (put norm k v es).map (fun e => norm e.1) =
      if norm k ∈ es.map (fun e => norm e.1) then es.map (fun e => norm e.1)
      else es.map (fun e => norm e.1) ++ [norm k] := by
  induction es with
  | nil => rfl
  | cons e es ih =>
    unfold put
    by_cases he : norm e.1 = norm k
    · simp [he]
    · have hne : ¬ norm k = norm e.1 := fun h => he h.symm
      simp only [if_neg he, List.map_cons, ih, List.mem_cons, hne, false_or]
      split <;> rfl

def set (s : Store norm β) (k : κ) (v : β) : Store norm β where
  entries := put norm k v s.entries
  distinct := by
    rw [norms_put]
    split_ifs with hk
    · exact s.distinct
    · exact s.distinct.append (List.nodup_singleton _) (by simpa using hk)

theorem put_of_not_mem (k : κ) (v : β) (es : List (κ × β))
    (h : norm k ∉ es.map fun e => norm e.1) : put norm k v es = es ++ [(k, v)] := by
  induction es with
  | nil => rfl
  | cons e es ih =>
    simp only [List.map_cons, List.mem_cons, not_or] at h
    unfold put
    rw [if_neg (fun he => h.1 he.symm), ih h.2, List.cons_append]

theorem lookup_eq_none_iff (k : κ) (es : List (κ × β)) :
    lookup norm k es = none ↔ norm k ∉ es.map fun e => norm e.1 := by
  induction es with
  | nil => simp [lookup]
  | cons e es ih =>
    unfold lookup
    by_cases he : norm e.1 = norm k
    · simp [he]
    · have hne : ¬ norm k = norm e.1 := fun h => he h.symm
      simp [he, hne, ih]

/-! ## Many settings -/

def setAll (s : Store norm β) (es : List (κ × β)) : Store norm β :=
  es.foldl (fun s e => s.set e.1 e.2) s

@[simp] theorem setAll_nil (s : Store norm β) : s.setAll [] = s := rfl

@[simp] theorem setAll_cons (s : Store norm β) (e : κ × β) (es : List (κ × β)) :
    s.setAll (e :: es) = (s.set e.1 e.2).setAll es := rfl

/-- New keys come to the end in the order they are set. -/
theorem entries_setAll (s : Store norm β) (es : List (κ × β))
    (h : ((s.entries ++ es).map fun e => norm e.1).Nodup) :
    (s.setAll es).entries = s.entries ++ es := by
  induction es generalizing s with
  | nil => simp
  | cons e es ih =>
    have hput : (s.set e.1 e.2).entries = s.entries ++ [e] := by
      apply put_of_not_mem
      intro hmem
      rw [List.map_append, List.map_cons, List.nodup_append] at h
      exact h.2.2 _ hmem _ List.mem_cons_self rfl
    rw [setAll_cons, ih, hput, List.append_assoc, List.singleton_append]
    rw [hput, List.append_assoc, List.singleton_append]
    exact h

theorem lookup_append (k : κ) (es es' : List (κ × β)) :
    lookup norm k (es ++ es') = (lookup norm k es).or (lookup norm k es') := by
  induction es with
  | nil => rfl
  | cons e es ih =>
    rw [List.cons_append, lookup, lookup]
    split_ifs
    · rfl
    · exact ih

/-- An entry that is there stays. -/
def add (s : Store norm β) (k : κ) (v : β) : Store norm β :=
  if (s.get? k).isSome then s else s.set k v

/-- Of several entries under one key the first stays. -/
def addAll (s : Store norm β) (es : List (κ × β)) : Store norm β :=
  es.foldl (fun s e => s.add e.1 e.2) s

theorem entries_addAll (s : Store norm β) (es : List (κ × β))
    (h : ((s.entries ++ es).map fun e => norm e.1).Nodup) :
    (s.addAll es).entries = s.entries ++ es := by
  induction es generalizing s with
  | nil => simp [addAll]
  | cons e es ih =>
    have hnew : norm e.1 ∉ s.entries.map fun e => norm e.1 := by
      intro hmem
      rw [List.map_append, List.map_cons, List.nodup_append] at h
      exact h.2.2 _ hmem _ List.mem_cons_self rfl
    have hadd : (s.add e.1 e.2).entries = s.entries ++ [e] := by
      have hnone : s.get? e.1 = none := (lookup_eq_none_iff _ _).mpr hnew
      unfold add
      rw [if_neg (by simp [hnone])]
      exact put_of_not_mem _ _ _ hnew
    change ((s.add e.1 e.2).addAll es).entries = _
    rw [ih, hadd, List.append_assoc, List.singleton_append]
    rw [hadd, List.append_assoc, List.singleton_append]
    exact h

end Store

end FaceDetection
