import FaceDetection.Json.Total

/-!
# The root of a parse

`parse` fills a null root in place. What a failed parse leaves in it is decided by its first token.
-/

namespace FaceDetection.Json

variable {Double : Type}

/-- Whether the first token that is no comment is `{`. -/
def opensObject (doc : Bytes) : Bool :=
  match skipCommentTokens (Reader.start doc) with
  | .ok (token, _) => token.type_ = .objectBegin
  | .error _ => false

/-- What `readValue` leaves in a null value, by its first token. -/
structure RootPost (token : Token) (ok : Bool) (value : Value Double) : Prop where
  object : token.type_ = .objectBegin → ∃ members, value = .objectValue members
  other : token.type_ ≠ .objectBegin → ∀ members, value ≠ .objectValue members
  failed : token.type_ ≠ .objectBegin → ok = false →
    value = .nullValue ∨ ∃ elements, value = .arrayValue elements

theorem readObject_value {readValue : Value Double → Reader → Except Fault (Bool × Value Double × Reader)}
    {r r' : Reader} {ok : Bool} {value : Value Double}
    (h : readObject readValue r = .ok (ok, value, r')) : ∃ members, value = .objectValue members := by
  obtain ⟨p, -, hp⟩ := bind_ok h
  cases hp
  exact ⟨_, rfl⟩

theorem readArray_value {readValue : Value Double → Reader → Except Fault (Bool × Value Double × Reader)}
    {r r' : Reader} {ok : Bool} {value : Value Double}
    (h : readArray readValue r = .ok (ok, value, r')) : ∃ elements, value = .arrayValue elements := by
  unfold readArray at h
  simp only at h
  split_ifs at h
  · obtain ⟨p, -, hp⟩ := bind_ok h
    cases hp
    exact ⟨_, rfl⟩
  · obtain ⟨p, -, hp⟩ := bind_ok h
    cases hp
    exact ⟨_, rfl⟩

theorem decodeNumber_value {libc : LibC Double} {token : Token} {r : Reader} {value : Value Double}
    (h : (decodeNumber libc token r).1 = some value) (members : List (Bytes × Value Double)) :
    value ≠ .objectValue members := by
  rintro rfl
  unfold decodeNumber decodeDouble at h
  simp only at h
  split at h
  · split at h <;> simp at h
  · split_ifs at h <;> simp at h

/-- A value that is no object, and null when the read failed. -/
def ScalarPost (ok : Bool) (value : Value Double) : Prop :=
  (∀ members, value ≠ .objectValue members) ∧ (ok = false → value = .nullValue)

theorem decodeNumberValue_scalar (libc : LibC Double) (token : Token) (r : Reader) :
    ScalarPost (decodeNumberValue libc token .nullValue r).1
      (decodeNumberValue libc token .nullValue r).2.1 := by
  unfold decodeNumberValue
  split <;> rename_i hd
  · exact ⟨decodeNumber_value (by rw [hd]), by simp⟩
  · exact ⟨by simp, fun _ => rfl⟩

theorem decodeStringValue_scalar {token : Token} {r : Reader} {p : Bool × Value Double × Reader}
    (h : decodeStringValue token .nullValue r = .ok p) : ScalarPost p.1 p.2.1 := by
  unfold decodeStringValue at h
  split at h
  · obtain ⟨value, hvalue, h⟩ := bind_ok h
    cases h
    unfold Value.ofString at hvalue
    cases hs : duplicateAndPrefixStringValue ‹Bytes› with
    | error e => rw [hs] at hvalue; cases hvalue
    | ok s => rw [hs] at hvalue; cases hvalue; exact ⟨by simp, by simp⟩
  · cases h
    exact ⟨by simp, fun _ => rfl⟩

theorem ScalarPost.root {token : Token} {ok : Bool} {value : Value Double} (h : ScalarPost ok value)
    (htype : token.type_ ≠ .objectBegin) : RootPost token ok value :=
  ⟨fun heq => absurd heq htype, fun _ => h.1, fun _ hok => Or.inl (h.2 hok)⟩

theorem readValue_root {libc : LibC Double} {levels : Nat} {r r' : Reader} {ok : Bool}
    {value : Value Double} (h : readValue libc (levels + 1) .nullValue r = .ok (ok, value, r')) :
    ∃ p, skipCommentTokens r = .ok p ∧ RootPost p.1 ok value := by
  rw [readValue] at h
  obtain ⟨⟨token, r1⟩, htoken, h⟩ := bind_ok h
  obtain ⟨r2, -, h⟩ := bind_ok h
  refine ⟨(token, r1), htoken, ?_⟩
  simp only at h
  split at h
  · rename_i htype
    obtain ⟨p, hp, h⟩ := bind_ok h
    cases h
    exact ⟨fun _ => readObject_value hp, fun hne => absurd htype hne, fun hne => absurd htype hne⟩
  · rename_i htype
    obtain ⟨p, hp, h⟩ := bind_ok h
    cases h
    obtain ⟨elements, helements⟩ := readArray_value hp
    exact ⟨by simp [htype], by simp [helements], fun _ _ => Or.inr ⟨elements, helements⟩⟩
  · rename_i htype
    cases h
    exact (decodeNumberValue_scalar libc token r2).root (by simp [htype])
  · rename_i htype
    obtain ⟨p, hp, h⟩ := bind_ok h
    cases h
    exact (decodeStringValue_scalar hp).root (by simp [htype])
  · rename_i htype
    cases h
    exact ScalarPost.root ⟨by simp, by simp⟩ (by simp [htype])
  · rename_i htype
    cases h
    exact ScalarPost.root ⟨by simp, by simp⟩ (by simp [htype])
  · rename_i htype
    cases h
    exact ScalarPost.root ⟨by simp, by simp⟩ (by simp [htype])
  · rename_i htype _ _ _ _ _ _
    cases h
    exact ScalarPost.root ⟨by simp, fun _ => rfl⟩ htype

theorem parse_root {libc : LibC Double} {doc : Bytes} {ok : Bool} {root : Value Double}
    (h : parseFromStream libc doc = .ok (ok, root)) :
    (opensObject doc = true ∧ ∃ members, root = .objectValue members) ∨
      (opensObject doc = false ∧ (∀ members, root ≠ .objectValue members) ∧
        (ok = false → root = .nullValue ∨ ∃ elements, root = .arrayValue elements)) := by
  obtain ⟨⟨ok', root', r⟩, hparse, h⟩ := bind_ok h
  cases h
  obtain ⟨⟨ok', root', r1⟩, hread, h⟩ := bind_ok hparse
  obtain ⟨p, -, h⟩ := bind_ok h
  have heq : ok' = ok ∧ root' = root := by
    simp only at h
    split_ifs at h
    · obtain ⟨u, -, h⟩ := bind_ok h
      cases h
      exact ⟨rfl, rfl⟩
    · cases h
      exact ⟨rfl, rfl⟩
  obtain ⟨rfl, rfl⟩ := heq
  obtain ⟨⟨token, r2⟩, htoken, hroot⟩ := readValue_root
    (show readValue libc (999 + 1) .nullValue _ = _ from hread)
  have hopens : opensObject doc = decide (token.type_ = .objectBegin) := by
    unfold opensObject Reader.start
    rw [htoken]
  rw [hopens]
  by_cases htype : token.type_ = .objectBegin
  · exact Or.inl ⟨by simp [htype], hroot.object htype⟩
  · exact Or.inr ⟨by simp [htype], hroot.other htype, hroot.failed htype⟩

end FaceDetection.Json
