import FaceDetection.Cxx

/-!
# `Json::Value`

The part of `json_value.cpp` that the service reaches. Offsets and comments of a value are left
out: nothing reads them back. Both maps of the C++ union are lists here: an array holds the
indices `0` to `n - 1`, and an object keeps its members in the order of its keys.
-/

namespace FaceDetection.Json

/-- The longest string a value holds: `maxInt - sizeof(unsigned) - 1`. -/
def maxStringLength : Nat := 2147483647 - 4 - 1

/-- The bytes of a prefixed string. -/
abbrev PrefixedString := {s : Bytes // s.length ≤ maxStringLength}

/-- `Double` stands for the C++ type `double`. -/
inductive Value (Double : Type) where
  | nullValue
  | intValue (int_ : Int64)
  | uintValue (uint_ : UInt64)
  | realValue (real_ : Double)
  | stringValue (string_ : PrefixedString)
  | booleanValue (bool_ : Bool)
  | arrayValue (elements : List (Value Double))
  | objectValue (members : List (Bytes × Value Double))

/-- The C library calls on `double`. `sscanf` is `sscanf(s, "%lf", &value)`, which returns a count
of 1 or fails, and `snprintf` is `snprintf(.., "%.17g", value)`: a sign, 17 digits, a point and an
exponent of at most five characters. -/
structure LibC (Double : Type) where
  sscanf : Bytes → Option Double
  isfinite : Double → Bool
  isnan : Double → Bool
  isNegative : Double → Bool
  snprintf : Double → Bytes
  snprintf_length : ∀ d, (snprintf d).length ≤ 24

/-- The library as a text without fractions, exponents or large numbers sees it. -/
def LibC.integersOnly : LibC Empty where
  sscanf _ := none
  isfinite _ := true
  isnan _ := false
  isNegative _ := false
  snprintf _ := []
  snprintf_length _ := by simp

variable {Double : Type}

/-! ## Strings -/

/-- `duplicateAndPrefixStringValue`: the length is an `unsigned`, so it is cut to 32 bits first. -/
def duplicateAndPrefixStringValue (value : Bytes) : Except Fault PrefixedString :=
  let length := toUnsigned value.length
  if h : length ≤ maxStringLength then
    .ok ⟨value.take length, by simp; omega⟩
  else
    .error (.logicError
      "in Json::Value::duplicateAndPrefixStringValue(): length too big for prefixing")

/-- `Value(const String&)`. -/
def Value.ofString (value : Bytes) : Except Fault (Value Double) :=
  (duplicateAndPrefixStringValue value).map .stringValue

theorem duplicateAndPrefixStringValue_ok (value : Bytes) (h : value.length ≤ maxStringLength) :
    duplicateAndPrefixStringValue value = .ok ⟨value, h⟩ := by
  have hlen : toUnsigned value.length = value.length :=
    toUnsigned_of_lt _ (by simp only [maxStringLength] at h; omega)
  simp only [duplicateAndPrefixStringValue, hlen, dif_pos h, List.take_length]

@[simp]
theorem Value.ofString_ok (value : Bytes) (h : value.length ≤ maxStringLength) :
    (Value.ofString value : Except Fault (Value Double)) = .ok (.stringValue ⟨value, h⟩) := by
  rw [Value.ofString, duplicateAndPrefixStringValue_ok value h]; rfl

/-! ## Numbers as text -/

/-- `valueToString(LargestInt)`. -/
def valueToStringInt (value : Int64) : Bytes :=
  if value = Int64.minValue then
    ch '-' :: uintToString (2 ^ 63 - 1 + 1)
  else if value < 0 then
    ch '-' :: uintToString (-value).toInt.toNat
  else
    uintToString value.toInt.toNat

/-- `valueToString(LargestUInt)`. -/
def valueToStringUInt (value : UInt64) : Bytes := uintToString value.toNat

/-- `valueToString(double)` with 17 significant digits and no special floats. -/
def valueToStringReal (libc : LibC Double) (value : Double) : Bytes :=
  if !libc.isfinite value then
    if libc.isnan value then ascii "null"
    else if libc.isNegative value then ascii "-1e+9999"
    else ascii "1e+9999"
  else
    -- `fixNumericLocale`
    let buffer := (libc.snprintf value).map fun c => if c = ch ',' then ch '.' else c
    if ch '.' ∉ buffer ∧ ch 'e' ∉ buffer then buffer ++ ascii ".0" else buffer

def valueToStringBool (value : Bool) : Bytes := if value then ascii "true" else ascii "false"

/-! ## Reading a value -/

def Value.isNull : Value Double → Bool
  | .nullValue => true
  | _ => false

def Value.asString (libc : LibC Double) : Value Double → Except Fault Bytes
  | .nullValue => .ok []
  | .stringValue string_ => .ok string_.val
  | .booleanValue bool_ => .ok (valueToStringBool bool_)
  | .intValue int_ => .ok (valueToStringInt int_)
  | .uintValue uint_ => .ok (valueToStringUInt uint_)
  | .realValue real_ => .ok (valueToStringReal libc real_)
  | .arrayValue _ | .objectValue _ => .error (.logicError "Type is not convertible to string")

/-! ## Members

`CZString::operator<` compares the common length with `memcmp`, then the lengths. That is the
lexicographic order of the bytes.
-/

/-- `value_.map_->find(key)`. -/
def findMember (key : Bytes) : List (Bytes × Value Double) → Option (Value Double)
  | [] => none
  | (k, v) :: rest => if k = key then some v else findMember key rest

/-- Stores `value` under `key`, at the place the order of the keys gives it. -/
def setMember (key : Bytes) (value : Value Double) :
    List (Bytes × Value Double) → List (Bytes × Value Double)
  | [] => [(key, value)]
  | (k, v) :: rest =>
    if k = key then (k, value) :: rest
    else if key < k then (key, value) :: (k, v) :: rest
    else (k, v) :: setMember key value rest

/-- `Value::find`. -/
def Value.find (key : Bytes) : Value Double → Except Fault (Option (Value Double))
  | .nullValue => .ok none
  | .objectValue members => .ok (findMember key members)
  | _ => .error (.logicError
      "in Json::Value::find(begin, end): requires objectValue or nullValue")

/-- `operator[](const char*) const`. -/
def Value.member (key : Bytes) (value : Value Double) : Except Fault (Value Double) :=
  (value.find key).map fun found => found.getD .nullValue

end FaceDetection.Json
