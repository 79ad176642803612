import RecordRelay.CompositeKey
import RecordRelay.Proofs.Text.Bytes

/-! The bytes of a value say where it ends, so the values of a key are read off its bytes one after
the other, whatever bytes they have. Only the keys without any present value have one byte form in
common, the empty one. -/
namespace RecordRelay.CompositeKey
open Text (bytes)

/-- A value whose length fits into the four bytes that its encoding has for it. -/
def Short (value : Option String) : Prop := ∀ text ∈ value, text.utf8ByteSize < 0x100000000

variable {value word : Option String} {rest after : List UInt8} {key other : CompositeKey}

theorem Short.length_bytes_lt {text : String} (h : Short (some text)) :
    (bytes text).length < 256 ^ 4 := by
  rw [Text.length_bytes]
  exact h text rfl

theorem encodeValue_ne_nil (value : Option String) : encodeValue value ≠ [] := by
  cases value <;> exact List.cons_ne_nil _ _

/-- The bytes of a short value determine it and where it ends. -/
theorem encodeValue_append_inj (hvalue : Short value) (hword : Short word)
    (h : encodeValue value ++ rest = encodeValue word ++ after) :
    value = word ∧ rest = after := by
  cases value with
  | none =>
    cases word with
    | none => exact ⟨rfl, List.tail_eq_of_cons_eq h⟩
    | some text => exact nomatch List.head_eq_of_cons_eq h
  | some text =>
    cases word with
    | none => exact nomatch List.head_eq_of_cons_eq h
    | some content =>
      simp only [encodeValue, List.cons_append, List.append_assoc] at h
      obtain ⟨hlengths, hbody⟩ := List.append_inj (List.tail_eq_of_cons_eq h) (by simp)
      -- The lengths agree, so both texts end at the same place.
      have hlength : (bytes text).length = (bytes content).length := by
        rw [← Text.ofLittleEndian_littleEndian hvalue.length_bytes_lt, hlengths,
          Text.ofLittleEndian_littleEndian hword.length_bytes_lt]
      obtain ⟨hsame, hrest⟩ := List.append_inj hbody hlength
      exact ⟨congrArg some (Text.bytes_injective hsame), hrest⟩

theorem flatMap_encodeValue_inj (hkey : ∀ value ∈ key, Short value)
    (hother : ∀ value ∈ other, Short value)
    (h : key.flatMap encodeValue = other.flatMap encodeValue) : key = other := by
  induction key generalizing other with
  | nil =>
    cases other with
    | nil => rfl
    | cons word other => exact absurd (List.append_eq_nil_iff.mp h.symm).1 (encodeValue_ne_nil word)
  | cons value key ih =>
    cases other with
    | nil => exact absurd (List.append_eq_nil_iff.mp h).1 (encodeValue_ne_nil value)
    | cons word other =>
      obtain ⟨hvalue, hrest⟩ := List.forall_mem_cons.mp hkey
      obtain ⟨hword, hafter⟩ := List.forall_mem_cons.mp hother
      obtain ⟨rfl, htail⟩ := encodeValue_append_inj hvalue hword h
      exact congrArg (value :: ·) (ih hrest hafter htail)

/-- No value of a key is present. -/
def Absent (key : CompositeKey) : Prop := ∀ value ∈ key, value = none

theorem all_isNone_iff : key.all Option.isNone = true ↔ key.Absent := by
  simp [Absent, List.all_eq_true]

theorem encode_of_absent (h : key.Absent) : encode key = [] := by
  rw [encode, if_pos (all_isNone_iff.mpr h)]

theorem encode_of_not_absent (h : ¬ key.Absent) : encode key = key.flatMap encodeValue := by
  rw [encode, if_neg (mt all_isNone_iff.mp h)]

theorem encode_eq_nil_iff : encode key = [] ↔ key.Absent := by
  refine ⟨fun h => ?_, encode_of_absent⟩
  by_contra hpresent
  rw [encode_of_not_absent hpresent, List.flatMap_eq_nil_iff] at h
  refine hpresent fun value hvalue => ?_
  exact absurd (h value hvalue) (encodeValue_ne_nil value)

/-- Two keys have the same bytes only if they are the same or both have no present value, and the
bytes of a key are empty only if it has none. -/
theorem encode_unambiguous (hkey : ∀ value ∈ key, Short value)
    (hother : ∀ value ∈ other, Short value) :
    (encode key = encode other ↔ key = other ∨ key.Absent ∧ other.Absent)
      ∧ (encode key = [] ↔ key.Absent) := by
  refine ⟨⟨fun h => ?_, ?_⟩, encode_eq_nil_iff⟩
  · by_cases habsent : key.Absent
    · rw [encode_of_absent habsent] at h
      exact .inr ⟨habsent, encode_eq_nil_iff.mp h.symm⟩
    · have hpresent : ¬ other.Absent := by
        rwa [← encode_eq_nil_iff, ← h, encode_eq_nil_iff]
      rw [encode_of_not_absent habsent, encode_of_not_absent hpresent] at h
      exact .inl (flatMap_encodeValue_inj hkey hother h)
  · rintro (rfl | ⟨habsent, hnone⟩)
    · rfl
    · rw [encode_of_absent habsent, encode_of_absent hnone]

/-- A zero byte at the end of a value is not taken for a missing value that follows it. -/
theorem encode_unambiguous_zero :
    encode [some "a\x00", none] ≠ encode [some "a", none, none]
      ∧ encode [some "a\x00", none] ≠ [] := by
  have hpresent : ¬ Absent [some "a\x00", none] := by simp [Absent]
  obtain ⟨hsame, hempty⟩ :=
    @encode_unambiguous [some "a\x00", none] [some "a", none, none]
      (by simp only [Short]; decide) (by simp only [Short]; decide)
  exact ⟨fun h => by simpa [hpresent] using hsame.mp h, mt hempty.mp hpresent⟩

end RecordRelay.CompositeKey
