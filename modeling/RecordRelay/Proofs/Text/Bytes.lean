import Mathlib
import RecordRelay.Text.Utf8

/-! The bytes of texts put together are the bytes of the texts, one after the other, and a text is
read back from its own bytes. A character below U+0080 is one byte, and in all other characters
every byte is 0x80 or greater. A number is read back from its bytes if there are enough of them. -/
namespace RecordRelay.Text

theorem bytes_append (s t : String) : bytes (s ++ t) = bytes s ++ bytes t := by
  simp [bytes]

theorem bytes_ofList (cs : List Char) :
    bytes (String.ofList cs) = cs.flatMap String.utf8EncodeChar := by
  simp [bytes, List.utf8Encode]

theorem bytes_eq (text : String) : bytes text = text.toList.flatMap String.utf8EncodeChar := by
  rw [← bytes_ofList, String.ofList_toList]

theorem ofBytes?_bytes (text : String) : ofBytes? (bytes text) = some text := by
  have h : (⟨(bytes text).toArray⟩ : ByteArray) = text.toUTF8 := by simp [bytes]
  rw [ofBytes?, h]
  exact dif_pos text.isValidUTF8

/-- Different texts have different bytes. -/
theorem bytes_injective : Function.Injective bytes := by
  intro s t h
  rw [← Option.some_inj, ← ofBytes?_bytes, ← ofBytes?_bytes, h]

theorem length_bytes (text : String) : (bytes text).length = text.utf8ByteSize := by
  simp [bytes]

theorem ofLittleEndian_littleEndian {count value : Nat} (h : value < 256 ^ count) :
    ofLittleEndian (littleEndian count value) = value := by
  induction count generalizing value with
  | zero => exact (Nat.lt_one_iff.mp h).symm
  | succ count ih =>
    have hrest : value / 256 < 256 ^ count := by
      rwa [Nat.div_lt_iff_lt_mul (by decide), ← Nat.pow_succ]
    rw [littleEndian, ofLittleEndian, ih hrest, UInt8.toNat_ofNat']
    exact Nat.mod_add_div value 256

theorem utf8EncodeChar_of_lt {c : Char} (h : c.toNat < 128) :
    String.utf8EncodeChar c = [UInt8.ofNat c.toNat] := by
  have hc : c.val.toNat ≤ 0x7f := Nat.le_of_lt_succ h
  simp only [String.utf8EncodeChar, if_pos hc]
  rfl

theorem le_of_mem_utf8EncodeChar {c : Char} (h : 128 ≤ c.toNat) {b : UInt8}
    (hb : b ∈ String.utf8EncodeChar c) : 128 ≤ b.toNat := by
  have hc : ¬ c.val.toNat ≤ 0x7f := Nat.not_le.mpr h
  simp only [String.utf8EncodeChar, if_neg hc] at hb
  have tail (n : Nat) : 128 ≤ (UInt8.ofNat (n % 0x40 + 0x80)).toNat := by
    rw [UInt8.toNat_ofNat']
    omega
  split at hb
  · rcases List.mem_cons.mp hb with rfl | hb
    · rw [UInt8.toNat_ofNat']
      omega
    · rw [List.mem_singleton.mp hb]
      exact tail _
  · split at hb
    · rcases List.mem_cons.mp hb with rfl | hb
      · rw [UInt8.toNat_ofNat']
        omega
      · simp only [List.mem_cons, List.not_mem_nil, or_false] at hb
        rcases hb with rfl | rfl <;> exact tail _
    · rcases List.mem_cons.mp hb with rfl | hb
      · rw [UInt8.toNat_ofNat']
        omega
      · simp only [List.mem_cons, List.not_mem_nil, or_false] at hb
        rcases hb with rfl | rfl | rfl <;> exact tail _

end RecordRelay.Text
