/-! Byte strings are lists of bytes. A text has one byte form, its UTF-8 encoding, and a byte string
is a text exactly when it is well-formed UTF-8. -/
namespace RecordRelay.Text

def bytes (text : String) : List UInt8 := text.toUTF8.data.toList

/-- The text with the given UTF-8 bytes, if they are well formed. -/
def ofBytes? (bytes : List UInt8) : Option String := String.fromUTF8? ⟨bytes.toArray⟩

/-- A number as `count` bytes, the least significant first. -/
def littleEndian : (count : Nat) → Nat → List UInt8
  | 0, _ => []
  | count + 1, value => UInt8.ofNat value :: littleEndian count (value / 256)

/-- The number whose bytes are given, the least significant first. -/
def ofLittleEndian : List UInt8 → Nat
  | [] => 0
  | byte :: rest => byte.toNat + 256 * ofLittleEndian rest

@[simp] theorem length_littleEndian (count value : Nat) :
    (littleEndian count value).length = count := by
  induction count generalizing value with
  | zero => rfl
  | succ count ih => simp [littleEndian, ih]

end RecordRelay.Text
