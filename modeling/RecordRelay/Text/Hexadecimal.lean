/-! Fixed-width lower case hexadecimal digits, most significant first: the written form of ring
tokens and node identifiers. A number that needs more digits than the width keeps its low ones.
Numbers are read from digits of either case, also in smaller bases. -/
namespace RecordRelay.Text

def hexDigit (value : Nat) : Char :=
  if value < 10 then Char.ofNat (48 + value) else Char.ofNat (87 + value)

def hexDigits : (width : Nat) → Nat → List Char
  | 0, _ => []
  | width + 1, value => hexDigits width (value / 16) ++ [hexDigit (value % 16)]

/-- A number in `width` hexadecimal digits, padded with zeros. -/
def hexadecimal (width value : Nat) : String := String.ofList (hexDigits width value)

@[simp] theorem length_hexDigits (width value : Nat) : (hexDigits width value).length = width := by
  induction width generalizing value with
  | zero => rfl
  | succ width ih => simp [hexDigits, ih]

/-- The value of one hexadecimal digit of either case. -/
def hexValue? (c : Char) : Option Nat :=
  if '0' ≤ c ∧ c ≤ '9' then some (c.toNat - 48)
  else if 'a' ≤ c ∧ c ≤ 'f' then some (c.toNat - 87)
  else if 'A' ≤ c ∧ c ≤ 'F' then some (c.toNat - 55)
  else none

/-- The value of a digit in a base of at most sixteen. -/
def digitValue? (base : Nat) (c : Char) : Option Nat := (hexValue? c).filter (· < base)

/-- The number written by a non-empty run of digits in a base of at most sixteen. -/
def number? (base : Nat) (digits : List Char) : Option Nat :=
  if digits.isEmpty then none
  else digits.foldlM (fun value c => (digitValue? base c).map (base * value + ·)) 0

/-- The number written by a non-empty run of hexadecimal digits. -/
def hexNumber? (digits : List Char) : Option Nat := number? 16 digits

end RecordRelay.Text
