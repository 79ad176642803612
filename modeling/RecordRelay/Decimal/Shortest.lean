import RecordRelay.Decimal.Binary64

/-! The decimal with the fewest digits that reads back as a given binary64 number. For each count of
digits from 1 to 17 the two neighbours of the number on the grid of that many digits are read back;
the first grid with a hit wins, and of two hits the nearer one, a tie going to the even digits. The
result reads back as the number it was made from, because nothing else is chosen. -/
namespace RecordRelay

/-- A decimal number `digits * 10^exponent`. -/
structure Decimal where
  digits : Nat
  exponent : Int
  deriving DecidableEq, Repr

namespace Decimal
open Binary64

def exactDecimal (x : Binary64) : Decimal := ⟨x.units * Nat.pow 5 unitPlaces, -(unitPlaces : Int)⟩

/-- A decimal reads back as a number when reading it with the number's sign gives the number. -/
def readsAs (x : Binary64) (d : Decimal) : Bool :=
  Binary64.ofDecimal x.negative d.digits d.exponent = some x

/-- The decimal exponent of the first digit of a magnitude that is not zero. -/
def leadingExponent (x : Binary64) : Int :=
  ((x.units * Nat.pow 10 340 / unitsPerOne).repr.length : Int) - 341

/-- The neighbours of a magnitude among the multiples of `10^exponent`, the preferred one first:
the nearer, and of two equally near ones the even one. -/
def neighbours (x : Binary64) (exponent : Int) : List Decimal :=
  let num := x.units * Nat.pow 10 (-exponent).toNat
  let den := unitsPerOne * Nat.pow 10 exponent.toNat
  let below : Decimal := ⟨num / den, exponent⟩
  let above : Decimal := ⟨num / den + 1, exponent⟩
  if roundHalfEven num den = num / den then [below, above] else [above, below]

/-- A decimal without zeros at the end of its digits. -/
def stripZeros : (fuel : Nat) → Decimal → Decimal
  | 0, d => d
  | fuel + 1, d =>
    if d.digits % 10 = 0 ∧ d.digits ≠ 0 then stripZeros fuel ⟨d.digits / 10, d.exponent + 1⟩
    else d

/-- The first decimal among the neighbours on the grids of 1 to 17 digits that reads back. -/
def shortest? (x : Binary64) : Option Decimal :=
  let first := leadingExponent x
  ((List.range 17).flatMap fun (n : Nat) => neighbours x (first - n)).find? (readsAs x)

/-- The decimal with the fewest digits that reads back as `x`. -/
def shortest (x : Binary64) : Decimal := (shortest? x).getD (exactDecimal x)

end Decimal

end RecordRelay
