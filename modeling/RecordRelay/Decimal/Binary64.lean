/-! The finite numbers of the IEEE 754 format binary64. The magnitudes of the format, counted from
zero upward, are numbered by their *rank*; every magnitude is a whole number of units of 2^-1074.
Arithmetic is exact in units and rounded once: `nearest` gives the rank closest to a quotient, and
of two that are equally close the even one. -/
namespace RecordRelay

/-- The number of magnitudes with one exponent, 2^52. -/
def Binary64.perExponent : Nat := 0x10000000000000

/-- The number of finite magnitudes: ranks from here on are beyond the largest finite number. -/
def Binary64.rankLimit : Nat := 2047 * perExponent

/-- A finite binary64 number: a sign and the rank of the magnitude. -/
structure Binary64 where
  negative : Bool
  rank : Nat
  rank_lt : rank < Binary64.rankLimit
  deriving DecidableEq

namespace Binary64

def zero : Binary64 := ⟨false, 0, by decide⟩

instance : Inhabited Binary64 := ⟨zero⟩

/-- The number of units of 2^-1074 in the magnitude of a rank. -/
def unitsOfRank (rank : Nat) : Nat :=
  if rank < perExponent then rank
  else (perExponent + rank % perExponent) <<< (rank / perExponent - 1)

def units (x : Binary64) : Nat := unitsOfRank x.rank

/-- The number of binary places after the point in a unit. -/
def unitPlaces : Nat := 1074

def unitsPerOne : Nat := 1 <<< unitPlaces

/-- The whole number nearest to a quotient, of two equally near ones the even one. -/
def roundHalfEven (num den : Nat) : Nat :=
  let q := num / den
  let r := num % den
  if 2 * r < den then q else if den < 2 * r then q + 1 else if q % 2 = 0 then q else q + 1

/-- The rank of the magnitude nearest to `num / den` units, of two equally near ones the even
one. It may lie beyond the last finite rank. -/
def nearestRank (num den : Nat) : Nat :=
  let scale := (num / den).log2 - 52
  scale * perExponent + roundHalfEven num (den <<< scale)

/-- The number of a sign nearest to `num / den` units, if the result is finite. -/
def nearest (negative : Bool) (num den : Nat) : Option Binary64 :=
  if h : nearestRank num den < rankLimit then some ⟨negative, nearestRank num den, h⟩ else none

def nearestOrZero (num den : Nat) : Binary64 := (nearest false num den).getD zero

def addMagnitudes (x y : Binary64) : Binary64 := nearestOrZero (x.units + y.units) 1

def scale (factor : Nat) (x : Binary64) : Binary64 := nearestOrZero (factor * x.units) 1

/-- A quotient of whole numbers whose denominator is a power of two, rounded once. -/
def ofRatio (num den : Nat) : Binary64 := nearestOrZero (num * unitsPerOne) den

/-- The number written as `digits * 10^exponent`, if it is within the finite range. Exponents
that settle the answer by themselves are answered without computing the power. -/
def ofDecimal (negative : Bool) (digits : Nat) (exponent : Int) : Option Binary64 :=
  if digits = 0 then some ⟨negative, 0, by decide⟩
  else if 310 < exponent then none
  else if digits.log2 + 1077 ≤ 3 * -exponent then some ⟨negative, 0, by decide⟩
  else nearest negative (digits * Nat.pow 10 exponent.toNat * unitsPerOne)
    (Nat.pow 10 (-exponent).toNat)

/-- The bits of a number, sign first. -/
def bits (x : Binary64) : Nat := (if x.negative then 0x8000000000000000 else 0) + x.rank

end Binary64

end RecordRelay
