/-! A duration is shown in the largest unit of seconds, milliseconds, microseconds and nanoseconds
that it reaches, with the digits of smaller units behind a point and no zeros at the end. -/
namespace RecordRelay

/-- A length of time, or a point in time counted from a common start, in nanoseconds. -/
abbrev Nanoseconds := Nat

namespace Text

def ofMilliseconds (ms : Nat) : Nanoseconds := ms * 1000000

/-- The digits behind the point of a remainder, which has `width` digits when written in full. -/
def fractionDigits (width remainder : Nat) : List Char :=
  let digits := remainder.repr.toList
  let padded := List.replicate (width - digits.length) '0' ++ digits
  (padded.reverse.dropWhile (· = '0')).reverse

/-- A number of nanoseconds in a unit of `10^width` nanoseconds. -/
def inUnit (width : Nat) (unitName : String) (duration : Nanoseconds) : String :=
  let fraction := fractionDigits width (duration % Nat.pow 10 width)
  (duration / Nat.pow 10 width).repr
    ++ (if fraction.isEmpty then "" else "." ++ String.ofList fraction)
    ++ unitName

def duration (d : Nanoseconds) : String :=
  if 1000000000 ≤ d then inUnit 9 "s" d
  else if 1000000 ≤ d then inUnit 6 "ms" d
  else if 1000 ≤ d then inUnit 3 "µs" d
  else inUnit 0 "ns" d

end Text

end RecordRelay
