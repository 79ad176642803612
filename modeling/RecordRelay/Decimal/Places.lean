import RecordRelay.Decimal.Binary64

/-! A binary64 number with a fixed number of places behind the point, rounded once from its exact
value; a half goes to the even neighbour. -/
namespace RecordRelay.Binary64

/-- The magnitude of a number with two places. -/
def twoPlaces (x : Binary64) : String :=
  let hundredths := roundHalfEven (x.units * 100) unitsPerOne
  let places := (hundredths % 100).repr
  (hundredths / 100).repr ++ "." ++ (if places.length < 2 then "0" ++ places else places)

end RecordRelay.Binary64
