import RecordRelay.Decimal.Binary64

/-! A document is null, a truth value, a number, a text, an array or an object. Whole numbers of the
64-bit ranges stay whole; every other number is a binary64 number. The fields of an object are kept
in the order of their names; looking a name up and setting it need no more than that. -/
namespace RecordRelay

inductive Json.Number where
  /-- A whole number of the signed or unsigned 64-bit range. -/
  | whole (value : Int) (inRange : -0x8000000000000000 ≤ value ∧ value < 0x10000000000000000)
  /-- Any other number. -/
  | float (value : Binary64)
  deriving DecidableEq

inductive Json where
  | null
  | bool (value : Bool)
  | number (value : Json.Number)
  | string (value : String)
  | array (items : List Json)
  | object (fields : List (String × Json))
  deriving Inhabited

namespace Json

abbrev Fields := List (String × Json)

namespace Fields

def get? (name : String) : Fields → Option Json
  | [] => none
  | (other, value) :: rest => if name = other then some value else get? name rest

/-- The fields with a name set to a value: a present field keeps its place, and a new one goes
before the first name that is greater. -/
def set (name : String) (value : Json) : Fields → Fields
  | [] => [(name, value)]
  | (other, old) :: rest =>
    if name = other then (name, value) :: rest
    else if name < other then (name, value) :: (other, old) :: rest
    else (other, old) :: set name value rest

def erase (name : String) (fields : Fields) : Fields := fields.filter (·.1 ≠ name)

/-- The fields written one after the other: the last value of a name wins. -/
def ofList (pairs : List (String × Json)) : Fields :=
  pairs.foldl (fun fields pair => set pair.1 pair.2 fields) []

@[simp] theorem get?_set (fields : Fields) (name other : String) (value : Json) :
    get? other (set name value fields) =
      if other = name then some value else get? other fields := by
  fun_induction set name value fields <;> grind [get?]

end Fields

def fields? : Json → Option Fields
  | object fields => some fields
  | _ => none

def isObject : Json → Bool
  | object _ => true
  | _ => false

mutual

/-- How many arrays and objects lie inside each other in a document. -/
def depth : Json → Nat
  | array items => depthItems items + 1
  | object fields => depthFields fields + 1
  | _ => 0

def depthItems : List Json → Nat
  | [] => 0
  | item :: rest => Nat.max item.depth (depthItems rest)

def depthFields : List (String × Json) → Nat
  | [] => 0
  | (_, value) :: rest => Nat.max value.depth (depthFields rest)

end

end Json

end RecordRelay
