import RecordRelay.CompositeKey
import RecordRelay.Text.Blank
import RecordRelay.Text.Split

/-! The values of identification keys, written `field=value`, or `field` alone for a missing value.
The fields come out in order, without blanks around them; values stay as they are. -/
namespace RecordRelay

inductive KeyError where
  /-- An argument has nothing but blanks before its equals sign. -/
  | noField (argument : String)
  /-- Two arguments name one field. -/
  | repeatedField (field : String)
  deriving DecidableEq, Repr

def KeyError.message : KeyError → String
  | noField argument => s!"key '{argument}' has no field name"
  | repeatedField field => s!"field '{field}' given more than once"

namespace KeyArguments

def split (argument : String) : String × Option String :=
  match Text.splitAtFirst? '=' argument.toList with
  | some (field, value) => (Text.trim (String.ofList field), some (String.ofList value))
  | none => (Text.trim argument, none)

/-- Fields in order with one more field in its place. -/
def insert (field : String) (value : Option String) :
    List (String × Option String) → List (String × Option String)
  | [] => [(field, value)]
  | (other, old) :: rest =>
    if field < other then (field, value) :: (other, old) :: rest
    else (other, old) :: insert field value rest

def add (fields : List (String × Option String)) (argument : String) :
    Except KeyError (List (String × Option String)) :=
  let (field, value) := split argument
  if field.isEmpty then .error (.noField argument)
  else if (fields.map (·.1)).contains field then .error (.repeatedField field)
  else .ok (insert field value fields)

/-- The fields and values of arguments. -/
def parse (arguments : List String) : Except KeyError (List (String × Option String)) :=
  arguments.foldlM add []

def compositeKey (arguments : List String) : Except KeyError CompositeKey :=
  (parse arguments).map fun fields => fields.map (·.2)

end KeyArguments

end RecordRelay
