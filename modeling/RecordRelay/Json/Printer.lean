import RecordRelay.Decimal.Shortest
import RecordRelay.Json.Basic
import RecordRelay.Text.Hexadecimal

/-! The text of a document without blanks. Quotes, backslashes and the characters below U+0020 are
escaped, all others stand as they are. Floats have the fewest digits that read back: they are
written positionally when the exponent of the first digit is from -5 to 15, with at least one digit
after the point, and otherwise in scientific notation with a signed exponent. -/
namespace RecordRelay.Json

/-- The text of a character inside quotes. -/
def escape (c : Char) : List Char :=
  if c = '"' then ['\\', '"']
  else if c = '\\' then ['\\', '\\']
  else if c = '\x08' then ['\\', 'b']
  else if c = '\t' then ['\\', 't']
  else if c = '\n' then ['\\', 'n']
  else if c = '\x0c' then ['\\', 'f']
  else if c = '\r' then ['\\', 'r']
  else if c.toNat < 0x20 then '\\' :: 'u' :: Text.hexDigits 4 c.toNat
  else [c]

def quote (text : String) : String :=
  String.ofList ('"' :: (text.toList.flatMap escape ++ ['"']))

namespace Number

/-- The least and the greatest exponent of the first digit that is written positionally. -/
def positional (exponent : Int) : Bool := -5 ≤ exponent && exponent ≤ 15

/-- The digits of a decimal as they are laid out, given the exponent of the first one. -/
def layout (digits : String) (first : Int) : String :=
  let cs := digits.toList
  if positional first then
    if first < 0 then
      "0." ++ String.ofList (List.replicate (-first - 1).toNat '0') ++ digits
    else
      let whole := first.toNat + 1
      let front := cs.take whole ++ List.replicate (whole - cs.length) '0'
      let back := cs.drop whole
      String.ofList front ++ "." ++ (if back.isEmpty then "0" else String.ofList back)
  else
    let mantissa := if cs.length ≤ 1 then digits
      else String.ofList (cs.take 1) ++ "." ++ String.ofList (cs.drop 1)
    mantissa ++ (if first < 0 then "e-" else "e+") ++ first.natAbs.repr

def renderFloat (x : Binary64) : String :=
  let sign := if x.negative then "-" else ""
  if x.rank = 0 then sign ++ "0.0"
  else
    let d := Decimal.stripZeros 800 (Decimal.shortest x)
    let digits := d.digits.repr
    sign ++ layout digits (d.exponent + (digits.length : Int) - 1)

def renderWhole (value : Int) : String :=
  if value < 0 then "-" ++ value.natAbs.repr else value.natAbs.repr

def render : Number → String
  | whole value _ => renderWhole value
  | float value => renderFloat value

end Number

mutual

/-- The compact text of a document. -/
def render : Json → String
  | null => "null"
  | bool true => "true"
  | bool false => "false"
  | number value => value.render
  | string value => quote value
  | array items => "[" ++ renderItems items ++ "]"
  | object fields => "\x7b" ++ renderFields fields ++ "\x7d"

def renderItems : List Json → String
  | [] => ""
  | [item] => item.render
  | item :: rest => item.render ++ "," ++ renderItems rest

def renderFields : List (String × Json) → String
  | [] => ""
  | [(name, value)] => quote name ++ ":" ++ value.render
  | (name, value) :: rest => quote name ++ ":" ++ value.render ++ "," ++ renderFields rest

end

end RecordRelay.Json
