import RecordRelay.Json.Basic
import RecordRelay.Text.Hexadecimal
import RecordRelay.Text.Utf8

/-! Readers take a value off the front of a byte string and return the rest. The grammar is strict:
the only blanks are space, tab, line feed and carriage return, texts must be well-formed UTF-8
without control characters or lone surrogates, and a number must lie within the binary64 range. A
document may nest no deeper than the reader is told. A value that is only skipped has to be well
formed as to its brackets and tokens, with no bound on its depth. -/
namespace RecordRelay.Json

/-- A reader of values of a type: the value at the front and what follows it. -/
abbrev Reader (α : Type) := List UInt8 → Option (α × List UInt8)

/-- The greatest depth of a document that stands alone. -/
def depthLimit : Nat := 127

namespace Reader

/-- The blanks between tokens. -/
def isBlankByte (b : UInt8) : Bool := b == 0x20 || b == 0x09 || b == 0x0A || b == 0x0D

/-- The bytes after any blanks. -/
def skipBlanks (bytes : List UInt8) : List UInt8 := bytes.dropWhile isBlankByte

/-- Takes one given byte, after any blanks. -/
def symbol (b : UInt8) : Reader Unit := fun bytes =>
  match skipBlanks bytes with
  | first :: rest => if first = b then some ((), rest) else none
  | [] => none

/-- Takes the bytes of a word as they are. -/
def word : List UInt8 → Reader Unit
  | [], bytes => some ((), bytes)
  | w :: ws, b :: bytes => if w = b then word ws bytes else none
  | _ :: _, [] => none

def isDigit (b : UInt8) : Bool := 0x30 ≤ b && b ≤ 0x39

def ofDigits (digits : List UInt8) : Nat :=
  digits.foldl (fun value b => 10 * value + (b.toNat - 48)) 0

/-- The fraction digits after a point, if there is one. -/
def fraction : Reader (List UInt8) := fun bytes =>
  match bytes with
  | 0x2E :: rest =>
    let (digits, rest) := rest.span isDigit
    if digits.isEmpty then none else some (digits, rest)
  | _ => some ([], bytes)

/-- The sign in front of an exponent and the bytes after it. -/
def exponentSign : List UInt8 → Bool × List UInt8
  | 0x2D :: rest => (true, rest)
  | 0x2B :: rest => (false, rest)
  | rest => (false, rest)

def exponent : Reader (Option Int) := fun bytes =>
  match bytes with
  | b :: rest =>
    if b = 0x65 ∨ b = 0x45 then
      let (negative, rest) := exponentSign rest
      let (digits, rest) := rest.span isDigit
      if digits.isEmpty then none
      else
        let value : Int := ofDigits digits
        some (some (if negative then -value else value), rest)
    else some (none, bytes)
  | [] => some (none, bytes)

/-- A whole number, as such where it fits the 64-bit ranges and as a float otherwise. A negative
zero is the float. -/
def wholeNumber (negative : Bool) (value : Nat) : Option Number :=
  let signed : Int := if negative then -(value : Int) else value
  if negative ∧ value = 0 then (Binary64.ofDecimal negative value 0).map .float
  else if h : -0x8000000000000000 ≤ signed ∧ signed < 0x10000000000000000 then
    some (.whole signed h)
  else (Binary64.ofDecimal negative value 0).map .float

/-- Whether there is a minus sign in front of a number, and the bytes after it. -/
def minusSign : List UInt8 → Bool × List UInt8
  | 0x2D :: rest => (true, rest)
  | rest => (false, rest)

/-- A number: no digit may follow a leading zero. -/
def number : Reader Number := fun bytes =>
  let (negative, bytes) := minusSign bytes
  let (whole, bytes) := bytes.span isDigit
  if whole.isEmpty || (1 < whole.length && whole.head? == some 0x30) then none
  else do
    let (part, bytes) ← fraction bytes
    let (scale, bytes) ← exponent bytes
    if part.isEmpty && scale.isNone then
      let value ← wholeNumber negative (ofDigits whole)
      return (value, bytes)
    else
      let value ← Binary64.ofDecimal negative (ofDigits (whole ++ part))
        (scale.getD 0 - part.length)
      return (.float value, bytes)

def codeUnit (a b c d : UInt8) : Option Nat :=
  Text.hexNumber? ([a, b, c, d].map fun digit => Char.ofNat digit.toNat)

/-- The byte that a single-letter escape stands for. -/
def escapedByte (letter : UInt8) : Option UInt8 :=
  if letter = 0x22 ∨ letter = 0x5C ∨ letter = 0x2F then some letter
  else if letter = 0x62 then some 0x08
  else if letter = 0x66 then some 0x0C
  else if letter = 0x6E then some 0x0A
  else if letter = 0x72 then some 0x0D
  else if letter = 0x74 then some 0x09
  else none

/-- The bytes of the text up to the closing quote, with the escapes resolved. -/
def textBytes : Reader (List UInt8)
  | [] => none
  | b :: rest =>
    if b = 0x22 then some ([], rest)
    else if b = 0x5C then
      match rest with
      | [] => none
      | letter :: rest =>
        if letter = 0x75 then
          match rest with
          | a :: b :: c :: d :: rest => do
            let unit ← codeUnit a b c d
            if 0xD800 ≤ unit && unit < 0xDC00 then
              match rest with
              | 0x5C :: 0x75 :: a :: b :: c :: d :: rest => do
                let low ← codeUnit a b c d
                if 0xDC00 ≤ low && low < 0xE000 then
                  let code := 0x10000 + (unit - 0xD800) * 0x400 + (low - 0xDC00)
                  let (text, rest) ← textBytes rest
                  return (String.utf8EncodeChar (Char.ofNat code) ++ text, rest)
                else none
              | _ => none
            else if 0xDC00 ≤ unit && unit < 0xE000 then none
            else
              let (text, rest) ← textBytes rest
              return (String.utf8EncodeChar (Char.ofNat unit) ++ text, rest)
          | _ => none
        else do
          let byte ← escapedByte letter
          let (text, rest) ← textBytes rest
          return (byte :: text, rest)
    else if b < 0x20 then none
    else do
      let (text, rest) ← textBytes rest
      return (b :: text, rest)

def text : Reader String := fun bytes => do
  let ((), bytes) ← symbol 0x22 bytes
  let (content, bytes) ← textBytes bytes
  let value ← Text.ofBytes? content
  return (value, bytes)

/-- One or more elements separated by commas, up to and with the closing byte. -/
def elements {α : Type} (close : UInt8) (element : Reader α) : (fuel : Nat) → Reader (List α)
  | 0, _ => none
  | fuel + 1, bytes => do
    let (first, bytes) ← element bytes
    match skipBlanks bytes with
    | b :: bytes =>
      if b = close then return ([first], bytes)
      else if b = 0x2C then
        let (others, bytes) ← elements close element fuel bytes
        return (first :: others, bytes)
      else none
    | [] => none

def bracketed {α : Type} (opening close : UInt8) (element : Reader α) : Reader (List α) :=
  fun bytes => do
    let ((), bytes) ← symbol opening bytes
    match skipBlanks bytes with
    | b :: rest =>
      if b = close then return ([], rest) else elements close element (b :: rest).length (b :: rest)
    | [] => none

def array {α : Type} (element : Reader α) : Reader (List α) := bracketed 0x5B 0x5D element

/-- A name with what a reader chosen by the name makes of its value. -/
def member {α : Type} (value : String → Reader α) : Reader α := fun bytes => do
  let (name, bytes) ← text bytes
  let ((), bytes) ← symbol 0x3A bytes
  value name bytes

def object {α : Type} (value : String → Reader α) : Reader (List α) :=
  bracketed 0x7B 0x7D (member value)

/-- An array of exactly three values of given types. -/
def triple {α β γ : Type} (first : Reader α) (second : Reader β) (third : Reader γ) :
    Reader (α × β × γ) := fun bytes => do
  let ((), bytes) ← symbol 0x5B bytes
  let (a, bytes) ← first bytes
  let ((), bytes) ← symbol 0x2C bytes
  let (b, bytes) ← second bytes
  let ((), bytes) ← symbol 0x2C bytes
  let (c, bytes) ← third bytes
  let ((), bytes) ← symbol 0x5D bytes
  return ((a, b, c), bytes)

def map {α β : Type} (f : α → β) (reader : Reader α) : Reader β := fun bytes =>
  (reader bytes).map fun (value, rest) => (f value, rest)

def scalar : Reader Json := fun bytes =>
  match skipBlanks bytes with
  | [] => none
  | b :: rest =>
    if b = 0x22 then map .string text (b :: rest)
    else if b = 0x6E then map (fun _ => .null) (word (Text.bytes "ull")) rest
    else if b = 0x74 then map (fun _ => .bool true) (word (Text.bytes "rue")) rest
    else if b = 0x66 then map (fun _ => .bool false) (word (Text.bytes "alse")) rest
    else map .number number (b :: rest)

def namedMember (value : Reader Json) (name : String) : Reader (String × Json) :=
  map (fun document => (name, document)) value

/-- A document of at most the given depth. -/
def document : (depth : Nat) → Reader Json
  | 0 => fun bytes =>
    match skipBlanks bytes with
    | b :: _ => if b = 0x5B ∨ b = 0x7B then none else scalar bytes
    | [] => none
  | depth + 1 => fun bytes =>
    match skipBlanks bytes with
    | b :: _ =>
      if b = 0x5B then map .array (array (document depth)) bytes
      else if b = 0x7B then
        map (fun pairs => .object (Fields.ofList pairs))
          (object (namedMember (document depth))) bytes
      else scalar bytes
    | [] => none

def fields : (depth : Nat) → Reader Fields
  | 0 => fun _ => none
  | depth + 1 => map Fields.ofList (object (namedMember (document depth)))

/-- The bytes after the closing quote of a text that is only skipped. -/
def skipTextBody : List UInt8 → Option (List UInt8)
  | [] => none
  | b :: rest =>
    if b = 0x22 then some rest
    else if b = 0x5C then
      match rest with
      | [] => none
      | letter :: rest =>
        if letter = 0x75 then
          match rest with
          | a :: b :: c :: d :: rest =>
            if (codeUnit a b c d).isSome then skipTextBody rest else none
          | _ => none
        else if (escapedByte letter).isSome then skipTextBody rest
        else none
    else if b < 0x20 then none
    else skipTextBody rest

/-- The bytes after a number that is only skipped: its size does not matter. -/
def skipNumber (bytes : List UInt8) : Option (List UInt8) := do
  let (whole, bytes) := (minusSign bytes).2.span isDigit
  if whole.isEmpty || (1 < whole.length && whole.head? == some 0x30) then none
  else
    let (_, bytes) ← fraction bytes
    let (_, bytes) ← exponent bytes
    return bytes

/-- The bytes after a value that is no array or object and is only skipped. -/
def skipScalar : List UInt8 → Option (List UInt8)
  | [] => none
  | b :: rest =>
    if b = 0x22 then skipTextBody rest
    else if b = 0x6E then (word (Text.bytes "ull") rest).map (·.2)
    else if b = 0x74 then (word (Text.bytes "rue") rest).map (·.2)
    else if b = 0x66 then (word (Text.bytes "alse") rest).map (·.2)
    else skipNumber (b :: rest)

def skipName (bytes : List UInt8) : Option (List UInt8) := do
  let ((), bytes) ← symbol 0x22 bytes
  let bytes ← skipTextBody bytes
  let ((), bytes) ← symbol 0x3A bytes
  return bytes

inductive Opened where
  | array
  | object
  deriving DecidableEq

def Opened.close : Opened → UInt8
  | array => 0x5D
  | object => 0x7D

/-- Goes on skipping inside the opened brackets, the innermost first: with `atValue` a value comes
next, and otherwise what follows a value. -/
def skipFrom : (fuel : Nat) → List Opened → (atValue : Bool) → List UInt8 → Option (List UInt8)
  | 0, _, _, _ => none
  | _ + 1, [], false, bytes => some bytes
  | fuel + 1, top :: stack, false, bytes =>
    match skipBlanks bytes with
    | [] => none
    | b :: rest =>
      if b = top.close then skipFrom fuel stack false rest
      else if b = 0x2C then
        match top with
        | .array => skipFrom fuel (top :: stack) true rest
        | .object => do
          let rest ← skipName rest
          skipFrom fuel (top :: stack) true rest
      else none
  | fuel + 1, stack, true, bytes =>
    match skipBlanks bytes with
    | [] => none
    | b :: rest =>
      if b = 0x5B then
        match skipBlanks rest with
        | 0x5D :: rest => skipFrom fuel stack false rest
        | rest => skipFrom fuel (.array :: stack) true rest
      else if b = 0x7B then
        match skipBlanks rest with
        | 0x7D :: rest => skipFrom fuel stack false rest
        | rest => do
          let rest ← skipName rest
          skipFrom fuel (.object :: stack) true rest
      else do
        let rest ← skipScalar (b :: rest)
        skipFrom fuel stack false rest

/-- Skips one well-formed value of any depth. -/
def skip : Reader Unit := fun bytes =>
  (skipFrom (2 * bytes.length + 2) [] true bytes).map fun rest => ((), rest)

/-- A reader's value when nothing but blanks follows it. -/
def whole {α : Type} (reader : Reader α) (bytes : List UInt8) : Option α := do
  let (value, rest) ← reader bytes
  if (skipBlanks rest).isEmpty then some value else none

end Reader

def ofBytes? (bytes : List UInt8) : Option Json := Reader.whole (Reader.document depthLimit) bytes

def ofText? (text : String) : Option Json := ofBytes? (Text.bytes text)

end RecordRelay.Json
