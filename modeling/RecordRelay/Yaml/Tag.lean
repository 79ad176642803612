import RecordRelay.Text.Utf8
import RecordRelay.Yaml.Scalar

/-! A tag says what kind of value a node is. It is written in full between angle brackets, or as a
handle, which stands for the first part of the tag, and a suffix. A directive in front of a document
declares the version of the language or what a handle stands for. -/
namespace RecordRelay.Yaml

/-- A tag as it is written: the handle and what follows it. A tag in full has no handle. -/
structure TagText where
  handle : List Char
  suffix : List Char

/-- Characters of a tag. Commas and brackets only belong to those in full and in directives. -/
def isTagChar (isFull : Bool) (c : Char) : Bool :=
  isNameChar c || ";/?:@&=+$.%!~*'()".toList.contains c
    || (isFull && (c == ',' || c == '[' || c == ']'))

/-- Reads one byte written as a percent sign and two hexadecimal digits. -/
def percentByte (c : Cursor) : Option (UInt8 × Cursor) := do
  if !c.at? '%' then none
  let digits := (c.rest.drop 1).take 2
  if digits.length < 2 then none
  return ((← Text.hexNumber? digits).toUInt8, c.advance 3)

/-- The number of bytes of the character that starts with a byte. -/
def characterWidth? (byte : UInt8) : Option Nat :=
  if byte < 0x80 then some 1
  else if byte &&& 0xE0 = 0xC0 then some 2
  else if byte &&& 0xF0 = 0xE0 then some 3
  else if byte &&& 0xF8 = 0xF0 then some 4
  else none

/-- Reads further bytes of a character. -/
def furtherBytes : Nat → Cursor → Option (List UInt8 × Cursor)
  | 0, c => some ([], c)
  | count + 1, c => do
    let (byte, c) ← percentByte c
    if byte &&& 0xC0 ≠ 0x80 then none
    let (bytes, c) ← furtherBytes count c
    return (byte :: bytes, c)

/-- Reads a character written byte by byte. Bytes that make no character stand for the one that
replaces what cannot be read. -/
def percentCharacter (c : Cursor) : Option (List Char × Cursor) := do
  let (first, c) ← percentByte c
  let (others, c) ← furtherBytes ((← characterWidth? first) - 1) c
  return (((Text.ofBytes? (first :: others)).map String.toList).getD ['\uFFFD'], c)

/-- Reads one character of a tag. -/
def tagTurn (isFull : Bool) (text : List Char) (c : Cursor) : Option (Turn (List Char)) :=
  match c.rest with
  | [] => some (.done text c)
  | ch :: _ =>
    if !isTagChar isFull ch then some (.done text c)
    else if ch = '%' then (percentCharacter c).map fun (chars, next) => .again (text ++ chars) next
    else some (.again (text ++ [ch]) (c.advance 1))

def tagChars (isFull : Bool) (c : Cursor) : Option (List Char × Cursor) :=
  scan (tagTurn isFull) [] c

def someTagChars (isFull : Bool) (c : Cursor) : Option (List Char × Cursor) := do
  let (text, c) ← tagChars isFull c
  if text.isEmpty then none else return (text, c)

/-- Reads an exclamation mark, the name behind it and the mark that may close it. -/
def tagHandle (c : Cursor) : Option (List Char × Cursor) := do
  if !c.at? '!' then none
  let (name, c) := (c.advance 1).takeWhile isNameChar
  if c.at? '!' then return ('!' :: (name ++ ['!']), c.advance 1) else return ('!' :: name, c)

/-- A handle of more than one mark is closed by a mark. -/
def isClosedHandle (handle : List Char) : Bool := 1 < handle.length && handle.getLast? = some '!'

/-- Reads a tag in either form. -/
def tagText (c : Cursor) : Option (TagText × Cursor) := do
  if c.peek 1 = some '<' then
    let (text, c) ← someTagChars true (c.advance 2)
    if c.at? '>' then return (⟨[], text⟩, c.advance 1) else none
  else
    let (handle, c) ← tagHandle c
    if isClosedHandle handle then
      let (suffix, c) ← someTagChars false c
      return (⟨handle, suffix⟩, c)
    else
      let (more, c) ← tagChars false c
      let suffix := handle.drop 1 ++ more
      return (if suffix.isEmpty then ⟨[], ['!']⟩ else ⟨['!'], suffix⟩, c)

/-- Reads a tag, which ends with the word or, inside brackets, at a comma. -/
def tag (inFlow : Bool) (c : Cursor) : Option (TagText × Cursor) := do
  let (text, c) ← tagText c
  if (inFlow && c.at? ',') || c.endsWordAt 0 then return (text, c) else none

inductive Directive where
  | version (major minor : Nat)
  /-- A handle stands for the first part of tags. -/
  | handle (handle stem : List Char)

/-- Reads a number of at most nine digits. -/
def versionNumber (c : Cursor) : Option (Nat × Cursor) :=
  let (digits, next) := c.takeWhile Char.isDigit
  if digits.isEmpty || 9 < digits.length then none
  else some (digits.foldl (fun value d => value * 10 + (d.toNat - 48)) 0, next)

def versionDirective (c : Cursor) : Option (Directive × Cursor) := do
  let (major, c) ← versionNumber (c.skipWhile isBlank)
  if !c.at? '.' then none
  let (minor, c) ← versionNumber (c.advance 1)
  return (.version major minor, c)

/-- Reads a handle and what it stands for. -/
def handleDirective (c : Cursor) : Option (Directive × Cursor) := do
  let (handle, c) ← tagHandle (c.skipWhile isBlank)
  if !isClosedHandle handle && handle ≠ ['!'] then none
  if !(c.rest.head?.map isBlank).getD false then none
  let (stem, c) ← someTagChars true (c.skipWhile isBlank)
  if !c.endsWordAt 0 then none
  return (.handle handle stem, c)

/-- Reads a line with a directive, behind its percent sign. -/
def directive (c : Cursor) : Option (Directive × Cursor) := do
  let (name, c) := c.takeWhile isNameChar
  if name.isEmpty || !c.endsWordAt 0 then none
  let (result, c) ←
    if name = "YAML".toList then versionDirective c
    else if name = "TAG".toList then handleDirective c
    else none
  return (result, ← c.skipLine?)

end RecordRelay.Yaml
