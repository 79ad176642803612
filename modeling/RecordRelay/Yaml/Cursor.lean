/-! A cursor is a place in a text: what follows it, and its distance from the start, its line and
its column. Five line breaks are known; a carriage return and a line feed together are one. Scans
start at a cursor and leave one behind, and a scan that is repeated has to get ahead each time. -/
namespace RecordRelay.Yaml

def isBreak (c : Char) : Bool :=
  c == '\n' || c == '\r' || c == '\x85' || c == '\u2028' || c == '\u2029'

/-- Characters that separate words within a line. -/
def isBlank (c : Char) : Bool := c == ' ' || c == '\t'

/-- Characters of names: ASCII letters and digits, the line and the hyphen. -/
def isNameChar (c : Char) : Bool := c.isAlphanum || c == '_' || c == '-'

/-- Characters that may stand in a text. Most control characters may not. -/
def isAllowed (c : Char) : Bool :=
  let n := c.toNat
  n == 0x09 || n == 0x0A || n == 0x0D || (0x20 ≤ n && n ≤ 0x7E) || n == 0x85
    || (0xA0 ≤ n && n ≤ 0xFFFD) || 0x10000 ≤ n

/-- The mark that may stand in front of a text and is not part of it. -/
def byteOrderMark : Char := '\uFEFF'

structure Cursor where
  /-- The characters behind the place. -/
  rest : List Char
  /-- The number of characters before it. -/
  index : Nat
  line : Nat
  /-- The number of characters before it in its line. -/
  column : Nat

namespace Cursor

def start (text : List Char) : Cursor := ⟨text, 0, 0, 0⟩

/-- The character at a distance behind the place. -/
def peek (c : Cursor) (distance : Nat) : Option Char := c.rest[distance]?

def at? (c : Cursor) (ch : Char) : Bool := c.rest.head? = some ch

def startsWith (c : Cursor) (text : String) : Bool := text.toList.isPrefixOf c.rest

/-- Words end at blanks, line breaks and the end of the text. -/
def endsWord : Option Char → Bool
  | none => true
  | some ch => isBlank ch || isBreak ch

def endsWordAt (c : Cursor) (distance : Nat) : Bool := endsWord (c.peek distance)

def endsLine (c : Cursor) : Bool := (c.rest.head?.map isBreak).getD true

/-- The place some characters further on in the line. -/
def advance (c : Cursor) (count : Nat) : Cursor :=
  { c with rest := c.rest.drop count, index := c.index + count, column := c.column + count }

/-- The characters of a kind that come next in the line, and the place behind them. -/
def takeWhile (c : Cursor) (p : Char → Bool) : List Char × Cursor :=
  let taken := c.rest.takeWhile p
  (taken, c.advance taken.length)

/-- The place behind the characters of a kind that come next in the line. -/
def skipWhile (c : Cursor) (p : Char → Bool) : Cursor := (c.takeWhile p).2

/-- The place at the start of the next line, with some characters taken as the break. -/
def newLine (c : Cursor) (count : Nat) : Cursor :=
  ⟨c.rest.drop count, c.index + count, c.line + 1, 0⟩

/-- Reads a line break, if one comes next. The two separators of paragraphs and lines stay as they
are, and any other break counts as a line feed. -/
def takeBreak (c : Cursor) : List Char × Cursor :=
  match c.rest with
  | '\r' :: '\n' :: _ => (['\n'], c.newLine 2)
  | ch :: _ =>
    if !isBreak ch then ([], c)
    else if ch = '\u2028' || ch = '\u2029' then ([ch], c.newLine 1)
    else (['\n'], c.newLine 1)
  | [] => ([], c)

/-- The place behind a line break, if one comes next. -/
def skipBreak (c : Cursor) : Cursor := c.takeBreak.2

/-- The place at the end of the line if a comment comes next. -/
def skipComment (c : Cursor) : Cursor :=
  if c.at? '#' then c.skipWhile (!isBreak ·) else c

/-- The place behind the rest of a line that holds nothing but blanks and a comment. -/
def skipLine? (c : Cursor) : Option Cursor :=
  let c := (c.skipWhile isBlank).skipComment
  if c.endsLine then some c.skipBreak else none

/-- A line starts here with the mark between documents. -/
def atDocumentMark (c : Cursor) : Bool :=
  c.column = 0 && (c.startsWith "---" || c.startsWith "...") && c.endsWordAt 3

end Cursor

/-- What comes of one turn of a repeated scan: the end, or a state with which to go on. -/
inductive Turn (σ : Type) where
  | done (state : σ) (cursor : Cursor)
  | again (state : σ) (cursor : Cursor)

/-- Repeats a scan from a state until it ends. Each turn but the last one takes characters; one
that fails makes the whole scan fail. -/
def scan {σ : Type} (turn : σ → Cursor → Option (Turn σ)) (state : σ) (c : Cursor) :
    Option (σ × Cursor) :=
  match turn state c with
  | none => none
  | some (.done state next) => some (state, next)
  | some (.again state next) =>
    if next.rest.length < c.rest.length then scan turn state next else none
termination_by c.rest.length

end RecordRelay.Yaml
