import RecordRelay.Text.Hexadecimal
import RecordRelay.Yaml.Cursor

/-! A scalar is a text, written plainly, in quotes, or as a block of lines below an indicator.
Outside blocks, line breaks are folded: one of them is a space, and of several the first one does
not count. A block keeps its breaks, or folds those between lines of the same indentation. -/
namespace RecordRelay.Yaml

inductive ScalarStyle where
  | plain
  | singleQuoted
  | doubleQuoted
  | literal
  | folded
  deriving DecidableEq, Repr, Inhabited

/-- What stands between two words of a scalar. -/
structure Gap where
  /-- The blanks in front of the first line break. -/
  blanks : List Char
  isBroken : Bool
  firstBreak : List Char
  otherBreaks : List Char

namespace Gap

def none : Gap := ⟨[], false, [], []⟩

/-- A line break that does not count. -/
def escaped : Gap := ⟨[], true, [], []⟩

def text (gap : Gap) : List Char :=
  if !gap.isBroken then gap.blanks
  else if gap.firstBreak ≠ ['\n'] then gap.firstBreak ++ gap.otherBreaks
  else if gap.otherBreaks.isEmpty then [' ']
  else gap.otherBreaks

/-- Reads one blank or break. In a new line no tab may stand before the given column. -/
def turn (column : Nat) (gap : Gap) (c : Cursor) : Option (Turn Gap) :=
  match c.rest with
  | [] => some (.done gap c)
  | ch :: _ =>
    if isBlank ch then
      if gap.isBroken then
        if c.column < column && ch = '\t' then Option.none else some (.again gap (c.advance 1))
      else some (.again { gap with blanks := gap.blanks ++ [ch] } (c.advance 1))
    else if isBreak ch then
      let (text, next) := c.takeBreak
      if gap.isBroken then some (.again { gap with otherBreaks := gap.otherBreaks ++ text } next)
      else some (.again { gap with isBroken := true, firstBreak := text } next)
    else some (.done gap c)

/-- Reads all blanks and breaks that come next. -/
def read (column : Nat) (gap : Gap) (c : Cursor) : Option (Gap × Cursor) :=
  scan (turn column) gap c

end Gap

/-- The characters that end a plain scalar inside brackets. -/
def isFlowIndicator (ch : Char) : Bool :=
  ch == ',' || ch == '[' || ch == ']' || ch == '\x7b' || ch == '\x7d'

/-- Reads the characters of a word. It ends at a colon at the end of a word and, inside brackets, at
an indicator; there a colon may not stand right before an indicator. -/
def plainWord (inFlow : Bool) : List Char → Option (List Char)
  | [] => some []
  | ch :: rest =>
    if Cursor.endsWord (some ch) then some []
    else if inFlow && ch = ':' && (rest.head?.map fun c => isFlowIndicator c || c = '?').getD false
    then none
    else if (ch = ':' && Cursor.endsWord rest.head?) || (inFlow && isFlowIndicator ch) then some []
    else (plainWord inFlow rest).map (ch :: ·)

/-- Reads one word of a plain scalar and the gap behind it. -/
def plainTurn (inFlow : Bool) (indent : Nat) (state : List Char × Gap) (c : Cursor) :
    Option (Turn (List Char × Gap)) := do
  if c.atDocumentMark || c.at? '#' then return .done state c
  let (text, gap) := state
  let word ← plainWord inFlow c.rest
  let text := if word.isEmpty then text else text ++ gap.text ++ word
  let gap := if word.isEmpty then gap else Gap.none
  let c := c.advance word.length
  if c.rest.isEmpty || !c.endsWordAt 0 then return .done (text, gap) c
  let (gap, c) ← gap.read indent c
  if !inFlow && c.column < indent then return .done (text, gap) c
  return .again (text, gap) c

/-- Reads a plain scalar. Outside brackets its lines are indented at least to the given column.
Says too whether line breaks follow it. -/
def plainScalar (inFlow : Bool) (indent : Nat) (c : Cursor) :
    Option (List Char × Bool × Cursor) := do
  let ((text, gap), c) ← scan (plainTurn inFlow indent) ([], Gap.none) c
  return (text, gap.isBroken, c)

/-- What an escape stands for: a character, or the one whose number follows in so many digits. -/
inductive Escape where
  | character (value : Char)
  | number (digits : Nat)

def escape? : Char → Option Escape
  | '0' => some (.character '\x00')
  | 'a' => some (.character '\x07')
  | 'b' => some (.character '\x08')
  | 't' => some (.character '\t')
  | '\t' => some (.character '\t')
  | 'n' => some (.character '\n')
  | 'v' => some (.character '\x0B')
  | 'f' => some (.character '\x0C')
  | 'r' => some (.character '\r')
  | 'e' => some (.character '\x1B')
  | ' ' => some (.character ' ')
  | '"' => some (.character '"')
  | '/' => some (.character '/')
  | '\\' => some (.character '\\')
  | 'N' => some (.character '\x85')
  | '_' => some (.character '\xA0')
  | 'L' => some (.character '\u2028')
  | 'P' => some (.character '\u2029')
  | 'x' => some (.number 2)
  | 'u' => some (.number 4)
  | 'U' => some (.number 8)
  | _ => none

def charOfNumber? (value : Nat) : Option Char :=
  if h : value.isValidChar then some (Char.ofNatAux value h) else none

def escaped (c : Cursor) : Option (Char × Cursor) := do
  match ← escape? (← c.peek 0) with
  | .character value => return (value, c.advance 1)
  | .number count =>
    let digits := (c.rest.drop 1).take count
    if digits.length < count then none
    else return (← charOfNumber? (← Text.hexNumber? digits), c.advance (count + 1))

/-- Reads one character of a word in quotes. The word ends at a blank, a break, the quote and an
escaped line break, which is taken and noted. -/
def quotedWordTurn (quote : Char) (state : List Char × Gap) (c : Cursor) :
    Option (Turn (List Char × Gap)) :=
  let (word, gap) := state
  match c.rest with
  | [] => some (.done state c)
  | ch :: rest =>
    if Cursor.endsWord (some ch) then some (.done state c)
    else if quote = '\'' && ch = '\'' && rest.head? = some '\'' then
      some (.again (word ++ [ch], gap) (c.advance 2))
    else if ch = quote then some (.done state c)
    else if quote = '"' && ch = '\\' then
      if (rest.head?.map isBreak).getD false then
        some (.done (word, Gap.escaped) (c.advance 1).skipBreak)
      else (escaped (c.advance 1)).map fun (value, next) => .again (word ++ [value], gap) next
    else some (.again (word ++ [ch], gap) (c.advance 1))

/-- Reads one word in quotes and the gap behind it, or the closing quote. -/
def quotedTurn (quote : Char) (text : List Char) (c : Cursor) : Option (Turn (List Char)) := do
  if c.atDocumentMark || c.rest.isEmpty then none
  let ((word, gap), c) ← scan (quotedWordTurn quote) ([], Gap.none) c
  let text := text ++ word
  if c.at? quote then return .done text (c.advance 1)
  let (gap, c) ← gap.read 0 c
  return .again (text ++ gap.text) c

def quotedScalar (quote : Char) (c : Cursor) : Option (List Char × Cursor) :=
  scan (quotedTurn quote) [] (c.advance 1)

/-- What becomes of the line breaks at the end of a block. -/
inductive Chomping where
  /-- None is left. -/
  | strip
  /-- The first one is left. -/
  | clip
  /-- All are left. -/
  | keep
  deriving DecidableEq

/-- Reads the sign that tells what becomes of the last line breaks. -/
def chomping (c : Cursor) : Option Chomping × Cursor :=
  if c.at? '+' then (some .keep, c.advance 1)
  else if c.at? '-' then (some .strip, c.advance 1)
  else (none, c)

/-- Reads the digit that tells how much further than its surroundings a block is indented. -/
def increment (c : Cursor) : Option (Option Nat × Cursor) :=
  match c.rest with
  | ch :: _ =>
    if !ch.isDigit then some (none, c)
    else if ch = '0' then none
    else some (some (ch.toNat - 48), c.advance 1)
  | [] => some (none, c)

/-- Reads the two signs behind a block indicator, in either order, and the rest of the line. -/
def blockHeader (c : Cursor) : Option (Chomping × Option Nat × Cursor) := do
  let (first, c) := chomping c
  let (amount, c) ← increment c
  let (second, c) := if first.isNone && amount.isSome then chomping c else (none, c)
  let c ← c.skipLine?
  return ((first.or second).getD .clip, amount, c)

/-- Reads the indentation of one line and its break if there is nothing else in it. As long as the
indentation is not known, all spaces belong to it. Notes the greatest column. -/
def indentationTurn (indent : Option Nat) (state : List Char × Nat) (c : Cursor) :
    Option (Turn (List Char × Nat)) :=
  let (breaks, greatest) := state
  let isInside (column : Nat) : Bool := (indent.map fun n => decide (column < n)).getD true
  let spaces := (c.rest.takeWhile (· == ' ')).length
  let c := c.advance ((indent.map fun n => min spaces (n - c.column)).getD spaces)
  let greatest := max greatest c.column
  if isInside c.column && c.at? '\t' then none
  else if (c.rest.head?.map isBreak).getD false then
    let (text, c) := c.takeBreak
    some (.again (breaks ++ text, greatest) c)
  else some (.done (breaks, greatest) c)

/-- Reads empty lines and the indentation of the line behind them. If the indentation of the block
is not known yet, it is that of the most indented of these lines, but at least `least`. -/
def indentation (least : Nat) (indent : Option Nat) (c : Cursor) :
    Option (List Char × Nat × Cursor) := do
  let ((breaks, greatest), c) ← scan (indentationTurn indent) ([], 0) c
  return (breaks, indent.getD (max greatest (max least 1)), c)

/-- The lines of a block that have been read: their text, the break behind it, the empty lines
after that, and whether the last line started with a blank. -/
structure BlockLines where
  text : List Char
  lastBreak : List Char
  emptyLines : List Char
  startsBlank : Bool

/-- Reads one line of a block and the indentation of the next one. -/
def blockTurn (isFolded : Bool) (indent : Nat) (lines : BlockLines) (c : Cursor) :
    Option (Turn BlockLines) := do
  if c.column ≠ indent || c.rest.isEmpty then return .done lines c
  let startsBlank := (c.rest.head?.map isBlank).getD false
  let between :=
    if isFolded && lines.lastBreak.head? = some '\n' && !lines.startsBlank && !startsBlank then
      if lines.emptyLines.isEmpty then [' '] else lines.emptyLines
    else lines.lastBreak ++ lines.emptyLines
  let (content, c) := c.takeWhile (!isBreak ·)
  let (lastBreak, c) := c.takeBreak
  let (emptyLines, _, c) ← indentation 0 (some indent) c
  return .again ⟨lines.text ++ between ++ content, lastBreak, emptyLines, startsBlank⟩ c

/-- Reads a block of lines below its indicator. Their surroundings are indented to `parent`, if they
are indented at all. -/
def blockScalar (isFolded : Bool) (parent : Option Nat) (c : Cursor) :
    Option (List Char × Cursor) := do
  let (chomping, amount, c) ← blockHeader (c.advance 1)
  let fixed := amount.map (parent.getD 0 + ·)
  let (emptyLines, indent, c) ← indentation ((parent.map (· + 1)).getD 0) fixed c
  let (lines, c) ← scan (blockTurn isFolded indent) ⟨[], [], emptyLines, false⟩ c
  let tail := match chomping with
    | .strip => []
    | .clip => lines.lastBreak
    | .keep => lines.lastBreak ++ lines.emptyLines
  return (lines.text ++ tail, c)

end RecordRelay.Yaml
