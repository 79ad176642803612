import RecordRelay.Yaml.Tag

/-! A document is a sequence of tokens. Inside brackets these are as they are written; outside, the
indentation of lines opens and closes sequences and mappings. That something is a key often shows
only at the colon behind it, and then the tokens that say so are put in front of it. Such a key
stands on one line and is not longer than 1024 characters. -/
namespace RecordRelay.Yaml

inductive Token where
  | directive (value : Directive)
  | documentStart
  | documentEnd
  | blockSequenceStart
  | blockMappingStart
  | blockEnd
  | flowSequenceStart
  | flowSequenceEnd
  | flowMappingStart
  | flowMappingEnd
  | blockEntry
  | flowEntry
  | key
  | value
  | reference (name : String)
  | anchor (name : String)
  | tag (value : TagText)
  | scalar (style : ScalarStyle) (text : String)

/-- A place at which a key may have started. -/
structure KeyStart where
  /-- The text is malformed unless a key did start there. -/
  isRequired : Bool
  /-- The number of tokens before it. -/
  token : Nat
  index : Nat
  line : Nat
  column : Nat

/-- How far a text has been cut into tokens. -/
structure Lexer where
  cursor : Cursor
  tokens : List Token
  /-- The columns of the open blocks, the innermost first. -/
  indents : List Nat
  /-- Where a key may have started, for each open bracket and outside of them, the innermost
  first. -/
  keys : List (Option KeyStart)
  /-- Whether a key may start here. -/
  keyAllowed : Bool

namespace Lexer

def start (text : List Char) : Lexer := ⟨.start text, [], [], [none], true⟩

def inFlow (lexer : Lexer) : Bool := 1 < lexer.keys.length

/-- The lexer with one more token, and the place behind it. -/
def push (lexer : Lexer) (token : Token) (cursor : Cursor) : Lexer :=
  { lexer with tokens := lexer.tokens ++ [token], cursor }

/-- The lexer at a place where keys may start or not. -/
def allowKey (lexer : Lexer) (allowed : Bool) : Lexer := { lexer with keyAllowed := allowed }

/-- No key started at the last place noted. Fails if one had to. -/
def dropKey (lexer : Lexer) : Option Lexer :=
  match lexer.keys with
  | some key :: others =>
    if key.isRequired then none else some { lexer with keys := none :: others }
  | _ => some lexer

/-- Notes that a key may start here. -/
def noteKey (lexer : Lexer) : Option Lexer :=
  if !lexer.keyAllowed then some lexer
  else do
    let c := lexer.cursor
    let isRequired := !lexer.inFlow && lexer.indents.head? = some c.column
    let lexer ← lexer.dropKey
    let key := ⟨isRequired, lexer.tokens.length, c.index, c.line, c.column⟩
    return { lexer with keys := some key :: lexer.keys.drop 1 }

/-- A key that started at a place can no longer be followed by its colon. -/
def isStale (c : Cursor) (key : KeyStart) : Bool := key.line < c.line || key.index + 1024 < c.index

/-- Forgets the places at which no key can have started. -/
def dropStaleKeys (lexer : Lexer) : Option Lexer := do
  let keys ← lexer.keys.mapM fun key =>
    match key with
    | some key =>
      if !isStale lexer.cursor key then some (some key)
      else if key.isRequired then none
      else some none
    | none => some none
  return { lexer with keys }

/-- Opens a block at a column if it is indented further than what is open, with its token in the
given place. -/
def openBlock (lexer : Lexer) (column place : Nat) (token : Token) : Lexer :=
  if lexer.inFlow || lexer.indents.head?.any fun indent => column ≤ indent then
    lexer
  else
    { lexer with
      indents := column :: lexer.indents
      tokens := lexer.tokens.take place ++ token :: lexer.tokens.drop place }

/-- Closes the blocks that are indented further than a column, or all of them. -/
def closeBlocks (lexer : Lexer) (column : Option Nat) : Lexer :=
  if lexer.inFlow then lexer
  else
    let isDeeper (indent : Nat) : Bool := (column.map fun n => decide (n < indent)).getD true
    { lexer with
      indents := lexer.indents.dropWhile isDeeper
      tokens := lexer.tokens ++
        (lexer.indents.takeWhile isDeeper).map fun _ => Token.blockEnd }

/-- Reads what stands between tokens on one line: blanks, a comment and the break behind them. Tabs
do not count as blanks where a key may start outside brackets. -/
def gapTurn (inFlow : Bool) (keyAllowed : Bool) (c : Cursor) : Option (Turn Bool) :=
  let c := if c.index = 0 && c.at? byteOrderMark then c.advance 1 else c
  let c := (c.skipWhile fun ch => ch == ' ' || ((inFlow || !keyAllowed) && ch == '\t')).skipComment
  if (c.rest.head?.map isBreak).getD false then some (.again (keyAllowed || !inFlow) c.skipBreak)
  else some (.done keyAllowed c)

/-- The lexer at the next token. Outside brackets a key may start in every new line. -/
def skipGap (lexer : Lexer) : Option Lexer := do
  let (keyAllowed, cursor) ← scan (gapTurn lexer.inFlow) lexer.keyAllowed lexer.cursor
  return { lexer with keyAllowed, cursor }

/-- A directive or a mark between documents ends all blocks. -/
def atDocument (lexer : Lexer) : Option Lexer :=
  ((lexer.closeBlocks none).dropKey).map fun lexer => lexer.allowKey false

def openFlow (lexer : Lexer) (token : Token) : Option Lexer := do
  let lexer ← lexer.noteKey
  let lexer := { lexer with keys := none :: lexer.keys }.allowKey true
  return lexer.push token (lexer.cursor.advance 1)

def closeFlow (lexer : Lexer) (token : Token) : Option Lexer := do
  let lexer ← lexer.dropKey
  let keys := if lexer.inFlow then lexer.keys.drop 1 else lexer.keys
  return ({ lexer with keys }.allowKey false).push token (lexer.cursor.advance 1)

def flowEntry (lexer : Lexer) : Option Lexer := do
  let lexer ← lexer.dropKey
  return (lexer.allowKey true).push .flowEntry (lexer.cursor.advance 1)

/-- Opens a block here. That is only allowed where a key may start. -/
def openBlockHere (lexer : Lexer) (token : Token) : Option Lexer :=
  if lexer.inFlow then some lexer
  else if !lexer.keyAllowed then none
  else some (lexer.openBlock lexer.cursor.column lexer.tokens.length token)

def blockEntry (lexer : Lexer) : Option Lexer := do
  let lexer ← (← lexer.openBlockHere .blockSequenceStart).dropKey
  return (lexer.allowKey true).push .blockEntry (lexer.cursor.advance 1)

def explicitKey (lexer : Lexer) : Option Lexer := do
  let lexer ← (← lexer.openBlockHere .blockMappingStart).dropKey
  return (lexer.allowKey !lexer.inFlow).push .key (lexer.cursor.advance 1)

/-- Reads the colon in front of a value. If a key may have started before, it did. -/
def value (lexer : Lexer) : Option Lexer := do
  let c := lexer.cursor
  match lexer.keys with
  | some key :: others =>
    let tokens := lexer.tokens.take key.token ++ .key :: lexer.tokens.drop key.token
    let lexer := { lexer with tokens, keys := none :: others }
    let lexer := lexer.openBlock key.column key.token .blockMappingStart
    return (lexer.allowKey false).push .value (c.advance 1)
  | _ =>
    let lexer ← lexer.openBlockHere .blockMappingStart
    return (lexer.allowKey !lexer.inFlow).push .value (c.advance 1)

/-- Reads the name of an anchor or an alias behind its sign. -/
def name (c : Cursor) : Option (String × Cursor) :=
  let (chars, next) := (c.advance 1).takeWhile isNameChar
  let isEnd := next.endsWordAt 0 || next.rest.head?.any fun ch => "?:,]\x7d%@`".toList.contains ch
  if chars.isEmpty || !isEnd then none else some (String.ofList chars, next)

/-- Reads a token that may be the start of a key. -/
def maybeKey (lexer : Lexer) (read : Cursor → Option (Token × Cursor)) : Option Lexer := do
  let lexer ← lexer.noteKey
  let (token, cursor) ← read lexer.cursor
  return (lexer.allowKey false).push token cursor

/-- Reads a plain scalar. Behind its line breaks a key may start. -/
def plain (lexer : Lexer) : Option Lexer := do
  let lexer ← lexer.noteKey
  let indent := (lexer.indents.head?.map (· + 1)).getD 0
  let (text, isBroken, cursor) ← plainScalar lexer.inFlow indent lexer.cursor
  return (lexer.allowKey isBroken).push (.scalar .plain (String.ofList text)) cursor

def quoted (lexer : Lexer) (style : ScalarStyle) (quote : Char) : Option Lexer :=
  lexer.maybeKey fun c =>
    (quotedScalar quote c).map fun (text, next) => (.scalar style (String.ofList text), next)

def block (lexer : Lexer) (style : ScalarStyle) : Option Lexer := do
  let lexer ← lexer.dropKey
  let (text, cursor) ← blockScalar (style = .folded) lexer.indents.head? lexer.cursor
  return (lexer.allowKey true).push (.scalar style (String.ofList text)) cursor

/-- A plain scalar may start here. -/
def startsPlain (inFlow : Bool) (c : Cursor) : Bool :=
  match c.rest with
  | [] => false
  | ch :: rest =>
    (!Cursor.endsWord (some ch) && !"-?:,[]\x7b\x7d#&*!|>'\"%@`".toList.contains ch)
      || (ch == '-' && !(rest.head?.map isBlank).getD false)
      || (!inFlow && (ch == '?' || ch == ':') && !Cursor.endsWord rest.head?)

/-- Reads the token that comes next. -/
def next (lexer : Lexer) (ch : Char) : Option Lexer :=
  let c := lexer.cursor
  let endsNext := c.endsWordAt 1
  if c.column = 0 && ch = '%' then do
    let (result, cursor) ← directive (c.advance 1)
    return (← lexer.atDocument).push (.directive result) cursor
  else if c.atDocumentMark then do
    let token := if ch = '-' then .documentStart else .documentEnd
    return (← lexer.atDocument).push token (c.advance 3)
  else if ch = '[' then lexer.openFlow .flowSequenceStart
  else if ch = '\x7b' then lexer.openFlow .flowMappingStart
  else if ch = ']' then lexer.closeFlow .flowSequenceEnd
  else if ch = '\x7d' then lexer.closeFlow .flowMappingEnd
  else if ch = ',' then lexer.flowEntry
  else if ch = '-' && endsNext then lexer.blockEntry
  else if ch = '?' && (lexer.inFlow || endsNext) then lexer.explicitKey
  else if ch = ':' && (lexer.inFlow || endsNext) then lexer.value
  else if ch = '*' then
    lexer.maybeKey fun c => (name c).map fun (name, next) => (.reference name, next)
  else if ch = '&' then
    lexer.maybeKey fun c => (name c).map fun (name, next) => (.anchor name, next)
  else if ch = '!' then
    lexer.maybeKey fun c => (Yaml.tag lexer.inFlow c).map fun (tag, next) => (.tag tag, next)
  else if ch = '|' && !lexer.inFlow then lexer.block .literal
  else if ch = '>' && !lexer.inFlow then lexer.block .folded
  else if ch = '\'' then lexer.quoted .singleQuoted '\''
  else if ch = '"' then lexer.quoted .doubleQuoted '"'
  else if startsPlain lexer.inFlow c then lexer.plain
  else none

/-- Reads the next token and what stands before it, or ends with the text. -/
def turn (lexer : Lexer) (c : Cursor) : Option (Turn Lexer) := do
  let lexer ← { lexer with cursor := c }.skipGap
  let lexer ← lexer.dropStaleKeys
  match lexer.cursor.rest with
  | [] => return .done (← (lexer.closeBlocks none).dropKey) lexer.cursor
  | ch :: _ =>
    let lexer ← (lexer.closeBlocks (some lexer.cursor.column)).next ch
    return .again lexer lexer.cursor

end Lexer

def tokens? (text : String) : Option (List Token) :=
  if !text.toList.all isAllowed then none
  else
    let cs := text.toList
    let lexer := Lexer.start (if cs.head? = some byteOrderMark then cs.drop 1 else cs)
    (scan Lexer.turn lexer lexer.cursor).map fun (lexer, _) => lexer.tokens

end RecordRelay.Yaml
