import RecordRelay.Yaml.Token

/-! A document is a tree of scalars, sequences and mappings. A node may have a tag, and an anchor by
which an alias elsewhere stands for it. A text holds one document or none. -/
namespace RecordRelay.Yaml

/-- A node of a document. -/
inductive Node where
  /-- Stands for the node with the anchor of a number. -/
  | reference (anchor : Nat)
  | scalar (anchor : Option Nat) (tag : Option String) (style : ScalarStyle) (text : String)
  | sequence (anchor : Option Nat) (tag : Option String) (items : List Node)
  | mapping (anchor : Option Nat) (tag : Option String) (entries : List (Node × Node))
  deriving Inhabited

namespace Node

/-- The node that stands where nothing is written. -/
def absent : Node := scalar none none .plain ""

def anchor? : Node → Option Nat
  | reference _ => none
  | scalar anchor _ _ _ => anchor
  | sequence anchor _ _ => anchor
  | mapping anchor _ _ => anchor

def tag? : Node → Option String
  | reference _ => none
  | scalar _ tag _ _ => tag
  | sequence _ tag _ => tag
  | mapping _ tag _ => tag

mutual

/-- A node and all nodes inside it, in the order in which they are written. -/
def family : Node → List Node
  | sequence anchor tag items => sequence anchor tag items :: familyOfItems items
  | mapping anchor tag entries => mapping anchor tag entries :: familyOfEntries entries
  | node => [node]

def familyOfItems : List Node → List Node
  | [] => []
  | item :: rest => item.family ++ familyOfItems rest

def familyOfEntries : List (Node × Node) → List Node
  | [] => []
  | (key, value) :: rest => key.family ++ value.family ++ familyOfEntries rest

end

/-- The first parts of tags, by handle. -/
abbrev Handles := List (List Char × List Char)

/-- The numbers of the anchors that are known, by name. -/
abbrev Anchors := List (String × Nat)

def numberOf? (anchors : Anchors) (name : String) : Option Nat :=
  (anchors.find? fun entry => entry.1 = name).map (·.2)

/-- The anchors after a node is anchored by a name. It gets the number of anchors there are, and a
name that is used again gets a new number in the old place. -/
def anchorBy (anchors : Anchors) (name : String) : Nat × Anchors :=
  let number := anchors.length
  let renewed := anchors.map fun entry => if entry.1 = name then (name, number) else entry
  (number, if (numberOf? anchors name).isSome then renewed else anchors ++ [(name, number)])

/-- The tag that a text writes, if its handle is known. -/
def expandTag (handles : Handles) (text : TagText) : Option String :=
  if text.handle.isEmpty then some (String.ofList text.suffix)
  else (handles.find? fun entry => entry.1 = text.handle).map fun entry =>
    String.ofList (entry.2 ++ text.suffix)

/-- What may stand in front of a node. -/
structure Properties where
  anchor : Option Nat
  tag : Option String

namespace Properties

def isSome (properties : Properties) : Bool := properties.anchor.isSome || properties.tag.isSome

/-- The tag of a scalar: a mark alone is none. -/
def scalarTag (properties : Properties) : Option String := properties.tag.filter (· ≠ "!")

/-- Reads an anchor and a tag, in either order. -/
def read (handles : Handles) (anchors : Anchors) (tokens : List Token) :
    Option (Properties × Anchors × List Token) :=
  match tokens with
  | .anchor name :: .tag text :: rest | .tag text :: .anchor name :: rest =>
    let (number, anchors) := anchorBy anchors name
    (expandTag handles text).map fun tag => (⟨some number, some tag⟩, anchors, rest)
  | .anchor name :: rest =>
    let (number, anchors) := anchorBy anchors name
    some (⟨some number, none⟩, anchors, rest)
  | .tag text :: rest =>
    (expandTag handles text).map fun tag => (⟨none, some tag⟩, anchors, rest)
  | _ => some (⟨none, none⟩, anchors, tokens)

end Properties

/-- What comes of reading from tokens: a result, the anchors known then, and the tokens left. -/
abbrev Read (α : Type) := α × Anchors × List Token

/-- The next token may stand behind a key or a value that is left out in a block. -/
def endsBlockPart : List Token → Bool
  | .key :: _ | .value :: _ | .blockEnd :: _ => true
  | _ => false

/-- The next token may stand behind an item that is left out in a block. -/
def endsBlockItem : List Token → Bool
  | .blockEntry :: _ | .blockEnd :: _ => true
  | _ => false

/-- The next token may stand behind an item of a sequence without indentation that is left out. -/
def endsFlatItem : List Token → Bool
  | .blockEntry :: _ => true
  | tokens => endsBlockPart tokens

/-- The next token may stand behind a key or a value that is left out in brackets. -/
def endsFlowPart : List Token → Bool
  | .value :: _ | .flowEntry :: _ | .flowSequenceEnd :: _ | .flowMappingEnd :: _ => true
  | _ => false

/-- What stands in brackets behind the comma that separates it from what is before it. -/
def afterComma (isFirst : Bool) : List Token → Option (List Token)
  | .flowEntry :: rest => if isFirst then none else some rest
  | tokens => if isFirst then some tokens else none

mutual

/-- Reads a node. Blocks may stand outside brackets only, and a sequence whose items are not
indented only where `isFlat` says so. -/
def ofTokens (handles : Handles) (isBlock isFlat : Bool) :
    Nat → Anchors → List Token → Option (Read Node)
  | 0, _, _ => none
  | fuel + 1, anchors, tokens =>
    match tokens with
    | .reference name :: rest =>
      (numberOf? anchors name).map fun number => (reference number, anchors, rest)
    | _ => do
      let (properties, anchors, tokens) ← Properties.read handles anchors tokens
      let ⟨anchor, tag⟩ := properties
      match tokens, isBlock, isFlat with
      | .scalar style text :: rest, _, _ =>
        return (scalar anchor properties.scalarTag style text, anchors, rest)
      | .flowSequenceStart :: rest, _, _ =>
        let (items, anchors, rest) ← flowItems handles true fuel anchors rest
        return (sequence anchor tag items, anchors, rest)
      | .flowMappingStart :: rest, _, _ =>
        let (entries, anchors, rest) ← flowEntries handles true fuel anchors rest
        return (mapping anchor tag entries, anchors, rest)
      | .blockSequenceStart :: rest, true, _ =>
        let (items, anchors, rest) ← blockItems handles fuel anchors rest
        return (sequence anchor tag items, anchors, rest)
      | .blockMappingStart :: rest, true, _ =>
        let (entries, anchors, rest) ← blockEntries handles fuel anchors rest
        return (mapping anchor tag entries, anchors, rest)
      | .blockEntry :: _, _, true =>
        let (items, anchors, rest) ← flatItems handles fuel anchors tokens
        return (sequence anchor tag items, anchors, rest)
      | _, _, _ =>
        if properties.isSome then
          return (scalar anchor properties.scalarTag .plain "", anchors, tokens)
        else none

/-- Reads a node unless it is left out. -/
def unlessAbsent (handles : Handles) (isBlock isFlat isAbsent : Bool) :
    Nat → Anchors → List Token → Option (Read Node)
  | 0, _, _ => none
  | fuel + 1, anchors, tokens =>
    if isAbsent then some (absent, anchors, tokens)
    else ofTokens handles isBlock isFlat fuel anchors tokens

def blockItems (handles : Handles) : Nat → Anchors → List Token → Option (Read (List Node))
  | 0, _, _ => none
  | fuel + 1, anchors, tokens =>
    match tokens with
    | .blockEntry :: rest => do
      let (item, anchors, rest) ←
        unlessAbsent handles true false (endsBlockItem rest) fuel anchors rest
      let (items, anchors, rest) ← blockItems handles fuel anchors rest
      return (item :: items, anchors, rest)
    | .blockEnd :: rest => some ([], anchors, rest)
    | _ => none

/-- Reads the items of a sequence that is not indented further than what is around it. -/
def flatItems (handles : Handles) : Nat → Anchors → List Token → Option (Read (List Node))
  | 0, _, _ => none
  | fuel + 1, anchors, tokens =>
    match tokens with
    | .blockEntry :: rest => do
      let (item, anchors, rest) ←
        unlessAbsent handles true false (endsFlatItem rest) fuel anchors rest
      let (items, anchors, rest) ← flatItems handles fuel anchors rest
      return (item :: items, anchors, rest)
    | _ => some ([], anchors, tokens)

def blockEntries (handles : Handles) :
    Nat → Anchors → List Token → Option (Read (List (Node × Node)))
  | 0, _, _ => none
  | fuel + 1, anchors, tokens =>
    match tokens with
    | .key :: rest => do
      let (key, anchors, rest) ←
        unlessAbsent handles true true (endsBlockPart rest) fuel anchors rest
      let (value, anchors, rest) ← match rest with
        | .value :: rest => unlessAbsent handles true true (endsBlockPart rest) fuel anchors rest
        | _ => some (absent, anchors, rest)
      let (entries, anchors, rest) ← blockEntries handles fuel anchors rest
      return ((key, value) :: entries, anchors, rest)
    | .blockEnd :: rest => some ([], anchors, rest)
    | _ => none

def flowPair (handles : Handles) : Nat → Anchors → List Token → Option (Read (Node × Node))
  | 0, _, _ => none
  | fuel + 1, anchors, tokens => do
    let (key, anchors, rest) ←
      unlessAbsent handles false false (endsFlowPart tokens) fuel anchors tokens
    match rest with
    | .value :: rest =>
      let (value, anchors, rest) ←
        unlessAbsent handles false false (endsFlowPart rest) fuel anchors rest
      return ((key, value), anchors, rest)
    | _ => return ((key, absent), anchors, rest)

/-- Reads the items of a sequence in brackets. A key with its value is an item too. -/
def flowItems (handles : Handles) (isFirst : Bool) :
    Nat → Anchors → List Token → Option (Read (List Node))
  | 0, _, _ => none
  | fuel + 1, anchors, tokens =>
    match tokens with
    | .flowSequenceEnd :: rest => some ([], anchors, rest)
    | _ => do
      match ← afterComma isFirst tokens with
      | .flowSequenceEnd :: rest => return ([], anchors, rest)
      | .key :: rest =>
        let (pair, anchors, rest) ← flowPair handles fuel anchors rest
        let (items, anchors, rest) ← flowItems handles false fuel anchors rest
        return (mapping none none [pair] :: items, anchors, rest)
      | rest =>
        let (item, anchors, rest) ← ofTokens handles false false fuel anchors rest
        let (items, anchors, rest) ← flowItems handles false fuel anchors rest
        return (item :: items, anchors, rest)

def flowEntries (handles : Handles) (isFirst : Bool) :
    Nat → Anchors → List Token → Option (Read (List (Node × Node)))
  | 0, _, _ => none
  | fuel + 1, anchors, tokens =>
    match tokens with
    | .flowMappingEnd :: rest => some ([], anchors, rest)
    | _ => do
      match ← afterComma isFirst tokens with
      | .flowMappingEnd :: rest => return ([], anchors, rest)
      | .key :: rest =>
        let (pair, anchors, rest) ← flowPair handles fuel anchors rest
        let (entries, anchors, rest) ← flowEntries handles false fuel anchors rest
        return (pair :: entries, anchors, rest)
      | rest =>
        let (key, anchors, rest) ← ofTokens handles false false fuel anchors rest
        let (entries, anchors, rest) ← flowEntries handles false fuel anchors rest
        return ((key, absent) :: entries, anchors, rest)

end

end Node

/-- A document, which has no node if its text holds nothing but comments. -/
structure Document where
  root : Option Node
  deriving Inhabited

namespace Document

/-- The handles that need no directive. -/
def standardHandles : Node.Handles := [(['!'], ['!']), (['!', '!'], "tag:yaml.org,2002:".toList)]

/-- The handles that directives declare, before those that need none. The version is declared at
most once and is 1.1 or 1.2, and no handle is declared twice. -/
def handlesOf (directives : List Directive) : Option Node.Handles :=
  let versions := directives.filterMap fun
    | .version major minor => some (major, minor)
    | .handle _ _ => none
  let handles := directives.filterMap fun
    | .version _ _ => none
    | .handle handle stem => some (handle, stem)
  if 1 < versions.length || versions.any (fun version => version ≠ (1, 1) && version ≠ (1, 2))
      || (handles.map (·.1)).eraseDups.length < handles.length then none
  else some (handles ++ standardHandles)

/-- The directives at the start of tokens and the tokens behind them. -/
def directivesOf : List Token → List Directive × List Token
  | .directive value :: rest =>
    let (others, rest) := directivesOf rest
    (value :: others, rest)
  | tokens => ([], tokens)

/-- The marks at the end of a document. -/
def isDocumentEnd : Token → Bool
  | .documentEnd => true
  | _ => false

/-- What follows is the end of the document. -/
def endsContent : List Token → Bool
  | [] | .documentEnd :: _ | .documentStart :: _ | .directive _ :: _ => true
  | _ => false

/-- The document that tokens make. Nothing but marks may follow it. -/
def ofTokens? (tokens : List Token) : Option Document := do
  let fuel := 2 * tokens.length + 2
  let read (handles : Node.Handles) (isAbsent : Bool) (tokens : List Token) : Option Document := do
    let (node, _, rest) ← Node.unlessAbsent handles true false isAbsent (fuel + 1) [] tokens
    if rest.all isDocumentEnd then some ⟨some node⟩ else none
  match tokens with
  | [] => return ⟨none⟩
  | .directive _ :: _ | .documentStart :: _ =>
    let (directives, rest) := directivesOf tokens
    let handles ← handlesOf directives
    match rest with
    | .documentStart :: rest => read handles (endsContent rest) rest
    | _ => none
  | _ => read standardHandles false tokens

def ofText? (text : String) : Option Document := do ofTokens? (← tokens? text)

/-- The node that an alias of a number stands for: the last one with that anchor. -/
def target? (document : Document) (number : Nat) : Option Node := do
  let root ← document.root
  (root.family.filter fun node => node.anchor? = some number).getLast?

/-- A node, or the one it stands for. -/
def resolve (document : Document) : Node → Option Node
  | .reference number => document.target? number
  | node => some node

end Document

end RecordRelay.Yaml
