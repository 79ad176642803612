import RecordRelay.Text.Hexadecimal

/-! Addresses of the two versions and their written forms: four decimal numbers with points between
them, or up to eight hexadecimal groups with colons between them, where two colons stand for the
zero groups that are left out and the last two groups may be written like an address of the older
version. An address with a port is followed by a colon and the port; one of the newer version then
stands in brackets. -/
namespace RecordRelay

inductive IpAddress where
  | v4 (value : BitVec 32)
  | v6 (value : BitVec 128)
  deriving DecidableEq, Repr, Inhabited

namespace IpAddress

/-- The address is one by which a host reaches itself. -/
def isLoopback : IpAddress → Bool
  | v4 value => value.toNat / 0x1000000 = 127
  | v6 value => value = 1

/-- The address stands for every address of a host. -/
def isUnspecified : IpAddress → Bool
  | v4 value => value = 0
  | v6 value => value = 0

/-- Reads something at the start of a text and leaves the rest. -/
abbrev Scan (α : Type) := List Char → Option (α × List Char)

def character (c : Char) : Scan Unit
  | [] => none
  | first :: rest => if first = c then some ((), rest) else none

/-- The rules for a number: its base, the greatest number of digits if there is one, whether zeros
may stand in front, and the number it has to be less than. -/
structure NumberForm where
  base : Nat
  digits : Option Nat
  zerosInFront : Bool
  bound : Nat

/-- The numbers of an address of the older version. -/
def octet : NumberForm := ⟨10, some 3, false, 0x100⟩

/-- The groups of an address of the newer version. -/
def group : NumberForm := ⟨16, some 4, true, 0x10000⟩

def port : NumberForm := ⟨10, none, true, 0x10000⟩

/-- The numbers that tell apart the networks in which an address is used. -/
def scope : NumberForm := ⟨10, none, true, 0x100000000⟩

/-- Reads the longest run of digits as a number. -/
def number (form : NumberForm) : Scan Nat := fun cs =>
  let isDigit c := (Text.digitValue? form.base c).isSome
  let digits := cs.takeWhile isDigit
  let isTooLong := (form.digits.map fun limit => decide (limit < digits.length)).getD false
  let hasZeros := digits.head? = some '0' && 1 < digits.length
  if isTooLong || (hasZeros && !form.zerosInFront) then none
  else
    ((Text.number? form.base digits).filter (· < form.bound)).map fun value =>
      (value, cs.dropWhile isDigit)

/-- Reads something with a separator in front of it, or without one at the first place. -/
def separated {α : Type} (separator : Char) (first : Bool) (scan : Scan α) : Scan α := fun cs =>
  if first then scan cs else (character separator cs).bind fun (_, rest) => scan rest

/-- Reads an address of the older version as a number. -/
def older : Scan Nat := fun cs => do
  let (a, cs) ← number octet cs
  let (b, cs) ← separated '.' false (number octet) cs
  let (c, cs) ← separated '.' false (number octet) cs
  let (d, cs) ← separated '.' false (number octet) cs
  return (((a * 256 + b) * 256 + c) * 256 + d, cs)

/-- Reads as many groups as there are, up to a limit. Says too whether the last two of them were
written like an address of the older version, after which no more groups follow. -/
def groups : Nat → Bool → List Char → List Nat × Bool × List Char
  | 0, _, cs => ([], false, cs)
  | limit + 1, first, cs =>
    match if limit = 0 then none else separated ':' first older cs with
    | some (value, rest) => ([value / 0x10000, value % 0x10000], true, rest)
    | none =>
      match separated ':' first (number group) cs with
      | none => ([], false, cs)
      | some (value, rest) =>
        let (more, endsOlder, rest) := groups limit false rest
        (value :: more, endsOlder, rest)

def ofGroups (values : List Nat) : Nat :=
  values.foldl (fun total value => total * 0x10000 + value) 0

/-- Reads an address of the newer version as a number. Two colons stand for at least one group. -/
def newer : Scan Nat := fun cs =>
  let (head, endsOlder, rest) := groups 8 true cs
  if head.length = 8 then some (ofGroups head, rest)
  else if endsOlder then none
  else do
    let ((), rest) ← character ':' rest
    let ((), rest) ← character ':' rest
    let (tail, _, rest) := groups (7 - head.length) true rest
    return (ofGroups (head ++ List.replicate (8 - head.length - tail.length) 0 ++ tail), rest)

def address : Scan IpAddress := fun cs =>
  match older cs with
  | some (value, rest) => some (v4 (BitVec.ofNat 32 value), rest)
  | none => (newer cs).map fun (value, rest) => (v6 (BitVec.ofNat 128 value), rest)

def olderWithPort : Scan IpAddress := fun cs => do
  let (value, cs) ← older cs
  let ((), cs) ← character ':' cs
  let (_, cs) ← number port cs
  return (v4 (BitVec.ofNat 32 value), cs)

def skipScope (cs : List Char) : List Char :=
  match (character '%' cs).bind fun (_, rest) => number scope rest with
  | some (_, rest) => rest
  | none => cs

def newerWithPort : Scan IpAddress := fun cs => do
  let ((), cs) ← character '[' cs
  let (value, cs) ← newer cs
  let ((), cs) ← character ']' (skipScope cs)
  let ((), cs) ← character ':' cs
  let (_, cs) ← number port cs
  return (v6 (BitVec.ofNat 128 value), cs)

def addressWithPort : Scan IpAddress := fun cs =>
  match olderWithPort cs with
  | some result => some result
  | none => newerWithPort cs

/-- What a text reads as when nothing is left over. -/
def whole {α : Type} (scan : Scan α) (text : String) : Option α :=
  match scan text.toList with
  | some (value, []) => some value
  | _ => none

def ofText? (text : String) : Option IpAddress := whole address text

def ofTextWithPort? (text : String) : Option IpAddress := whole addressWithPort text

end IpAddress

end RecordRelay
