import RecordRelay.Decimal.Binary64
import RecordRelay.Ring.HashRing

/-! A claimed position owns the arc from the position before it, which is not part of the arc, up to
itself. The share of a node is what its arcs cover of the ring: exactly, as a number of positions,
or as a binary64 number, where every arc is rounded once and every sum once more, in ring order. -/
namespace RecordRelay.HashRing

/-- The number of positions after `previous` up to `token`: the whole ring if they are one. -/
def arcLength (previous token : Token) : Nat :=
  if previous = token then Token.ringSize else (previous.distanceTo token).position.toNat

/-- The arcs of positions in ring order, given the position before the first one. -/
def arcsFrom (previous : Token) : List (Token × NodeId) → List (NodeId × Nat)
  | [] => []
  | (token, owner) :: rest => (owner, arcLength previous token) :: arcsFrom token rest

/-- The arcs of a ring with their owners, in ring order. -/
def arcs (ring : HashRing) : List (NodeId × Nat) :=
  match ring.tokens.getLast? with
  | none => []
  | some (last, _) => arcsFrom last ring.tokens

/-- Amounts added to the amount of their owner, or put behind the others if it has none yet. -/
def addTo {α : Type} (add : α → α → α) (id : NodeId) (amount : α) :
    List (NodeId × α) → List (NodeId × α)
  | [] => [(id, amount)]
  | (other, total) :: rest =>
    if other = id then (other, add total amount) :: rest
    else (other, total) :: addTo add id amount rest

/-- The amounts of a list summed per owner, in the order in which owners first appear. -/
def tally {α : Type} (add : α → α → α) (amounts : List (NodeId × α)) : List (NodeId × α) :=
  amounts.foldl (fun totals (id, amount) => addTo add id amount totals) []

/-- The number of positions each node owns, in ring order of first appearance. -/
def coverage (ring : HashRing) : List (NodeId × Nat) := tally (· + ·) ring.arcs

/-- The part of the ring that an arc is. -/
def share (length : Nat) : Binary64 := Binary64.ofRatio length Token.ringSize

/-- The share of the ring each node owns, in ring order of first appearance. -/
def ownership (ring : HashRing) : List (NodeId × Binary64) :=
  tally Binary64.addMagnitudes (ring.arcs.map fun (id, length) => (id, share length))

end RecordRelay.HashRing
