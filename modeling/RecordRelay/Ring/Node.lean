import RecordRelay.Hash.Xxh3
import RecordRelay.Text.Blank
import RecordRelay.Text.Hexadecimal

/-! A node is a member of the ring: a name and a 128-bit identifier. The identifier of a peer is
hashed from its address, so every member of a fleet computes the same one. -/
namespace RecordRelay

structure NodeId where
  value : BitVec 128
  deriving DecidableEq, Repr, Inhabited

namespace NodeId

/-- Identifiers are ordered as numbers. -/
instance : LT NodeId := ⟨fun a b => a.value < b.value⟩

instance (a b : NodeId) : Decidable (a < b) := inferInstanceAs (Decidable (a.value < b.value))

def order (a b : NodeId) : Ordering := compare a.value.toNat b.value.toNat

/-- The identifier of a name: its 128-bit hash. -/
def ofName (name : String) : NodeId := ⟨Hash.Xxh3.hash name.toUTF8.data⟩

def render (id : NodeId) : String := Text.hexadecimal 32 id.value.toNat

end NodeId

inductive NodeError where
  /-- What is wrong with the description of the node. -/
  | invalid (reason : String)
  deriving DecidableEq, Repr

def NodeError.message : NodeError → String
  | .invalid reason => s!"Invalid node: {reason}"

/-- A member of the ring. -/
structure Node where
  id : NodeId
  name : String
  deriving DecidableEq, Repr, Inhabited

namespace Node

/-- The node of a peer address: blanks around the address do not count, and a blank address
names no node. -/
def ofAddress (address : String) : Except NodeError Node :=
  let name := Text.trim address
  if name.isEmpty then .error (.invalid "peer address must not be empty")
  else .ok ⟨NodeId.ofName name, name⟩

def render (node : Node) : String := s!"{node.name} ({node.id.render})"

end Node

end RecordRelay
