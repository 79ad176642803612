import RecordRelay.Hash.SipHash
import RecordRelay.Ring.Node
import RecordRelay.Ring.Token
import RecordRelay.Text.Utf8

/-! A node stands on the ring at many positions, its virtual nodes, so that the key space divides
evenly and few keys move when a node joins or leaves. A partitioner places byte strings on the ring:
the keys of records, and the labels of virtual nodes. -/
namespace RecordRelay

/-- A rule that places byte strings on the ring. -/
structure Partitioner where
  name : String
  place : List UInt8 → Token

namespace Partitioner

/-- Placement by the hash SipHash-1-3 under the zero key. -/
def sipHash : Partitioner where
  name := "SipHashPartitioner"
  place key := ⟨Hash.SipHash.hash key⟩

instance : Inhabited Partitioner := ⟨sipHash⟩

end Partitioner

/-- One position of a node on the ring. -/
structure VirtualNode where
  token : Token
  nodeId : NodeId
  deriving DecidableEq, Repr

namespace VirtualNode

/-- The bytes that place the virtual node of an index: the identifier in hexadecimal, a colon and
the index in decimal. -/
def label (id : NodeId) (index : Nat) : List UInt8 :=
  Text.bytes (id.render ++ ":" ++ index.repr)

/-- The position where a partitioner puts the virtual node of an index. -/
def position (partitioner : Partitioner) (id : NodeId) (index : Nat) : Token :=
  partitioner.place (label id index)

def ofIndex (partitioner : Partitioner) (id : NodeId) (index : Nat) : VirtualNode :=
  ⟨position partitioner id index, id⟩

def distanceTo (a b : VirtualNode) : Token := a.token.distanceTo b.token

/-- Virtual nodes are ordered by token, then by node. -/
def order (a b : VirtualNode) : Ordering :=
  (a.token.order b.token).then (a.nodeId.order b.nodeId)

def render (v : VirtualNode) : String :=
  "VNode(token=" ++ v.token.render ++ ", node=" ++ v.nodeId.render ++ ")"

end VirtualNode

end RecordRelay
