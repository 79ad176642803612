import RecordRelay.Ring.VirtualNode

/-! The ring keeps, for every position that some virtual node claims, the node that owns it. A
position claimed by several nodes belongs to the one with the smallest identifier, whatever order
they came in. A key belongs to the owner of the first claimed position at or after its own, going
round past the end. When a node leaves, the positions it owned go to the others that claim them. -/
namespace RecordRelay

/-- A node on the ring with the positions of its virtual nodes, in the order of their indices. -/
structure Member where
  node : Node
  claims : List Token

/-- The nodes of a ring and the owners of its positions. -/
structure HashRing where
  partitioner : Partitioner
  /-- The claimed positions with their owners, in ring order. -/
  tokens : List (Token × NodeId)
  members : List Member

namespace HashRing

/-- The number of virtual nodes of a node that is added without saying how many. -/
def defaultVirtualNodes : Nat := 256

def empty (partitioner : Partitioner) : HashRing := ⟨partitioner, [], []⟩

instance : Inhabited HashRing := ⟨empty default⟩

/-- The owners after a node claims a position: the smaller identifier owns it. -/
def claim (token : Token) (id : NodeId) : List (Token × NodeId) → List (Token × NodeId)
  | [] => [(token, id)]
  | (other, owner) :: rest =>
    if token < other then (token, id) :: (other, owner) :: rest
    else if token = other then (other, if id < owner then id else owner) :: rest
    else (other, owner) :: claim token id rest

def claimAll (id : NodeId) (claims : List Token) (tokens : List (Token × NodeId)) :
    List (Token × NodeId) :=
  claims.foldl (fun tokens token => claim token id tokens) tokens

def member? (ring : HashRing) (id : NodeId) : Option Member :=
  ring.members.find? fun m => m.node.id = id

def contains (ring : HashRing) (id : NodeId) : Bool := (ring.member? id).isSome

def node? (ring : HashRing) (id : NodeId) : Option Node := (ring.member? id).map Member.node

/-- The number of virtual nodes of a node, none if it is not on the ring. -/
def virtualNodeCount (ring : HashRing) (id : NodeId) : Nat :=
  ((ring.member? id).map fun m => m.claims.length).getD 0

def nodeCount (ring : HashRing) : Nat := ring.members.length

def tokenCount (ring : HashRing) : Nat := ring.tokens.length

/-- Nodes come before each other by name, and by identifier where the names are equal. -/
def listedBefore (a b : Node) : Bool :=
  decide (a.name < b.name) || (decide (a.name = b.name) && !decide (b.id < a.id))

/-- The nodes on the ring, by name. -/
def nodes (ring : HashRing) : List Node := (ring.members.map Member.node).mergeSort listedBefore

/-- The positions of the virtual nodes of a node from index `start` on. -/
def positions (partitioner : Partitioner) (id : NodeId) (start count : Nat) : List Token :=
  (List.range' start count).map (VirtualNode.position partitioner id)

/-- The members after a node gains claims: a present member keeps its place and takes over the
new description. -/
def join (node : Node) (claims : List Token) : List Member → List Member
  | [] => [⟨node, claims⟩]
  | m :: rest =>
    if m.node.id = node.id then ⟨node, m.claims ++ claims⟩ :: rest else m :: join node claims rest

/-- The ring after a node joins with a number of virtual nodes, or gets that many more. -/
def insert (ring : HashRing) (node : Node) (virtualNodes : Nat) : HashRing :=
  let claims := positions ring.partitioner node.id (ring.virtualNodeCount node.id) virtualNodes
  { ring with
    tokens := claimAll node.id claims ring.tokens
    members := join node claims ring.members }

/-- The owners after the given members claim again the positions that were released. -/
def reclaim (released : List Token) (members : List Member) (tokens : List (Token × NodeId)) :
    List (Token × NodeId) :=
  members.foldl
    (fun tokens m => claimAll m.node.id (m.claims.filter (released.contains ·)) tokens) tokens

def erase (ring : HashRing) (id : NodeId) : HashRing :=
  match ring.member? id with
  | none => ring
  | some leaving =>
    let members := ring.members.filter fun m => m.node.id ≠ id
    { ring with
      tokens := reclaim leaving.claims members (ring.tokens.filter fun entry => entry.2 ≠ id)
      members }

/-- The ring that nodes make when they join one after the other, each with its own number of
virtual nodes or else the common one. -/
def ofNodes (partitioner : Partitioner) (virtualNodes : Nat) (nodes : List (Node × Option Nat)) :
    HashRing :=
  nodes.foldl (fun ring (node, count) => ring.insert node (count.getD virtualNodes))
    (empty partitioner)

/-- The owner of the first claimed position at or after a token, going round past the end. -/
def ownerAt (ring : HashRing) (token : Token) : Option NodeId :=
  match ring.tokens.find? fun entry => !decide (entry.1 < token) with
  | some entry => some entry.2
  | none => ring.tokens.head?.map (·.2)

def lookup (ring : HashRing) (key : List UInt8) : Option NodeId :=
  ring.ownerAt (ring.partitioner.place key)

def lookupNode (ring : HashRing) (key : List UInt8) : Option Node :=
  (ring.lookup key).bind ring.node?

def render (ring : HashRing) : String :=
  "HashRing \x7b partitioner: \"" ++ ring.partitioner.name ++ "\", nodes: " ++ ring.nodeCount.repr
    ++ ", tokens: " ++ ring.tokenCount.repr ++ " \x7d"

end HashRing

end RecordRelay
