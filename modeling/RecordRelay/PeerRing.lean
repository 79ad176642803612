import RecordRelay.CompositeKey
import RecordRelay.Ring.Ownership

/-! A ring whose nodes are the addresses of a peer list. When the list changes, only the peers that
joined or left are added or removed, so keys of the others stay where they are. Blank entries of the
list name no peer, and blanks around an address do not count. -/
namespace RecordRelay

/-- A hash ring of peers with the same number of virtual nodes each. -/
structure PeerRing where
  ring : HashRing
  virtualNodes : Nat
  deriving Inhabited

namespace PeerRing

def defaultVirtualNodes : Nat := 128

def empty (virtualNodes : Nat) : PeerRing := ⟨HashRing.empty .sipHash, virtualNodes⟩

def nodesOf (peers : List String) : List Node :=
  peers.filterMap fun address => (Node.ofAddress address).toOption

/-- The ring after the nodes that are not on it yet have joined, in the given order. -/
def enroll (virtualNodes : Nat) (ring : HashRing) (nodes : List Node) : HashRing :=
  nodes.foldl
    (fun ring node => if ring.contains node.id then ring else ring.insert node virtualNodes) ring

/-- The ring after every node that is not wanted has left. -/
def dismiss (wanted : List Node) (ring : HashRing) : HashRing :=
  (ring.nodes.filter fun node => !wanted.any (·.id = node.id)).foldl
    (fun ring node => ring.erase node.id) ring

/-- The ring after it follows a peer list: first the new peers join, then the missing ones leave. -/
def update (peerRing : PeerRing) (peers : List String) : PeerRing :=
  let wanted := nodesOf peers
  { peerRing with ring := dismiss wanted (enroll peerRing.virtualNodes peerRing.ring wanted) }

def ofPeers (virtualNodes : Nat) (peers : List String) : PeerRing :=
  (empty virtualNodes).update peers

/-- The address of the peer that owns a composite key, if there are peers. -/
def owner? (peerRing : PeerRing) (key : CompositeKey) : Option String :=
  (peerRing.ring.lookupNode key.encode).map Node.name

def peers (peerRing : PeerRing) : List String := peerRing.ring.nodes.map Node.name

def ownership (peerRing : PeerRing) : List (String × Binary64) :=
  peerRing.ring.ownership.filterMap fun (id, share) =>
    (peerRing.ring.node? id).map fun node => (node.name, share)

def render (peerRing : PeerRing) : String :=
  "PeerHashRing \x7b ring: " ++ peerRing.ring.render ++ ", virtual_nodes: "
    ++ peerRing.virtualNodes.repr ++ " \x7d"

end PeerRing

end RecordRelay
