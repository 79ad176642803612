import RecordRelay.Decimal.Places
import RecordRelay.Relay.Basic
import RecordRelay.Text.Columns

/-! Every peer with its virtual nodes and its share of the key space. -/
namespace RecordRelay

structure PeerShare where
  address : String
  virtualNodes : Nat
  share : Binary64
  isLocal : Bool

/-- The peers of a node with their shares, in ring order of first appearance. -/
def Relay.peerShares (relay : Relay) : List PeerShare :=
  relay.peerRing.ownership.map fun (address, share) =>
    ⟨address, relay.peerRing.virtualNodes, share, relay.routing.staysAt address⟩

namespace PeerShare

/-- The columns of a table. -/
def row (address virtualNodes share : String) : String :=
  Text.padEnd 40 address ++ " " ++ Text.padStart 6 virtualNodes ++ " " ++ share

def head : String := row "PEER" "VNODES" (Text.padStart 8 "SHARE")

def render (peer : PeerShare) : String :=
  let percentage := Text.padStart 7 (peer.share.scale 100).twoPlaces ++ "%"
  row peer.address peer.virtualNodes.repr
    (percentage ++ if peer.isLocal then " (local)" else "")

/-- A table, each line with a line feed behind it. -/
def table (peers : List PeerShare) : String :=
  if peers.isEmpty then "no peers: every record is processed locally"
  else String.join ((head :: peers.map render).map (· ++ "\n"))

end PeerShare

end RecordRelay
