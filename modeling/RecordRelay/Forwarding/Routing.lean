import RecordRelay.CompositeKey
import RecordRelay.Event
import RecordRelay.PeerRing

/-! The identification keys of a stage name the fields whose values decide where a record belongs:
the peer that owns those values on the ring. A record is processed here if nobody owns it, if its
owner is this node, or if the owner's address cannot be resolved; all others are sent to their
owner. -/
namespace RecordRelay

/-- What a node knows of where records belong. -/
structure Routing where
  /-- The address of the peer that owns a composite key. -/
  owner? : CompositeKey → Option String
  /-- Whether an address leads to this node, if it leads anywhere. -/
  isLocal? : String → Option Bool

namespace Routing

def ofRing (ring : PeerRing) (isLocal? : String → Option Bool) : Routing := ⟨ring.owner?, isLocal?⟩

/-- The values of the identification keys in a record. -/
def compositeKey (keys : List String) (record : Record) : CompositeKey :=
  keys.map record.event.text?

def ownerOf (routing : Routing) (keys : List String) (record : Record) : Option String :=
  routing.owner? (compositeKey keys record)

/-- An address counts as this node's also when it cannot be resolved. -/
def staysAt (routing : Routing) (address : String) : Bool := (routing.isLocal? address).getD true

def isLocal (routing : Routing) : Option String → Bool
  | none => true
  | some address => routing.staysAt address

end Routing

/-- The order of owners: nobody first, then by address. -/
def ownerBefore : Option String → Option String → Bool
  | none, some _ => true
  | some a, some b => a < b
  | _, none => false

/-- Groups of records by owner, with one more record at the end of the group of its owner. -/
def addToGroup (owner : Option String) (record : Record) :
    List (Option String × List Record) → List (Option String × List Record)
  | [] => [(owner, [record])]
  | (other, records) :: rest =>
    if owner = other then (other, records ++ [record]) :: rest
    else if ownerBefore owner other then (owner, [record]) :: (other, records) :: rest
    else (other, records) :: addToGroup owner record rest

/-- Records grouped by owner. The groups are in the order of their owners, and the records of a
group in the order in which they came. -/
def groupByOwner (owner : Record → Option String) (records : List Record) :
    List (Option String × List Record) :=
  records.foldl (fun groups record => addToGroup (owner record) record groups) []

end RecordRelay
