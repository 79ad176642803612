import RecordRelay.Inspection.KeyArguments
import RecordRelay.Relay.Basic

/-! Which peer owns a record with given key values, and whether it is processed here. -/
namespace RecordRelay

structure Route where
  /-- The owner, if there are peers. -/
  peer : Option String
  isLocal : Bool
  /-- The place where the owner takes batches. -/
  uri : Option String
  deriving DecidableEq, Repr

/-- Where a record with the key values of arguments belongs. -/
def Relay.route (relay : Relay) (arguments : List String) : Except KeyError Route :=
  (KeyArguments.compositeKey arguments).map fun key =>
    let peer := relay.routing.owner? key
    ⟨peer, relay.routing.isLocal peer, peer.map relay.settings.peerUri⟩

def Route.render (route : Route) : String :=
  match route.peer with
  | none => "no peers: processed locally"
  | some peer =>
    if route.isLocal then peer ++ " (local)" else peer ++ " -> " ++ route.uri.getD "-"

end RecordRelay
