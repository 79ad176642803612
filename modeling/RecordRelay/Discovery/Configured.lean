import RecordRelay.Discovery.PeerSource
import RecordRelay.SetupError

/-! A node that is alone has no peers, and a static list is taken from the settings. The other modes
find their peers elsewhere, so somebody else has to supply the list. -/
namespace RecordRelay

/-- The peer source that settings describe. -/
def PeerSource.ofSettings {Listener : Type} (settings : Settings) :
    Except SetupError (PeerSource Listener) :=
  match settings.discoveryMode with
  | .localNode => .ok (.fixed [])
  | .static => .ok (.fixed settings.staticEndpoints)
  | mode => .error (.externalDiscoveryRequired mode)

end RecordRelay
