import RecordRelay.Ring.Node
import RecordRelay.Settings

/-! What can go wrong while a node is set up and stages are registered. Once records are in motion
nothing fails any more: what cannot be sent is processed here. -/
namespace RecordRelay

inductive SetupError where
  | settings (cause : SettingsError)
  | duplicateRegistration (pipeline plugin : String)
  | emptyIdentificationKeys (plugin : String)
  | mismatchedIdentificationKeys (pipeline plugin : String)
  /-- The peer list of this mode has to be supplied from outside. -/
  | externalDiscoveryRequired (mode : DiscoveryMode)
  /-- There are peers but nothing that could reach them. -/
  | missingClient
  /-- The workers that send batches cannot be started. -/
  | poolNotStarted (reason : String)
  | invalidPeer (cause : NodeError)
  deriving DecidableEq, Repr

def SetupError.message : SetupError → String
  | settings cause => s!"invalid peer forwarder configuration: {cause.message}"
  | duplicateRegistration pipeline plugin =>
    s!"a peer forwarder is already registered for pipeline '{pipeline}' and plugin '{plugin}'"
  | emptyIdentificationKeys plugin => s!"plugin '{plugin}' cannot have empty identification keys"
  | mismatchedIdentificationKeys pipeline plugin =>
    s!"all instances of plugin '{plugin}' in pipeline '{pipeline}' must have "
      ++ "the same identification keys"
  | externalDiscoveryRequired mode =>
    s!"discovery mode '{mode.name}' needs an externally supplied peer list provider"
  | missingClient => "peer forwarding is required but no transport client was configured"
  | poolNotStarted reason => s!"failed to start dispatch pool: {reason}"
  | invalidPeer cause => s!"invalid peer address: {cause.message}"

end RecordRelay
