import RecordRelay.CommandLine.Arguments
import RecordRelay.Inspection.RingTable
import RecordRelay.Inspection.Route
import RecordRelay.Settings.Document

/-! An invocation reads the settings file, sets up a node with these settings and shows what is
asked for. Endpoints of the command line take the place of the peers of the settings. -/
namespace RecordRelay.CommandLine

inductive RunError where
  /-- The settings of a path cannot be used. -/
  | load (path : String) (cause : SettingsError)
  | setup (cause : SetupError)
  | keys (cause : KeyError)
  deriving DecidableEq, Repr

def RunError.message : RunError → String
  | load path _ => s!"failed to load {path}"
  | setup _ => "failed to set up peer forwarder"
  | keys cause => cause.message

def RunError.cause? : RunError → Option String
  | load _ cause => some cause.message
  | setup cause => some cause.message
  | keys _ => none

/-- The whole text of an error: the outermost error and what caused it. -/
def RunError.report (e : RunError) : String :=
  match e.cause? with
  | some cause => s!"Error: {e.message}\n\nCaused by:\n    {cause}"
  | none => s!"Error: {e.message}"

/-- Settings whose peers are the given endpoints, without blank ones. -/
def withEndpoints (settings : Settings) (endpoints : List String) : Settings :=
  { settings with
    discoveryMode := .static
    staticEndpoints := (endpoints.map Text.trim).filter (!·.isEmpty) }

def load (invocation : Invocation) (file : Option String) : Except RunError Settings := do
  let settings ← match file with
    | none => throw (.load invocation.settingsPath .unreadable)
    | some text => (Settings.ofText text).mapError (RunError.load invocation.settingsPath)
  match invocation.endpoints with
  | some endpoints => return withEndpoints settings endpoints
  | none => return settings

def execute (command : Command) (relay : Relay) : Except RunError String :=
  match command with
  | .ring => .ok (PeerShare.table relay.peerShares)
  | .route keys => ((relay.route keys).mapError RunError.keys).map Route.render

/-- What an invocation shows, given the text of its settings file and what addresses lead to this
node. Nothing is sent, so nothing that could reach other nodes is needed. -/
def run (invocation : Invocation) (file : Option String) (isLocal? : String → Option Bool) :
    Except RunError String := do
  let settings ← load invocation file
  let relay ← (Relay.start settings false none isLocal?).mapError RunError.setup
  execute invocation.command relay

end RecordRelay.CommandLine
