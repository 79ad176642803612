import RecordRelay.Relay.Intake

/-! Several nodes that reach each other by address. Everything that happens in a fleet is one of a
few steps: a stage forwards or receives records, a worker takes a job, a worker is done with a job,
a node is shut down, or an address comes to lead to a node or to nowhere. -/
namespace RecordRelay

/-- Nodes and the addresses at which they take batches. -/
structure Fleet where
  relays : List Relay
  /-- The nodes that are reached, by address. -/
  handlers : List (String × Nat)
  deriving Inhabited

namespace Fleet

def ofRelays (relays : List Relay) : Fleet := ⟨relays, []⟩

def relay? (fleet : Fleet) (node : Nat) : Option Relay := fleet.relays[node]?

def setRelay (fleet : Fleet) (node : Nat) (relay : Relay) : Fleet :=
  { fleet with relays := fleet.relays.set node relay }

/-- Makes an address lead to nowhere. -/
def disconnect (fleet : Fleet) (address : String) : Fleet :=
  { fleet with handlers := fleet.handlers.filter fun entry => entry.1 ≠ address }

/-- Makes an address lead to a node. -/
def connect (fleet : Fleet) (address : String) (node : Nat) : Fleet :=
  { fleet with handlers := (address, node) :: (fleet.disconnect address).handlers }

def handler? (fleet : Fleet) (address : String) : Option Nat :=
  (fleet.handlers.find? fun entry => entry.1 = address).map (·.2)

/-- Brings a request to the node at its destination. -/
def deliver (fleet : Fleet) (request : ForwardRequest) : Outcome × Fleet :=
  match fleet.handler? request.destination with
  | none => (.error (.unknownPeer request.destination), fleet)
  | some node =>
    match fleet.relay? node with
    | none => (.error (.unknownPeer request.destination), fleet)
    | some relay =>
      let (status, relay) := relay.accept request.payload
      (.ok status, fleet.setRelay node relay)

def takeJob (fleet : Fleet) (node pool : Nat) : Option (Job × Fleet) := do
  let (job, relay) ← (← fleet.relay? node).takeJob pool
  return (job, fleet.setRelay node relay)

/-- A worker of a pool of a node sends the request of a running job and takes note of the outcome.
If the way to the destination fails or answers by itself, `answer` says how, and the request goes
nowhere. -/
def finishJob (fleet : Fleet) (node pool place : Nat) (answer : Option Outcome) :
    Option (Job × Outcome × Fleet) := do
  let (job, relay) ← (← fleet.relay? node).finishJob pool place
  let fleet := fleet.setRelay node relay
  let (outcome, fleet) := match answer with
    | some outcome => (outcome, fleet)
    | none => fleet.deliver job.request
  let relay ← fleet.relay? node
  return (job, outcome, fleet.setRelay node (relay.complete job outcome))

end Fleet

end RecordRelay
