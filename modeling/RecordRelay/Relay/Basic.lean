import RecordRelay.Discovery.Configured
import RecordRelay.Discovery.Following
import RecordRelay.Forwarding.Registration

/-! A node registers stages and moves their records. Its ring of peers and its dispatch pool are
made when a registration first needs them; after a pool is shut down the next such registration gets
a new one, while older registrations stay with theirs. -/
namespace RecordRelay

/-- A node with its registered stages and what they share. -/
structure Relay where
  settings : Settings
  /-- Whether there is anything that could reach other nodes. -/
  hasClient : Bool
  /-- The peer source and the rings that follow it. -/
  following : Following
  /-- The ring that tells where records belong, once there is one. -/
  ring : Option Nat
  /-- Whether an address leads to this node, if it leads anywhere. -/
  isLocal? : String → Option Bool
  /-- The registered stages, the oldest first. -/
  registrations : List Registration
  /-- Every dispatch pool that was started, the oldest first. -/
  pools : List Pool
  /-- The pool that new registrations get, once there is one. -/
  currentPool : Option Nat
  intake : IntakeCounters

namespace Relay

def idle (settings : Settings) (hasClient : Bool) (source : PeerSource Follower)
    (isLocal? : String → Option Bool) : Relay where
  settings := settings
  hasClient := hasClient
  following := .ofSource source
  ring := none
  isLocal? := isLocal?
  registrations := []
  pools := []
  currentPool := none
  intake := .zero

/-- Sets up a node. A peer source that is supplied goes before the one of the settings. -/
def start (settings : Settings) (hasClient : Bool) (source : Option (PeerSource Follower))
    (isLocal? : String → Option Bool) : Except SetupError Relay := do
  (settings.validate).mapError SetupError.settings
  let source ← match source with
    | some source => pure source
    | none => PeerSource.ofSettings settings
  return idle settings hasClient source isLocal?

instance : Inhabited Relay := ⟨idle default false (.fixed []) fun _ => none⟩

/-- The ring that tells where records belong. -/
def peerRing (relay : Relay) : PeerRing :=
  match relay.ring.bind relay.following.followers.ring? with
  | some ring => ring
  | none => .ofPeers PeerRing.defaultVirtualNodes relay.following.source.peers

/-- Makes the ring, which follows the peer source from now on. -/
def openRing (relay : Relay) : Relay :=
  match relay.ring with
  | some _ => relay
  | none =>
    let (index, following) := relay.following.addRing PeerRing.defaultVirtualNodes
    { relay with following, ring := some index }

def routing (relay : Relay) : Routing := .ofRing relay.peerRing relay.isLocal?

/-- Replaces the peers of the peer source and says whether the set changed. -/
def updatePeers (relay : Relay) (peers : List String) : Bool × Relay :=
  let (changed, following) := relay.following.update peers
  (changed, { relay with following })

def find? (relay : Relay) (pipeline plugin : String) : Option Nat :=
  relay.registrations.findIdx? fun registration => registration.key = (pipeline, plugin)

/-- Whether records leave this node: there are other nodes and a stage that asks for it. -/
def forwards (relay : Relay) : Bool :=
  relay.settings.arePeersConfigured && !relay.registrations.isEmpty

/-- The pool for a new registration. `launch` is what comes of starting a new one. -/
def openPool (relay : Relay) (launch : Except String Unit) : Except SetupError (Nat × Relay) :=
  match relay.currentPool with
  | some index => .ok (index, relay)
  | none =>
    match launch with
    | .error reason => .error (.poolNotStarted reason)
    | .ok () =>
      let pool :=
        Pool.start relay.settings.clientThreadCount.toNat relay.settings.maxPendingRequests.toNat
      let index := relay.pools.length
      .ok (index, { relay with pools := relay.pools ++ [pool], currentPool := some index })

def newBuffer (settings : Settings) (pipeline plugin : String) : ReceiveBuffer :=
  .empty pipeline plugin settings.bufferSize.toNat settings.batchSize.toNat
    settings.checkpointPatience

/-- The node with one more registration, and its number. -/
def add (relay : Relay) (registration : Registration) : Nat × Relay :=
  (relay.registrations.length,
    { relay with registrations := relay.registrations ++ [registration] })

/-- Registers a stage. A node without other nodes around it sends nothing. -/
def register (relay : Relay) (pipeline plugin : String) (keys : List String)
    (launch : Except String Unit) : Except SetupError (Nat × Relay) :=
  let buffer := newBuffer relay.settings pipeline plugin
  if relay.settings.arePeersConfigured && !relay.hasClient then .error .missingClient
  else if (relay.find? pipeline plugin).isSome then
    .error (.duplicateRegistration pipeline plugin)
  else if !relay.settings.arePeersConfigured then .ok (relay.add ⟨buffer, none⟩)
  else do
    let (pool, relay) ← relay.openPool launch
    let outbox := Outbox.empty relay.settings pipeline plugin (sortedSet keys)
    return relay.openRing.add ⟨buffer, some ⟨outbox, pool⟩⟩

/-- Registers the instances of a stage, given the identification keys of each. There is nothing to
register without instances. -/
def registerInstances (relay : Relay) (pipeline plugin : String) (instances : List (List String))
    (launch : Except String Unit) : Except SetupError (Option (Nat × Relay)) :=
  match instances.map sortedSet with
  | [] => .ok none
  | keys :: others =>
    if others.any (· ≠ keys) then .error (.mismatchedIdentificationKeys pipeline plugin)
    else if keys.isEmpty then .error (.emptyIdentificationKeys plugin)
    else (relay.register pipeline plugin keys launch).map some

def buffer? (relay : Relay) (pipeline plugin : String) : Option ReceiveBuffer := do
  return (← relay.registrations[← relay.find? pipeline plugin]?).buffer

def buffersByPipeline (relay : Relay) : List (String × List ReceiveBuffer) :=
  let buffers := relay.registrations.map Registration.buffer
  (sortedSet (buffers.map ReceiveBuffer.pipeline)).map fun pipeline =>
    (pipeline, buffers.filter fun buffer => buffer.pipeline = pipeline)

def outbox? (relay : Relay) (index : Nat) : Option Outbox := do
  return (← (← relay.registrations[index]?).sender).outbox

def setRegistration (relay : Relay) (index : Nat) (registration : Registration) : Relay :=
  { relay with registrations := relay.registrations.set index registration }

/-- Forwards the records of a registered stage and returns those that are processed here. -/
def forward (relay : Relay) (index : Nat) (records : List Record) : List Record × Relay :=
  match relay.registrations[index]? with
  | some ⟨buffer, some sender⟩ =>
    let pool := relay.pools[sender.pool]?.getD (.start 0 0)
    let (returned, outbox, pool) := sender.outbox.forward relay.routing index records pool
    (returned,
      { relay with
        registrations := relay.registrations.set index ⟨buffer, some { sender with outbox }⟩
        pools := relay.pools.set sender.pool pool })
  | _ => (records, relay)

def receive (relay : Relay) (index : Nat) (now : Nanoseconds) : List Record × Relay :=
  match relay.registrations[index]? with
  | some registration =>
    let (records, registration) := registration.receive now
    (records, relay.setRegistration index registration)
  | none => ([], relay)

/-- Every record that was sent to a registered stage has been processed. -/
def isReady (relay : Relay) (index : Nat) : Bool :=
  (relay.registrations[index]?.map Registration.isReady).getD true

def takeJob (relay : Relay) (pool : Nat) : Option (Job × Relay) := do
  let (job, next) ← (← relay.pools[pool]?).take
  return (job, { relay with pools := relay.pools.set pool next })

/-- A worker of a pool is done with the job in a place of the running ones. -/
def finishJob (relay : Relay) (pool place : Nat) : Option (Job × Relay) := do
  let (job, next) ← (← relay.pools[pool]?).finish place
  return (job, { relay with pools := relay.pools.set pool next })

/-- Takes note of the outcome of a job. -/
def complete (relay : Relay) (job : Job) (outcome : Outcome) : Relay :=
  match relay.registrations[job.registration]? with
  | some registration =>
    relay.setRegistration job.registration
      (registration.complete relay.settings.localWritePatience outcome job.records)
  | none => relay

/-- Stops the dispatch pool from taking jobs. What it has accepted is still sent. -/
def shutDown (relay : Relay) : Relay :=
  match relay.currentPool with
  | some index =>
    { relay with pools := relay.pools.modify index Pool.close, currentPool := none }
  | none => relay

end Relay

end RecordRelay
