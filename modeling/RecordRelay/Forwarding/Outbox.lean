import RecordRelay.Batch
import RecordRelay.Batching
import RecordRelay.Dispatch.Pool
import RecordRelay.Forwarding.Counters
import RecordRelay.Forwarding.Routing
import RecordRelay.Settings

/-! The outbox of a stage sorts records by owner. Records that belong here are handed back at once;
others wait in a queue of their destination until they fill a batch, which is then submitted to the
dispatch pool. A batch that the pool refuses is handed back too. -/
namespace RecordRelay

/-- The records of a stage that wait to be sent, and how they are sent. -/
structure Outbox where
  pipeline : String
  plugin : String
  /-- The fields whose values decide where a record belongs, in order. -/
  keys : List String
  batchSize : Nat
  /-- The number of records that each queue is to have room for. Where there is none the program has
  stopped. -/
  queueCapacity : Option Nat
  /-- The queues of the destinations that have had records. -/
  queues : List (String × BatchingQueue)
  counters : ForwardingCounters
  deriving Inhabited

namespace Outbox

def empty (settings : Settings) (pipeline plugin : String) (keys : List String) : Outbox :=
  ⟨pipeline, plugin, keys, settings.batchSize.toNat,
    settings.batchingQueueCapacity?.map UInt64.toNat, [], .zero⟩

/-- The queue of a destination, an empty one if it has had no records. -/
def queue (outbox : Outbox) (destination : String) : BatchingQueue :=
  ((outbox.queues.find? fun entry => entry.1 = destination).map (·.2)).getD
    (.empty outbox.batchSize (outbox.queueCapacity.getD 0))

/-- Queues with that of a destination replaced or added. -/
def setQueue (destination : String) (queue : BatchingQueue) :
    List (String × BatchingQueue) → List (String × BatchingQueue)
  | [] => [(destination, queue)]
  | (other, old) :: rest =>
    if other = destination then (other, queue) :: rest
    else (other, old) :: setQueue destination queue rest

def waiting (outbox : Outbox) : List Record := outbox.queues.flatMap fun entry => entry.2.records

def job (outbox : Outbox) (registration : Nat) (destination : String) (batch : List Record) : Job :=
  ⟨⟨destination, outbox.pipeline, outbox.plugin,
      Batch.encode batch outbox.pipeline outbox.plugin⟩, batch, registration⟩

/-- Counts a batch that was cut, submits it and counts it once more if the pool refuses it. Returns
the records that come back. -/
def submit (registration : Nat) (destination : String) (batch : List Record)
    (outbox : Outbox) (pool : Pool) : List Record × Outbox × Pool :=
  let cut := { outbox.counters with
    toBeForwarded := outbox.counters.toBeForwarded + batch.length }
  match pool.submit (outbox.job registration destination batch) with
  | .ok pool => ([], { outbox with counters := cut }, pool)
  | .error (_, refused) =>
    (refused.records,
      { outbox with counters :=
          { cut with failedForwarding := cut.failedForwarding + refused.records.length } },
      pool)

def submitAll (registration : Nat) (destination : String) :
    List (List Record) → Outbox → Pool → List Record × Outbox × Pool
  | [], outbox, pool => ([], outbox, pool)
  | batch :: rest, outbox, pool =>
    let (returned, outbox, pool) := submit registration destination batch outbox pool
    let (others, outbox, pool) := submitAll registration destination rest outbox pool
    (returned ++ others, outbox, pool)

/-- Queues records for a destination and submits every batch that this fills. -/
def post (registration : Nat) (destination : String) (records : List Record)
    (outbox : Outbox) (pool : Pool) : List Record × Outbox × Pool :=
  let (batches, queue) := (outbox.queue destination).offerAll records
  submitAll registration destination batches
    { outbox with queues := setQueue destination queue outbox.queues } pool

/-- Hands back the records of a group that belong here and queues the others for their owner. -/
def route (routing : Routing) (registration : Nat) (owner : Option String) (records : List Record)
    (outbox : Outbox) (pool : Pool) : List Record × Outbox × Pool :=
  match owner with
  | some destination =>
    if routing.staysAt destination then keep records outbox pool
    else post registration destination records outbox pool
  | none => keep records outbox pool
where
  /-- Counts records that are processed here. -/
  keep (records : List Record) (outbox : Outbox) (pool : Pool) : List Record × Outbox × Pool :=
    (records,
      { outbox with counters :=
          { outbox.counters with
            processedLocally := outbox.counters.processedLocally + records.length } },
      pool)

def routeAll (routing : Routing) (registration : Nat) :
    List (Option String × List Record) → Outbox → Pool → List Record × Outbox × Pool
  | [], outbox, pool => ([], outbox, pool)
  | (owner, records) :: rest, outbox, pool =>
    let (returned, outbox, pool) := route routing registration owner records outbox pool
    let (others, outbox, pool) := routeAll routing registration rest outbox pool
    (returned ++ others, outbox, pool)

/-- Forwards records: those that have to be processed here are returned, and all others wait in a
queue or in the pool. -/
def forward (routing : Routing) (registration : Nat) (records : List Record)
    (outbox : Outbox) (pool : Pool) : List Record × Outbox × Pool :=
  routeAll routing registration (groupByOwner (routing.ownerOf outbox.keys) records) outbox pool

def settle (outcome : Outcome) (count : Nat) (outbox : Outbox) : Outbox :=
  let counters := { outbox.counters with latencySamples := outbox.counters.latencySamples + 1 }
  { outbox with counters :=
      if outcome.isSuccess then
        { counters with
          requestsSuccessful := counters.requestsSuccessful + 1
          successfullyForwarded := counters.successfullyForwarded + count }
      else
        { counters with
          requestsFailed := counters.requestsFailed + 1
          failedForwarding := counters.failedForwarding + count } }

def countDropped (count : Nat) (outbox : Outbox) : Outbox :=
  { outbox with counters := { outbox.counters with dropped := outbox.counters.dropped + count } }

def countReceived (count : Nat) (outbox : Outbox) : Outbox :=
  { outbox with counters :=
      { outbox.counters with receivedFromPeers := outbox.counters.receivedFromPeers + count } }

def render (outbox : Outbox) : String :=
  "RemotePeerForwarder \x7b pipeline_name: " ++ Text.quoted outbox.pipeline
    ++ ", plugin_id: " ++ Text.quoted outbox.plugin
    ++ ", identification_keys: " ++ Text.quotedSet outbox.keys
    ++ ", batch_size: " ++ outbox.batchSize.repr ++ " \x7d"

end Outbox

end RecordRelay
