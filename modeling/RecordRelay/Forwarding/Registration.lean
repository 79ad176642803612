import RecordRelay.Forwarding.Outbox
import RecordRelay.ReceiveBuffer

/-! A registered stage has a receive buffer and, on a node with peers, an outbox with the dispatch
pool that serves it. A batch that a peer did not take is put into the buffer, so that its records
are processed here after all; only if there is no room for it in time is it dropped. -/
namespace RecordRelay

structure Sender where
  outbox : Outbox
  /-- The dispatch pool that takes the batches. -/
  pool : Nat
  deriving Inhabited

/-- What a registered stage moves its records with. -/
structure Registration where
  buffer : ReceiveBuffer
  /-- Nothing is sent from a node without peers. -/
  sender : Option Sender
  deriving Inhabited

namespace Registration

def key (registration : Registration) : String × String :=
  (registration.buffer.pipeline, registration.buffer.plugin)

def mapOutbox (change : Outbox → Outbox) (registration : Registration) : Registration :=
  { registration with
    sender := registration.sender.map fun sender =>
      { sender with outbox := change sender.outbox } }

/-- Takes the next batch of received records and releases it. Without an outbox nothing is ever
received. -/
def receive (registration : Registration) (now : Nanoseconds) : List Record × Registration :=
  match registration.sender with
  | none => ([], registration)
  | some _ =>
    let (records, token, buffer) := registration.buffer.read now
    (records,
      ({ registration with buffer := buffer.checkpoint token } : Registration).mapOutbox
        (Outbox.countReceived records.length))

/-- Writes records that could not be sent into the buffer, or drops them. -/
def fallBack (registration : Registration) (patience : Nanoseconds) (records : List Record) :
    Registration :=
  match registration.buffer.writeAll records patience with
  | .ok buffer => { registration with buffer }
  | .error _ => registration.mapOutbox (Outbox.countDropped records.length)

/-- Takes note of the outcome of a request and keeps its records if they were not taken. -/
def complete (registration : Registration) (patience : Nanoseconds) (outcome : Outcome)
    (records : List Record) : Registration :=
  let registration := registration.mapOutbox (Outbox.settle outcome records.length)
  if outcome.isSuccess then registration else registration.fallBack patience records

def namedCounters (registration : Registration) : List (String × Nat) :=
  match registration.sender with
  | none => []
  | some sender =>
    let labels := [("pipeline", sender.outbox.pipeline), ("plugin_id", sender.outbox.plugin)]
    sender.outbox.counters.entries.map fun (name, value) => (counterName name labels, value)

/-- Every received record has been processed; without an outbox there is nothing to wait for. -/
def isReady (registration : Registration) : Bool :=
  registration.sender.isNone || registration.buffer.isEmpty

end Registration

end RecordRelay
