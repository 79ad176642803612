import RecordRelay.Fleet
import RecordRelay.Proofs.Relay.Operations

/-! A run is a list of actions, one after the other, at any nodes of a fleet. What records an action
takes in or hands out, and what became of a job that it finished, is noted. An action that is not
possible changes nothing. -/
namespace RecordRelay

namespace Fleet

/-- The records on their way out of the nodes that wait in batching queues. -/
def pending (fleet : Fleet) : StageRecords := (fleet.relays.map Relay.pending).sum

/-- The records of the jobs that dispatch pools have accepted and no worker is done with. -/
def dispatched (fleet : Fleet) : StageRecords := (fleet.relays.map Relay.dispatched).sum

/-- The records in receive buffers. -/
def buffered (fleet : Fleet) : StageRecords := (fleet.relays.map Relay.buffered).sum

def dropped (fleet : Fleet) : Nat := (fleet.relays.map Relay.dropped).sum

inductive Action where
  | register (node : Nat) (pipeline plugin : String) (keys : List String)
      (launch : Except String Unit)
  | forward (node registration : Nat) (records : List Record)
  | receive (node registration : Nat) (now : Nanoseconds)
  | takeJob (node pool : Nat)
  | finishJob (node pool place : Nat)
  | shutDown (node : Nat)
  /-- The rings of a node, and what it knows of addresses, change in any way. -/
  | reroute (node : Nat) (following : Following) (isLocal? : String → Option Bool)
  | connect (address : String) (node : Nat)
  | disconnect (address : String)

inductive Note where
  /-- Records that were forwarded, those that came back, and the jobs that the pool refused. -/
  | forwarded (node : Nat) (stage : String × String) (records returned : List Record)
      (refused : List Job)
  | received (node : Nat) (stage : String × String) (records : List Record)
  /-- A job that a worker was done with, and how many more records count as dropped since. -/
  | sent (node : Nat) (job : Job) (outcome : Outcome) (dropped : Nat)

def change (fleet : Fleet) (node : Nat) (f : Relay → Relay) : Fleet :=
  match fleet.relay? node with
  | some relay => fleet.setRelay node (f relay)
  | none => fleet

def registration? (fleet : Fleet) (node index : Nat) : Option (Relay × Registration) := do
  let relay ← fleet.relay? node
  let registration ← relay.registrations[index]?
  return (relay, registration)

def act (fleet : Fleet) : Action → Fleet × List Note
  | .register node pipeline plugin keys launch =>
    (fleet.change node fun relay =>
      match relay.register pipeline plugin keys launch with
      | .ok (_, next) => next
      | .error _ => relay, [])
  | .forward node index records =>
    match fleet.registration? node index with
    | some (relay, registration) =>
      let (returned, next) := relay.forward index records
      (fleet.setRelay node next,
        [.forwarded node registration.key records returned (relay.refused index records)])
    | none => (fleet, [])
  | .receive node index now =>
    match fleet.registration? node index with
    | some (relay, registration) =>
      let (records, next) := relay.receive index now
      (fleet.setRelay node next, [.received node registration.key records])
    | none => (fleet, [])
  | .takeJob node pool =>
    match fleet.takeJob node pool with
    | some (_, next) => (next, [])
    | none => (fleet, [])
  | .finishJob node pool place =>
    match fleet.finishJob node pool place none with
    | some (job, outcome, next) => (next, [.sent node job outcome (next.dropped - fleet.dropped)])
    | none => (fleet, [])
  | .shutDown node => (fleet.change node Relay.shutDown, [])
  | .reroute node following isLocal? =>
    (fleet.change node fun relay => { relay with following, isLocal? }, [])
  | .connect address node => (fleet.connect address node, [])
  | .disconnect address => (fleet.disconnect address, [])

theorem act_forward {fleet : Fleet} {node index : Nat} {relay : Relay} {registration : Registration}
    (h : fleet.registration? node index = some (relay, registration)) (records : List Record) :
    fleet.act (.forward node index records)
      = (fleet.setRelay node (relay.forward index records).2,
        [.forwarded node registration.key records (relay.forward index records).1
          (relay.refused index records)]) := by
  rw [act, h]

theorem act_receive {fleet : Fleet} {node index : Nat} {relay : Relay} {registration : Registration}
    (h : fleet.registration? node index = some (relay, registration)) (now : Nanoseconds) :
    fleet.act (.receive node index now)
      = (fleet.setRelay node (relay.receive index now).2,
        [.received node registration.key (relay.receive index now).1]) := by
  rw [act, h]

theorem act_finishJob {fleet next : Fleet} {node pool place : Nat} {job : Job} {outcome : Outcome}
    (h : fleet.finishJob node pool place none = some (job, outcome, next)) :
    fleet.act (.finishJob node pool place)
      = (next, [.sent node job outcome (next.dropped - fleet.dropped)]) := by
  rw [act, h]

def run : List Action → Fleet → Fleet × List Note
  | [], fleet => (fleet, [])
  | action :: rest, fleet =>
    let (fleet, notes) := fleet.act action
    let (fleet, others) := run rest fleet
    (fleet, notes ++ others)

namespace Note

def submitted : Note → StageRecords
  | forwarded _ stage records _ _ => ofStage stage records
  | _ => 0

def returned : Note → StageRecords
  | forwarded _ stage _ returned _ => ofStage stage returned
  | _ => 0

def handedOut : Note → StageRecords
  | received _ stage records => ofStage stage records
  | _ => 0

/-- The records of a job that was answered with a success. -/
def crossed : Note → StageRecords
  | sent _ job outcome _ => if outcome.isSuccess then job.stageRecords else 0
  | _ => 0

/-- The records of a job that was not answered with a success, if none of them was dropped. -/
def fellBack : Note → StageRecords
  | sent _ job outcome dropped =>
    if outcome.isSuccess = false ∧ dropped = 0 then job.stageRecords else 0
  | _ => 0

/-- The records of a job that was not answered with a success, if they were dropped. -/
def lost : Note → StageRecords
  | sent _ job outcome dropped =>
    if outcome.isSuccess = false ∧ dropped ≠ 0 then job.stageRecords else 0
  | _ => 0

end Note

def total (records : Note → StageRecords) (notes : List Note) : StageRecords :=
  (notes.map records).sum

end Fleet

end RecordRelay
