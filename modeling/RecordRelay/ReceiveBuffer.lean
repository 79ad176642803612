import RecordRelay.Event
import RecordRelay.Text.Duration
import RecordRelay.Text.Quoted

/-! A bounded buffer of the records that other nodes sent here and of those that could not be sent.
A read hands out the oldest records, up to a batch, and a checkpoint of its token releases them;
until then they count against the capacity. A read that is not checkpointed by its deadline is
undone: at the next read its records are back at the front of the queue. Times are given by the
caller. -/
namespace RecordRelay

/-- Names one read of a buffer. -/
structure CheckpointToken where
  id : Nat
  recordCount : Nat
  deriving DecidableEq, Repr

namespace CheckpointToken

def empty : CheckpointToken := ⟨0, 0⟩

def render (token : CheckpointToken) : String :=
  "CheckpointToken \x7b id: " ++ token.id.repr ++ ", record_count: " ++ token.recordCount.repr
    ++ " \x7d"

end CheckpointToken

/-- A read that has not been released. -/
structure Delivery where
  id : Nat
  records : List Record
  deadline : Nanoseconds

inductive BufferError where
  /-- There are more records than the buffer could ever hold. -/
  | sizeOverflow (requested capacity : Nat)
  /-- There was no room for the records within the time that the writer was willing to wait. -/
  | timeout (waited : Nanoseconds)
  deriving DecidableEq, Repr

def BufferError.message : BufferError → String
  | sizeOverflow requested capacity =>
    s!"batch of {requested} records exceeds buffer capacity of {capacity}"
  | timeout waited => s!"timed out after {Text.duration waited} waiting for buffer space"

structure ReceiveBuffer where
  pipeline : String
  plugin : String
  capacity : Nat
  batchSize : Nat
  checkpointTimeout : Nanoseconds
  /-- The records that wait to be read, the oldest first. -/
  queue : List Record
  /-- The reads that have not been released, the oldest first. -/
  inFlight : List Delivery
  /-- The number of records in those reads. -/
  inFlightRecords : Nat
  /-- The identifier of the next read that finds records. -/
  nextId : Nat
  deriving Inhabited

namespace ReceiveBuffer

/-- An empty buffer. Memory for as many records as it may hold is taken at once; the program stops
if there is none. -/
def empty (pipeline plugin : String) (capacity batchSize : Nat) (checkpointTimeout : Nanoseconds) :
    ReceiveBuffer :=
  ⟨pipeline, plugin, capacity, batchSize, checkpointTimeout, [], [], 0, 1⟩

def length (buffer : ReceiveBuffer) : Nat := buffer.queue.length + buffer.inFlightRecords

/-- Nothing waits and every read has been released. -/
def isEmpty (buffer : ReceiveBuffer) : Bool := buffer.length = 0

def hasRoom (buffer : ReceiveBuffer) (count : Nat) : Bool :=
  buffer.length + count ≤ buffer.capacity

/-- Writes all records or none. The buffer is as it is when room has become free or when the
writer, after waiting for `timeout`, gives up. -/
def writeAll (buffer : ReceiveBuffer) (records : List Record) (timeout : Nanoseconds) :
    Except BufferError ReceiveBuffer :=
  if buffer.capacity < records.length then .error (.sizeOverflow records.length buffer.capacity)
  else if records.isEmpty then .ok buffer
  else if buffer.hasRoom records.length then .ok { buffer with queue := buffer.queue ++ records }
  else .error (.timeout timeout)

/-- Takes a read out of those in flight. -/
def remove? (buffer : ReceiveBuffer) (id : Nat) : Option (Delivery × ReceiveBuffer) :=
  match buffer.inFlight.find? fun read => read.id = id with
  | none => none
  | some removed =>
    some (removed,
      { buffer with
        inFlight := buffer.inFlight.filter fun read => read.id ≠ id
        inFlightRecords := buffer.inFlightRecords - removed.records.length })

/-- Puts a record at the front of the queue. -/
def pushFront (buffer : ReceiveBuffer) (record : Record) : ReceiveBuffer :=
  { buffer with queue := record :: buffer.queue }

/-- Takes a read back: its last record goes to the front of the queue first. -/
def takeBack (buffer : ReceiveBuffer) (id : Nat) : ReceiveBuffer :=
  match buffer.remove? id with
  | none => buffer
  | some (removed, rest) => removed.records.reverse.foldl pushFront rest

/-- Places a number among others, of which the largest come first. -/
def insertDescending (id : Nat) : List Nat → List Nat
  | [] => [id]
  | other :: rest => if other ≤ id then id :: other :: rest else other :: insertDescending id rest

/-- The reads whose deadline has passed, the newest first. -/
def expired (buffer : ReceiveBuffer) (now : Nanoseconds) : List Nat :=
  ((buffer.inFlight.filter fun read => read.deadline ≤ now).map Delivery.id).foldr
    insertDescending []

/-- Takes back the reads whose deadline has passed. The newest go first, so that the records of the
oldest end up in front. -/
def redeliver (buffer : ReceiveBuffer) (now : Nanoseconds) : ReceiveBuffer :=
  (buffer.expired now).foldl takeBack buffer

/-- Hands out the oldest records that wait, up to a batch. -/
def take (buffer : ReceiveBuffer) (now : Nanoseconds) :
    List Record × CheckpointToken × ReceiveBuffer :=
  let records := buffer.queue.take buffer.batchSize
  if records.isEmpty then ([], .empty, buffer)
  else
    let read := ⟨buffer.nextId, records, now + buffer.checkpointTimeout⟩
    (records, ⟨buffer.nextId, records.length⟩,
      { buffer with
        queue := buffer.queue.drop buffer.batchSize
        inFlight := buffer.inFlight ++ [read]
        inFlightRecords := buffer.inFlightRecords + records.length
        nextId := buffer.nextId + 1 })

/-- A read: undoes what has expired and hands out the next records. -/
def read (buffer : ReceiveBuffer) (now : Nanoseconds) :
    List Record × CheckpointToken × ReceiveBuffer :=
  (buffer.redeliver now).take now

/-- Releases the records of a read. A token that names no read in flight changes nothing. -/
def checkpoint (buffer : ReceiveBuffer) (token : CheckpointToken) : ReceiveBuffer :=
  match buffer.remove? token.id with
  | none => buffer
  | some (_, rest) => rest

def render (buffer : ReceiveBuffer) : String :=
  "PeerForwarderReceiveBuffer \x7b pipeline_name: " ++ Text.quoted buffer.pipeline
    ++ ", plugin_id: " ++ Text.quoted buffer.plugin ++ ", capacity: " ++ buffer.capacity.repr
    ++ ", batch_size: " ++ buffer.batchSize.repr ++ " \x7d"

end ReceiveBuffer

end RecordRelay
