import RecordRelay.Event

/-! Records for one destination wait until they fill a batch. A batch leaves the queue in the very
moment in which it is full, so between calls the queue is shorter than a batch. -/
namespace RecordRelay

/-- The records that wait to fill a batch for one destination. -/
structure BatchingQueue where
  batchSize : Nat
  capacity : Nat
  records : List Record
  deriving Inhabited

namespace BatchingQueue

/-- An empty queue. Its capacity is at least one batch, and memory for so many records is taken at
once; the program stops if there is none. -/
def empty (batchSize capacity : Nat) : BatchingQueue := ⟨batchSize, max capacity batchSize, []⟩

/-- Appends one record; if that fills a batch, the batch leaves the queue. -/
def offer (queue : BatchingQueue) (record : Record) : Option (List Record) × BatchingQueue :=
  let records := queue.records ++ [record]
  if queue.batchSize ≤ records.length then
    (some (records.take queue.batchSize), { queue with records := records.drop queue.batchSize })
  else (none, { queue with records })

def offerAll (queue : BatchingQueue) : List Record → List (List Record) × BatchingQueue
  | [] => ([], queue)
  | record :: rest =>
    let (batch, queue) := queue.offer record
    let (batches, queue) := queue.offerAll rest
    (batch.toList ++ batches, queue)

def length (queue : BatchingQueue) : Nat := queue.records.length

end BatchingQueue

end RecordRelay
