import Mathlib
import RecordRelay.Forwarding.Outbox

/-! The batches that records fill, followed by what still waits, are the records that waited before,
followed by the new ones. An outbox keeps one queue for each destination, and replacing one of them
leaves all others alone. -/
namespace RecordRelay

namespace BatchingQueue

theorem offer_append (queue : BatchingQueue) (record : Record) :
    (queue.offer record).1.toList.flatten ++ (queue.offer record).2.records
      = queue.records ++ [record] := by
  rw [offer]
  split_ifs with hfull
  · simp only [Option.toList_some, List.flatten_singleton]
    exact List.take_append_drop _ _
  · rfl

theorem offerAll_append (queue : BatchingQueue) (records : List Record) :
    (queue.offerAll records).1.flatten ++ (queue.offerAll records).2.records
      = queue.records ++ records := by
  induction records generalizing queue with
  | nil => simp [offerAll]
  | cons record rest ih =>
    rw [offerAll, List.flatten_append, List.append_assoc, ih, ← List.append_assoc, offer_append,
      List.append_assoc, List.singleton_append]

@[simp] theorem batchSize_offer (queue : BatchingQueue) (record : Record) :
    (queue.offer record).2.batchSize = queue.batchSize := by
  rw [offer]
  split_ifs <;> rfl

@[simp] theorem batchSize_offerAll (queue : BatchingQueue) (records : List Record) :
    (queue.offerAll records).2.batchSize = queue.batchSize := by
  induction records generalizing queue with
  | nil => rfl
  | cons record rest ih => rw [offerAll, ih, batchSize_offer]

@[simp] theorem capacity_offer (queue : BatchingQueue) (record : Record) :
    (queue.offer record).2.capacity = queue.capacity := by
  rw [offer]
  split_ifs <;> rfl

@[simp] theorem capacity_offerAll (queue : BatchingQueue) (records : List Record) :
    (queue.offerAll records).2.capacity = queue.capacity := by
  induction records generalizing queue with
  | nil => rfl
  | cons record rest ih => rw [offerAll, ih, capacity_offer]

/-- While less than a batch waits, one more record waits with the others or completes a batch. -/
theorem offer_fits {queue : BatchingQueue} (h : queue.records.length < queue.batchSize)
    (record : Record) :
    (∀ batch ∈ (queue.offer record).1, batch.length = queue.batchSize)
      ∧ (queue.offer record).2.records.length < queue.batchSize := by
  rw [offer]
  split_ifs with hfull
  · simp only [List.length_append, List.length_singleton] at hfull
    constructor
    · intro batch hbatch
      obtain rfl := Option.mem_some.mp hbatch
      simp only [List.length_take, List.length_append, List.length_singleton]
      omega
    · simp only [List.length_drop, List.length_append, List.length_singleton]
      omega
  · refine ⟨fun batch hbatch => ?_, Nat.lt_of_not_le hfull⟩
    cases hbatch

/-- Every batch that leaves a queue is full, and what stays is less than a batch. -/
theorem offerAll_fits {queue : BatchingQueue} (h : queue.records.length < queue.batchSize)
    (records : List Record) :
    (∀ batch ∈ (queue.offerAll records).1, batch.length = queue.batchSize)
      ∧ (queue.offerAll records).2.records.length < queue.batchSize := by
  induction records generalizing queue with
  | nil => exact ⟨fun batch hbatch => absurd hbatch List.not_mem_nil, h⟩
  | cons record rest ih =>
    obtain ⟨hfirst, hnext⟩ := offer_fits h record
    rw [← batchSize_offer queue record] at hnext
    obtain ⟨hrest, hlast⟩ := ih hnext
    rw [batchSize_offer] at hrest hlast
    refine ⟨fun batch hbatch => ?_, hlast⟩
    rcases List.mem_append.mp hbatch with hbatch | hbatch
    · exact hfirst batch (Option.mem_toList.mp hbatch)
    · exact hrest batch hbatch

end BatchingQueue

namespace Outbox

/-- The queue of a destination in a list of queues, or the given one if there is none. -/
def queueOr (fresh : BatchingQueue) (destination : String)
    (queues : List (String × BatchingQueue)) : BatchingQueue :=
  ((queues.find? fun entry => entry.1 = destination).map (·.2)).getD fresh

theorem queueOr_setQueue (fresh : BatchingQueue) (destination other : String)
    (queue : BatchingQueue) (queues : List (String × BatchingQueue)) :
    queueOr fresh other (setQueue destination queue queues)
      = if other = destination then queue else queueOr fresh other queues := by
  induction queues with
  | nil =>
    by_cases h : other = destination
    · simp [queueOr, setQueue, h]
    · simp [queueOr, setQueue, h, Ne.symm h]
  | cons entry rest ih =>
    obtain ⟨name, old⟩ := entry
    rw [setQueue]
    split_ifs with hname hother hother
    · subst hname hother
      simp [queueOr]
    · simp [queueOr, hname, Ne.symm hother]
    · have hne : name ≠ other := fun heq => hname (heq.trans hother)
      rw [if_pos hother] at ih
      simpa [queueOr, hne] using ih
    · rw [if_neg hother] at ih
      by_cases hne : name = other
      · simp [queueOr, hne]
      · simpa [queueOr, hne] using ih

/-- Replacing the queue of a destination leaves those of the others alone. -/
theorem queue_setQueue (outbox : Outbox) (destination other : String) (queue : BatchingQueue) :
    ({ outbox with queues := setQueue destination queue outbox.queues } : Outbox).queue other
      = if other = destination then queue else outbox.queue other :=
  queueOr_setQueue _ destination other queue outbox.queues

theorem mem_setQueue {destination : String} {queue : BatchingQueue}
    {queues : List (String × BatchingQueue)} {entry : String × BatchingQueue}
    (h : entry ∈ setQueue destination queue queues) :
    entry = (destination, queue) ∨ entry ∈ queues := by
  induction queues with
  | nil => exact .inl (List.mem_singleton.mp h)
  | cons first rest ih =>
    obtain ⟨name, old⟩ := first
    rw [setQueue] at h
    split_ifs at h with hname
    · rcases List.mem_cons.mp h with rfl | h
      · exact .inl (by rw [hname])
      · exact .inr (List.mem_cons_of_mem _ h)
    · rcases List.mem_cons.mp h with rfl | h
      · exact .inr (List.mem_cons_self ..)
      · exact (ih h).imp id (List.mem_cons_of_mem _)

theorem queue_eq_empty_or_mem (outbox : Outbox) (destination : String) :
    outbox.queue destination = .empty outbox.batchSize (outbox.queueCapacity.getD 0)
      ∨ (destination, outbox.queue destination) ∈ outbox.queues := by
  rw [queue]
  cases hfind : outbox.queues.find? fun entry => entry.1 = destination with
  | none => exact .inl rfl
  | some entry =>
    have hname : entry.1 = destination := by simpa using List.find?_some hfind
    refine .inr ?_
    rw [← hname]
    exact List.mem_of_find?_eq_some hfind

/-- Replacing a queue exchanges its records and nothing else. -/
theorem waiting_setQueue (outbox : Outbox) (destination : String) (queue : BatchingQueue) :
    (({ outbox with queues := setQueue destination queue outbox.queues } : Outbox).waiting
        ++ (outbox.queue destination).records).Perm (outbox.waiting ++ queue.records) := by
  rw [Outbox.queue, waiting, waiting]
  induction outbox.queues with
  | nil => simp [setQueue, BatchingQueue.empty]
  | cons entry rest ih =>
    obtain ⟨name, old⟩ := entry
    simp only [setQueue]
    split_ifs with hname
    · subst hname
      simp only [List.flatMap_cons, List.find?_cons_of_pos, decide_true, Option.map_some,
        Option.getD_some]
      refine List.perm_append_comm.trans ?_
      rw [List.append_assoc]
      exact List.perm_append_comm.append_left _
    · simp only [List.flatMap_cons, List.append_assoc]
      refine List.Perm.append_left _ ?_
      simpa [hname] using ih

end Outbox

end RecordRelay
