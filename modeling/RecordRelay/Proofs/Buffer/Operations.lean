import RecordRelay.Proofs.Keys
import RecordRelay.ReceiveBuffer

/-! A write is accepted or not; reads that end are withdrawn from those in flight, and a read that
begins joins them. -/
namespace RecordRelay

namespace ReceiveBuffer

/-- There is room for records, or there are none. -/
def Accepts (buffer : ReceiveBuffer) (records : List Record) : Prop :=
  records = [] ∨ buffer.length + records.length ≤ buffer.capacity

def enqueue (buffer : ReceiveBuffer) (records : List Record) : ReceiveBuffer :=
  { buffer with queue := buffer.queue ++ records }

section Writing

variable {buffer : ReceiveBuffer} {records : List Record}

theorem writeAll_of_large (hlarge : buffer.capacity < records.length) (timeout : Nanoseconds) :
    buffer.writeAll records timeout
      = .error (.sizeOverflow records.length buffer.capacity) := by
  rw [writeAll, if_pos hlarge]

theorem writeAll_of_accepts (hsmall : records.length ≤ buffer.capacity)
    (haccepts : buffer.Accepts records) (timeout : Nanoseconds) :
    buffer.writeAll records timeout = .ok (buffer.enqueue records) := by
  rw [writeAll, if_neg hsmall.not_gt]
  by_cases hnil : records = []
  · rw [if_pos (List.isEmpty_iff.mpr hnil), enqueue, hnil, List.append_nil]
  · have hroom : buffer.hasRoom records.length = true := decide_eq_true (haccepts.resolve_left hnil)
    rw [if_neg (by rwa [List.isEmpty_iff]), if_pos hroom]
    rfl

theorem writeAll_of_not_accepts (hsmall : records.length ≤ buffer.capacity)
    (haccepts : ¬ buffer.Accepts records) (timeout : Nanoseconds) :
    buffer.writeAll records timeout = .error (.timeout timeout) := by
  obtain ⟨hnil, hroom⟩ := not_or.mp haccepts
  rw [writeAll, if_neg hsmall.not_gt, if_neg (by rwa [List.isEmpty_iff]),
    if_neg (by simpa [hasRoom] using hroom)]

theorem writeAll_ok {next : ReceiveBuffer} {timeout : Nanoseconds}
    (h : buffer.writeAll records timeout = .ok next) : next = buffer.enqueue records := by
  rcases lt_or_ge buffer.capacity records.length with hlarge | hsmall
  · rw [writeAll_of_large hlarge] at h
    exact nomatch h
  · by_cases haccepts : buffer.Accepts records
    · rw [writeAll_of_accepts hsmall haccepts] at h
      exact (Except.ok.inj h).symm
    · rw [writeAll_of_not_accepts hsmall haccepts] at h
      exact nomatch h

end Writing

def withdraw (buffer : ReceiveBuffer) (ends : Delivery → Bool) : ReceiveBuffer :=
  { buffer with
    inFlight := buffer.inFlight.filter fun read => !ends read
    inFlightRecords := buffer.inFlightRecords
      - ((buffer.inFlight.filter ends).flatMap Delivery.records).length }

/-- Every read in flight has a number of its own, the oldest the smallest. -/
def Ascending (buffer : ReceiveBuffer) : Prop :=
  (buffer.inFlight.map Delivery.id).Pairwise (· < ·)

section Ending

variable {buffer : ReceiveBuffer} {id : Nat} {read : Delivery}

theorem Ascending.nodup (h : buffer.Ascending) : (buffer.inFlight.map Delivery.id).Nodup :=
  h.imp Nat.ne_of_lt

theorem remove?_of_forall_ne (h : ∀ read ∈ buffer.inFlight, read.id ≠ id) :
    buffer.remove? id = none := by
  rw [remove?, List.find?_eq_none.mpr (by simpa using h)]

theorem remove?_eq (h : (buffer.inFlight.map Delivery.id).Nodup) (hread : read ∈ buffer.inFlight) :
    buffer.remove? read.id =
      some (read,
        { buffer with
          inFlight := buffer.inFlight.filter fun other => other.id ≠ read.id
          inFlightRecords := buffer.inFlightRecords - read.records.length }) := by
  rw [remove?, find?_key_eq_some h hread]

theorem checkpoint_of_forall_ne {token : CheckpointToken}
    (h : ∀ read ∈ buffer.inFlight, read.id ≠ token.id) : buffer.checkpoint token = buffer := by
  rw [checkpoint, remove?_of_forall_ne h]

theorem checkpoint_eq (h : (buffer.inFlight.map Delivery.id).Nodup) (token : CheckpointToken) :
    buffer.checkpoint token = buffer.withdraw fun read => read.id = token.id := by
  by_cases hnamed : ∃ read ∈ buffer.inFlight, read.id = token.id
  · obtain ⟨read, hread, hid⟩ := hnamed
    rw [checkpoint, ← hid, remove?_eq h hread]
    simp only [withdraw, ← decide_not]
    rw [filter_key_eq_singleton h hread, List.flatMap_singleton]
  · have hnone : ∀ read ∈ buffer.inFlight, read.id ≠ token.id := fun read hread hid =>
      hnamed ⟨read, hread, hid⟩
    rw [checkpoint_of_forall_ne hnone, withdraw, List.filter_eq_self.mpr (by simpa using hnone),
      List.filter_eq_nil_iff.mpr (by simpa using hnone)]
    rfl

theorem foldl_pushFront (buffer : ReceiveBuffer) (records : List Record) :
    records.reverse.foldl pushFront buffer = { buffer with queue := records ++ buffer.queue } := by
  induction records with
  | nil => rfl
  | cons record records ih =>
    rw [List.reverse_cons, List.foldl_append, ih]
    rfl

theorem takeBack_eq (h : (buffer.inFlight.map Delivery.id).Nodup)
    (hread : read ∈ buffer.inFlight) :
    buffer.takeBack read.id =
      { buffer with
        queue := read.records ++ buffer.queue
        inFlight := buffer.inFlight.filter fun other => other.id ≠ read.id
        inFlightRecords := buffer.inFlightRecords - read.records.length } := by
  rw [takeBack, remove?_eq h hread]
  exact foldl_pushFront _ _

end Ending

/-- The numbers, the largest first. -/
theorem foldr_insertDescending {ids : List Nat} (h : ids.Pairwise (· < ·)) :
    ids.foldr insertDescending [] = ids.reverse := by
  have hlast (least : Nat) (ids : List Nat) (hlt : ∀ id ∈ ids, least < id) :
      insertDescending least ids = ids ++ [least] := by
    induction ids with
    | nil => rfl
    | cons id ids ih =>
      obtain ⟨hid, hids⟩ := List.forall_mem_cons.mp hlt
      rw [insertDescending, if_neg hid.not_ge, ih hids, List.cons_append]
  induction h with
  | nil => rfl
  | cons hleast hrest ih =>
    rw [List.foldr_cons, ih, List.reverse_cons, hlast _ _ (by simpa using hleast)]

/-- Taking back reads that are in flight, the last of them first. -/
theorem foldr_takeBack {buffer : ReceiveBuffer} {reads : List Delivery}
    (hids : (buffer.inFlight.map Delivery.id).Nodup) (hreads : (reads.map Delivery.id).Nodup)
    (hmem : ∀ read ∈ reads, read ∈ buffer.inFlight) :
    (reads.map Delivery.id).foldr (fun id buffer => buffer.takeBack id) buffer =
      { buffer with
        queue := reads.flatMap Delivery.records ++ buffer.queue
        inFlight := buffer.inFlight.filter fun read => read.id ∉ reads.map Delivery.id
        inFlightRecords := buffer.inFlightRecords - (reads.flatMap Delivery.records).length } := by
  induction reads with
  | nil => simp
  | cons read reads ih =>
    obtain ⟨hread, hmem⟩ := List.forall_mem_cons.mp hmem
    obtain ⟨hnew, hreads⟩ := List.nodup_cons.mp hreads
    rw [List.map_cons, List.foldr_cons, ih hreads hmem, takeBack_eq]
    · simp only [List.filter_filter, List.flatMap_cons, List.length_append, List.append_assoc,
        List.mem_cons, not_or, Bool.decide_and]
      rw [Nat.sub_sub, Nat.add_comm]
    · exact hids.sublist (List.filter_sublist.map _)
    · exact List.mem_filter.mpr ⟨hread, by simpa using hnew⟩

/-- The records of the reads that have expired are at the front of the queue, in the order in which
they were handed out. -/
theorem redeliver_eq {buffer : ReceiveBuffer} (h : buffer.Ascending) (now : Nanoseconds) :
    buffer.redeliver now =
      { buffer.withdraw fun read => read.deadline ≤ now with
        queue := (buffer.inFlight.filter fun read => read.deadline ≤ now).flatMap Delivery.records
          ++ buffer.queue } := by
  have hdue : ((buffer.inFlight.filter fun read => read.deadline ≤ now).map Delivery.id).Pairwise
      (· < ·) := h.sublist (List.filter_sublist.map _)
  -- The numbers are those of the reads that have expired and of no others.
  have hends : ∀ read ∈ buffer.inFlight,
      (read.id ∈ (buffer.inFlight.filter fun read => read.deadline ≤ now).map Delivery.id
        ↔ read.deadline ≤ now) := by
    intro read hread
    rw [List.mem_map]
    constructor
    · rintro ⟨other, hother, hid⟩
      obtain ⟨hother, hdue⟩ := List.mem_filter.mp hother
      rw [← List.inj_on_of_nodup_map h.nodup hother hread hid]
      exact of_decide_eq_true hdue
    · exact fun hdue => ⟨read, List.mem_filter.mpr ⟨hread, decide_eq_true hdue⟩, rfl⟩
  have hrest : (buffer.inFlight.filter fun read =>
        read.id ∉ (buffer.inFlight.filter fun read => read.deadline ≤ now).map Delivery.id)
      = buffer.inFlight.filter fun read => !decide (read.deadline ≤ now) := by
    refine List.filter_congr fun read hread => ?_
    rw [← decide_not, decide_eq_decide, not_iff_not, hends read hread]
  rw [redeliver, expired, foldr_insertDescending hdue, List.foldl_reverse,
    foldr_takeBack h.nodup (hdue.imp Nat.ne_of_lt) fun read hread => (List.mem_filter.mp hread).1,
    hrest]
  rfl

/-- The buffer with a read more in flight, and the rest of its queue. -/
def handOut (buffer : ReceiveBuffer) (read : Delivery) (rest : List Record) : ReceiveBuffer :=
  { buffer with
    queue := rest
    inFlight := buffer.inFlight ++ [read]
    inFlightRecords := buffer.inFlightRecords + read.records.length
    nextId := buffer.nextId + 1 }

section Taking

variable {buffer : ReceiveBuffer}

theorem take_of_nil (h : buffer.queue.take buffer.batchSize = []) (now : Nanoseconds) :
    buffer.take now = ([], .empty, buffer) := by
  rw [take, h]
  rfl

theorem take_of_ne_nil (h : buffer.queue.take buffer.batchSize ≠ []) (now : Nanoseconds) :
    buffer.take now =
      (buffer.queue.take buffer.batchSize,
        ⟨buffer.nextId, (buffer.queue.take buffer.batchSize).length⟩,
        buffer.handOut
          ⟨buffer.nextId, buffer.queue.take buffer.batchSize, now + buffer.checkpointTimeout⟩
          (buffer.queue.drop buffer.batchSize)) := by
  rw [take, if_neg (by rwa [List.isEmpty_iff])]
  rfl

theorem token_of_take_eq_nil {now : Nanoseconds} (h : (buffer.take now).1 = []) :
    (buffer.take now).2.1 = .empty := by
  by_cases hnil : buffer.queue.take buffer.batchSize = []
  · rw [take_of_nil hnil]
  · rw [take_of_ne_nil hnil] at h
    exact absurd h hnil

theorem drop_of_take_eq_nil (h : buffer.queue.take buffer.batchSize = []) :
    buffer.queue.drop buffer.batchSize = buffer.queue := by
  rcases List.take_eq_nil_iff.mp h with h | h <;> simp [h]

end Taking

/-- The front of a buffer, up to a batch, is what a reader is handed at a time. -/
structure Taken (batchSize : Nat) (checkpointTimeout : Nanoseconds) (buffer : ReceiveBuffer)
    (now : Nanoseconds) (result : List Record × CheckpointToken × ReceiveBuffer) : Prop where
  records : result.1 = buffer.queue.take (min batchSize buffer.queue.length)
  queue : result.2.2.queue = buffer.queue.drop (min batchSize buffer.queue.length)
  inFlight : result.2.2.inFlight = buffer.inFlight
    ++ if result.1 = [] then [] else [⟨result.2.1.id, result.1, now + checkpointTimeout⟩]

theorem taken_take (buffer : ReceiveBuffer) (now : Nanoseconds) :
    Taken buffer.batchSize buffer.checkpointTimeout buffer now (buffer.take now) := by
  by_cases hnil : buffer.queue.take buffer.batchSize = []
  · rw [take_of_nil hnil]
    refine ⟨?_, ?_, ?_⟩
    · rw [← List.take_eq_take_min, hnil]
    · rw [← List.drop_eq_drop_min, drop_of_take_eq_nil hnil]
    · rw [if_pos rfl, List.append_nil]
  · rw [take_of_ne_nil hnil]
    refine ⟨List.take_eq_take_min, List.drop_eq_drop_min, ?_⟩
    rw [if_neg hnil]
    rfl

/-- A buffer differs from another in its records and in the number of its next read alone. -/
def Rearranged (buffer next : ReceiveBuffer) : Prop :=
  ∃ queue inFlight count id,
    next = { buffer with queue, inFlight, inFlightRecords := count, nextId := id }

section Staying

variable {buffer next after : ReceiveBuffer}

theorem Rearranged.refl (buffer : ReceiveBuffer) : buffer.Rearranged buffer := ⟨_, _, _, _, rfl⟩

theorem Rearranged.trans (h : buffer.Rearranged next) (hafter : next.Rearranged after) :
    buffer.Rearranged after := by
  obtain ⟨queue, inFlight, count, id, rfl⟩ := h
  obtain ⟨queue, inFlight, count, id, rfl⟩ := hafter
  exact ⟨_, _, _, _, rfl⟩

theorem Rearranged.settings_eq (h : buffer.Rearranged next) :
    next.pipeline = buffer.pipeline ∧ next.plugin = buffer.plugin
      ∧ next.capacity = buffer.capacity := by
  obtain ⟨queue, inFlight, count, id, rfl⟩ := h
  exact ⟨rfl, rfl, rfl⟩

theorem rearranged_enqueue (buffer : ReceiveBuffer) (records : List Record) :
    buffer.Rearranged (buffer.enqueue records) := ⟨_, _, _, _, rfl⟩

theorem rearranged_remove? {id : Nat} {removed : Delivery}
    (h : buffer.remove? id = some (removed, next)) : buffer.Rearranged next := by
  rw [remove?] at h
  split at h
  · exact nomatch h
  · obtain ⟨-, rfl⟩ := Prod.mk.inj (Option.some.inj h)
    exact ⟨_, _, _, _, rfl⟩

theorem rearranged_checkpoint (buffer : ReceiveBuffer) (token : CheckpointToken) :
    buffer.Rearranged (buffer.checkpoint token) := by
  rw [checkpoint]
  split
  · exact .refl buffer
  next hremove => exact rearranged_remove? hremove

theorem rearranged_takeBack (buffer : ReceiveBuffer) (id : Nat) :
    buffer.Rearranged (buffer.takeBack id) := by
  rw [takeBack]
  split
  · exact .refl buffer
  next removed rest hremove =>
    rw [foldl_pushFront]
    exact (rearranged_remove? hremove).trans ⟨_, _, _, _, rfl⟩

theorem rearranged_redeliver (buffer : ReceiveBuffer) (now : Nanoseconds) :
    buffer.Rearranged (buffer.redeliver now) := by
  rw [redeliver]
  generalize buffer.expired now = ids
  induction ids generalizing buffer with
  | nil => exact .refl buffer
  | cons id ids ih => exact (buffer.rearranged_takeBack id).trans (ih _)

theorem rearranged_take (buffer : ReceiveBuffer) (now : Nanoseconds) :
    buffer.Rearranged (buffer.take now).2.2 := by
  rw [take]
  split_ifs
  · exact .refl buffer
  · exact ⟨_, _, _, _, rfl⟩

theorem rearranged_read (buffer : ReceiveBuffer) (now : Nanoseconds) :
    buffer.Rearranged (buffer.read now).2.2 :=
  (buffer.rearranged_redeliver now).trans (rearranged_take _ now)

end Staying

end ReceiveBuffer

end RecordRelay
