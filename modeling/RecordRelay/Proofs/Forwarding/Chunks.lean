import RecordRelay.Proofs.Forwarding.Queues

/-! The batches of a queue are the chunks of all the records that were ever put into it, whoever put
them there and in however many calls, and what waits is the incomplete chunk at the end. A batch is
handed out by the call that brings its last record. -/
namespace RecordRelay

namespace Chunks

variable {α : Type} {size first middle last index : Nat} {history items more : List α}

/-- The chunk of a number in a list that is cut into chunks of a size. -/
def chunk (size : Nat) (items : List α) (index : Nat) : List α :=
  (items.drop (size * index)).take size

def full (size : Nat) (items : List α) : List (List α) :=
  (List.range (items.length / size)).map (chunk size items)

def leftover (size : Nat) (items : List α) : List α := items.drop (size * (items.length / size))

/-- The numbers of the chunks that become full while the number of items grows. -/
def completed (size first last : Nat) : List Nat :=
  List.range' (first / size) (last / size - first / size)

/-- The chunks that become full when a list grows. -/
def completions (size : Nat) (history items : List α) : List (List α) :=
  (completed size history.length (history ++ items).length).map (chunk size (history ++ items))

/-- A chunk becomes full when its last item comes. -/
theorem mem_completed (hsize : 0 < size) :
    index ∈ completed size first last ↔ first < size * (index + 1) ∧ size * (index + 1) ≤ last := by
  have hfirst : first / size < index + 1 ↔ first < (index + 1) * size :=
    Nat.div_lt_iff_lt_mul hsize
  have hlast : index + 1 ≤ last / size ↔ (index + 1) * size ≤ last :=
    Nat.le_div_iff_mul_le hsize
  rw [Nat.mul_comm size, ← hfirst, ← hlast, completed, List.mem_range'_1]
  omega

theorem completed_self (size first : Nat) : completed size first first = [] := by
  simp [completed]

theorem completed_append (hfirst : first ≤ middle) (hlast : middle ≤ last) :
    completed size first middle ++ completed size middle last = completed size first last := by
  have hbefore : first / size ≤ middle / size := Nat.div_le_div_right hfirst
  have hafter : middle / size ≤ last / size := Nat.div_le_div_right hlast
  have hmeet : first / size + (middle / size - first / size) = middle / size := by omega
  have hjoin := List.range'_append_1 (s := first / size) (m := middle / size - first / size)
    (n := last / size - middle / size)
  rw [hmeet] at hjoin
  rw [completed, completed, completed, hjoin]
  congr 1
  omega

/-- Full chunks stay as they are when more items come. -/
theorem chunk_append (h : size * (index + 1) ≤ items.length) (more : List α) :
    chunk size (items ++ more) index = chunk size items index := by
  rw [Nat.mul_succ] at h
  rw [chunk, chunk, List.drop_append_of_le_length (by omega), List.take_append_of_le_length]
  rw [List.length_drop]
  omega

theorem map_chunk_append (hsize : 0 < size) (first : Nat) (items more : List α) :
    (completed size first items.length).map (chunk size (items ++ more))
      = (completed size first items.length).map (chunk size items) := by
  refine List.map_congr_left fun index hindex => ?_
  exact chunk_append ((mem_completed hsize).mp hindex).2 more

@[simp] theorem completions_nil (size : Nat) (history : List α) :
    completions size history [] = [] := by
  simp [completions, completed_self]

/-- It does not matter for the chunks in how many steps a list grows. -/
theorem completions_append (hsize : 0 < size) (history items more : List α) :
    completions size history items ++ completions size (history ++ items) more
      = completions size history (items ++ more) := by
  simp only [completions]
  rw [← map_chunk_append hsize _ (history ++ items) more, ← List.map_append, List.append_assoc,
    completed_append (by simp) (by simp)]

theorem completions_eq_full (size : Nat) (items : List α) :
    completions size [] items = full size items := by
  simp [completions, full, completed, List.range_eq_range']

@[simp] theorem length_leftover (size : Nat) (items : List α) :
    (leftover size items).length = items.length % size := by
  have hdivide := Nat.div_add_mod items.length size
  rw [leftover, List.length_drop]
  omega

theorem leftover_append (size : Nat) (history items : List α) :
    leftover size history ++ items = (history ++ items).drop (size * (history.length / size)) := by
  rw [leftover, List.drop_append_of_le_length (Nat.mul_div_le ..)]

/-- The item that is missing completes the last chunk. -/
theorem completions_of_full (hsize : 0 < size) (h : size ≤ history.length % size + 1) (item : α) :
    completions size history [item] = [(leftover size history ++ [item]).take size]
      ∧ leftover size (history ++ [item]) = (leftover size history ++ [item]).drop size := by
  have hnext : (history.length + 1) / size = history.length / size + 1 := by
    have hmod := Nat.mod_lt history.length hsize
    have hdivide := Nat.div_add_mod history.length size
    rw [Nat.div_eq_iff hsize, Nat.add_mul, Nat.mul_comm _ size]
    omega
  rw [leftover_append, completions, leftover, List.length_append, List.length_singleton, hnext,
    completed, hnext, Nat.add_sub_cancel_left, List.drop_drop, Nat.mul_succ]
  exact ⟨rfl, rfl⟩

/-- Any other item joins the incomplete chunk. -/
theorem completions_of_short (hsize : 0 < size) (h : history.length % size + 1 < size) (item : α) :
    completions size history [item] = []
      ∧ leftover size (history ++ [item]) = leftover size history ++ [item] := by
  have hnext : (history.length + 1) / size = history.length / size := by
    have hdivide := Nat.div_add_mod history.length size
    rw [Nat.div_eq_iff hsize, Nat.mul_comm _ size]
    omega
  rw [leftover_append, completions, leftover, List.length_append, List.length_singleton, hnext,
    completed, hnext, Nat.sub_self]
  exact ⟨rfl, rfl⟩

end Chunks

namespace BatchingQueue
open Chunks

/-- Calls one after the other, by whomever: the batches that each of them gets, and the queue that
they leave. -/
def serve (queue : BatchingQueue) :
    List (List Record) → List (List (List Record)) × BatchingQueue
  | [] => ([], queue)
  | call :: rest =>
    let offered := queue.offerAll call
    let served := offered.2.serve rest
    (offered.1 :: served.1, served.2)

/-- A queue that has been given some records, the full chunks of which have left it. -/
structure Follows (size : Nat) (history : List Record) (queue : BatchingQueue) : Prop where
  batchSize : queue.batchSize = size
  records : queue.records = leftover size history

variable {size : Nat} {history : List Record} {queue : BatchingQueue}

theorem follows_empty (size capacity : Nat) : (empty size capacity).Follows size [] :=
  ⟨rfl, List.drop_nil.symm⟩

theorem Follows.length_lt (h : queue.Follows size history) (hsize : 0 < size) :
    queue.length < size := by
  rw [length, h.records, length_leftover]
  exact Nat.mod_lt _ hsize

theorem Follows.offer (h : queue.Follows size history) (hsize : 0 < size) (record : Record) :
    (queue.offer record).1.toList = completions size history [record]
      ∧ (queue.offer record).2.Follows size (history ++ [record]) := by
  rw [BatchingQueue.offer, h.batchSize, h.records, List.length_append, List.length_singleton,
    length_leftover]
  split_ifs with hfull
  · obtain ⟨hbatch, hrest⟩ := completions_of_full hsize hfull record
    exact ⟨hbatch.symm, rfl, hrest.symm⟩
  · obtain ⟨hbatch, hrest⟩ := completions_of_short hsize (Nat.lt_of_not_le hfull) record
    exact ⟨hbatch.symm, rfl, hrest.symm⟩

theorem Follows.offerAll (h : queue.Follows size history) (hsize : 0 < size)
    (records : List Record) :
    (queue.offerAll records).1 = completions size history records
      ∧ (queue.offerAll records).2.Follows size (history ++ records) := by
  induction records generalizing queue history with
  | nil => exact ⟨(completions_nil size history).symm, (List.append_nil history).symm ▸ h⟩
  | cons record rest ih =>
    obtain ⟨hbatch, hnext⟩ := h.offer hsize record
    obtain ⟨hbatches, hlast⟩ := ih hnext
    rw [List.append_assoc] at hlast
    refine ⟨?_, hlast⟩
    have hjoin := completions_append hsize history [record] rest
    rw [← hbatch, ← hbatches] at hjoin
    exact hjoin

theorem Follows.serve (h : queue.Follows size history) (hsize : 0 < size)
    (calls : List (List Record)) :
    (queue.serve calls).1.flatten = completions size history calls.flatten
      ∧ (queue.serve calls).2.Follows size (history ++ calls.flatten) := by
  induction calls generalizing queue history with
  | nil => exact ⟨(completions_nil size history).symm, (List.append_nil history).symm ▸ h⟩
  | cons call rest ih =>
    obtain ⟨hbatches, hnext⟩ := h.offerAll hsize call
    obtain ⟨hanswers, hlast⟩ := ih hnext
    rw [List.append_assoc] at hlast
    refine ⟨?_, hlast⟩
    rw [BatchingQueue.serve, List.flatten_cons, hbatches, hanswers]
    exact completions_append hsize history call rest.flatten

theorem capacity_serve (queue : BatchingQueue) (calls : List (List Record)) :
    (queue.serve calls).2.capacity = queue.capacity := by
  induction calls generalizing queue with
  | nil => rfl
  | cons call rest ih => rw [serve, ih, capacity_offerAll]

theorem length_serve (queue : BatchingQueue) (calls : List (List Record)) :
    (queue.serve calls).1.length = calls.length := by
  induction calls generalizing queue with
  | nil => rfl
  | cons call rest ih => rw [serve, List.length_cons, List.length_cons, ih]

/-- Earlier calls do not hear of later ones. -/
theorem serve_append (queue : BatchingQueue) (calls more : List (List Record)) :
    queue.serve (calls ++ more)
      = ((queue.serve calls).1 ++ ((queue.serve calls).2.serve more).1,
        ((queue.serve calls).2.serve more).2) := by
  induction calls generalizing queue with
  | nil => rfl
  | cons call rest ih =>
    simp only [List.cons_append, serve]
    rw [ih]

/-- However records come to a queue, it hands out the full chunks of all of them in order and keeps
the incomplete chunk. Each call is answered with the chunks whose last record it brings, and leaves
less than a batch in the queue, which is within its capacity. -/
theorem batches_are_chunks {batchSize : Nat} (hsize : 0 < batchSize) (capacity : Nat)
    (calls : List (List Record)) :
    let service := (empty batchSize capacity).serve calls
    service.1.flatten = full batchSize calls.flatten
      ∧ service.2.records = leftover batchSize calls.flatten
      ∧ ∀ before call after, calls = before ++ call :: after →
        let queue := ((empty batchSize capacity).serve (before ++ [call])).2
        service.1[before.length]?
            = some ((completed batchSize before.flatten.length (before.flatten ++ call).length).map
                (chunk batchSize calls.flatten))
          ∧ queue.length < batchSize ∧ queue.length ≤ queue.capacity
          ∧ queue.capacity = max capacity batchSize := by
  intro service
  obtain ⟨hbatches, hrest⟩ := (follows_empty batchSize capacity).serve hsize calls
  refine ⟨hbatches.trans (completions_eq_full ..), hrest.records, ?_⟩
  rintro before call after rfl queue
  refine ⟨?_, ?_⟩
  · obtain ⟨-, hbefore⟩ := (follows_empty batchSize capacity).serve hsize before
    obtain ⟨hanswer, -⟩ := hbefore.offerAll hsize call
    have hcalls : (before ++ call :: after).flatten = before.flatten ++ call ++ after.flatten := by
      simp
    have hplace := length_serve (empty batchSize capacity) before
    rw [hcalls, map_chunk_append hsize]
    simp only [service, serve_append, serve]
    rw [List.getElem?_append_right hplace.le, hplace, Nat.sub_self, List.getElem?_cons_zero,
      hanswer]
    rfl
  · obtain ⟨-, hqueue⟩ := (follows_empty batchSize capacity).serve hsize (before ++ [call])
    have hshort : queue.length < batchSize := hqueue.length_lt hsize
    have hcapacity : queue.capacity = max capacity batchSize := capacity_serve _ _
    refine ⟨hshort, ?_, hcapacity⟩
    rw [hcapacity]
    exact hshort.le.trans (le_max_right capacity batchSize)

def bareKind (kind : String) : Record := .ofEvent (.empty kind)

/-- A call without records is answered with no batch, and a batch that two calls fill together is
handed to the second. -/
theorem batches_are_chunks_boundary :
    let service := (empty 2 2).serve
      [[bareKind "a", bareKind "b", bareKind "c"], [], [bareKind "d"], [bareKind "e"]]
    0 < 2
      ∧ service.1.flatten = [[bareKind "a", bareKind "b"], [bareKind "c", bareKind "d"]]
      ∧ service.2.records = [bareKind "e"]
      ∧ service.1[0]? = some [[bareKind "a", bareKind "b"]] ∧ service.1[1]? = some []
      ∧ service.1[2]? = some [[bareKind "c", bareKind "d"]] ∧ service.2.length < 2 := by
  intro service
  have hsize : 0 < 2 := by decide
  obtain ⟨hbatches, hrest, hcalls⟩ := batches_are_chunks hsize 2
    [[bareKind "a", bareKind "b", bareKind "c"], [], [bareKind "d"], [bareKind "e"]]
  exact ⟨hsize, hbatches, hrest, (hcalls [] _ _ rfl).1, (hcalls [_] _ _ rfl).1,
    (hcalls [_, _] _ _ rfl).1, (hcalls [_, _, _] _ _ rfl).2.1⟩

end BatchingQueue

end RecordRelay
