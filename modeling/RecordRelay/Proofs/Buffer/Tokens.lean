import RecordRelay.Proofs.Buffer.Delivery

/-! Every buffer numbers its reads from one on, and a checkpoint looks for the number alone. To any
other buffer the token of a read therefore names the read of its own that has the same place in the
order: if that is live its records are released, and nothing happens otherwise. -/
namespace RecordRelay

namespace ReceiveBuffer

namespace Trace

variable {now : Nanoseconds} {trace next : Trace} {index : Nat} {reading own : Reading}

/-- Readings are numbered from one on without gaps. -/
structure Consecutive (trace : Trace) : Prop where
  ids : (trace.readings.map fun reading => reading.token.id)
    = List.range' 1 trace.readings.length
  nextId : trace.buffer.nextId = trace.readings.length + 1

/-- Settling readings leaves their numbers as they are. -/
theorem Consecutive.settle (h : trace.Consecutive) {fate : Fate} {ends : Delivery → Bool}
    (hreadings : next.readings = trace.readings.map (Reading.settle fate ends))
    (hnext : next.buffer.nextId = trace.buffer.nextId) : next.Consecutive where
  ids := by
    simpa only [hreadings, List.map_map, Function.comp_def, Reading.settle_token, List.length_map]
      using h.ids
  nextId := by rw [hnext, h.nextId, hreadings, List.length_map]

theorem Consecutive.transition (h : trace.Consecutive) (htrans : Transition now trace next) :
    next.Consecutive := by
  cases htrans with
  | stays => exact h
  | writes records haccepts => exact ⟨h.ids, h.nextId⟩
  | takes records rest hqueue =>
    refine ⟨?_, ?_⟩
    · rw [List.map_append, h.ids, List.length_append, List.length_singleton, List.range'_1_concat,
        Nat.add_comm 1, ← h.nextId]
      rfl
    · rw [List.length_append, List.length_singleton, ← h.nextId]
      rfl
  | lapses ends hdue => exact h.settle rfl rfl
  | releases ends => exact h.settle rfl rfl

theorem Consecutive.id_eq (h : trace.Consecutive)
    (hreading : trace.readings[index]? = some reading) : reading.token.id = index + 1 := by
  have hid : (trace.readings.map fun reading => reading.token.id)[index]?
      = some reading.token.id := by
    rw [List.getElem?_map, hreading]
    rfl
  rw [h.ids] at hid
  obtain ⟨hplace, hvalue⟩ := List.getElem?_eq_some_iff.mp hid
  rw [← hvalue, List.getElem_range', Nat.one_mul, Nat.add_comm]

/-- A number says which reading it is. -/
theorem Consecutive.getElem?_eq_some (h : trace.Consecutive)
    (hreading : reading ∈ trace.readings) (hid : reading.token.id = index + 1) :
    trace.readings[index]? = some reading := by
  obtain ⟨place, hplace⟩ := List.mem_iff_getElem?.mp hreading
  have hsame : place = index := Nat.succ.inj ((h.id_eq hplace).symm.trans hid)
  rwa [← hsame]

/-- A live reading leaves its buffer and takes its records with it. -/
theorem Consistent.checkpoint_of_live (h : trace.Consistent) (hown : own ∈ trace.readings)
    (hlive : own.fate = .live) {token : CheckpointToken} (hid : own.token.id = token.id) :
    trace.buffer.inFlight.Perm (own.delivery :: (trace.buffer.checkpoint token).inFlight)
      ∧ trace.buffer.length
        = (trace.buffer.checkpoint token).length + own.records.length := by
  have hmem : own.delivery ∈ trace.buffer.inFlight :=
    h.mem_inFlight_iff.mpr ⟨own, hown, hlive, rfl⟩
  have hended : trace.buffer.inFlight.filter (fun read => read.id = token.id)
      = [own.delivery] := by
    rw [← hid]
    exact filter_key_eq_singleton h.nodup_ids hmem
  have hcount := h.ended_le fun read => read.id = token.id
  rw [checkpoint_eq h.nodup_ids, withdraw, hended]
  rw [hended, List.flatMap_singleton] at hcount
  refine ⟨?_, ?_⟩
  · have hsplit := List.filter_append_perm (fun read => read.id = token.id) trace.buffer.inFlight
    rw [hended] at hsplit
    exact hsplit.symm
  · simp only [length, List.flatMap_singleton, Reading.delivery] at hcount ⊢
    omega

/-- What a token does to a buffer whose own reading at a place has the number of the token. -/
structure TakesForOwn (trace : Trace) (index : Nat) (token : CheckpointToken) : Prop where
  ignored : trace.buffer.checkpoint token = trace.buffer
    ↔ ∀ own, trace.readings[index]? = some own → own.fate ≠ .live
  mistaken : ∀ own, trace.readings[index]? = some own →
    trace.buffer.checkpoint token = trace.buffer.checkpoint own.token
  queue : (trace.buffer.checkpoint token).queue = trace.buffer.queue
  released : ∀ own, trace.readings[index]? = some own → own.fate = .live →
    trace.buffer.inFlight.Perm (own.delivery :: (trace.buffer.checkpoint token).inFlight)
      ∧ trace.buffer.length = (trace.buffer.checkpoint token).length + own.records.length

theorem Consistent.takesForOwn (h : trace.Consistent) (hconsecutive : trace.Consecutive)
    {token : CheckpointToken} (hid : token.id = index + 1) : trace.TakesForOwn index token := by
  have hsame {own : Reading} (hown : trace.readings[index]? = some own) :
      own.token.id = token.id := (hconsecutive.id_eq hown).trans hid.symm
  have hreleased (own : Reading) (hown : trace.readings[index]? = some own)
      (hlive : own.fate = .live) :=
    h.checkpoint_of_live (List.mem_of_getElem? hown) hlive (hsame hown)
  refine ⟨⟨fun hignored own hown hlive => ?_, fun hnone => ?_⟩, fun own hown => ?_, ?_, hreleased⟩
  · have hleaves := (hreleased own hown hlive).1.length_eq
    rw [hignored, List.length_cons] at hleaves
    omega
  · refine checkpoint_of_forall_ne fun read hread hread_id => ?_
    obtain ⟨other, hother, hlive, rfl⟩ := h.mem_inFlight_iff.mp hread
    exact hnone other (hconsecutive.getElem?_eq_some hother (hread_id.trans hid)) hlive
  · rw [checkpoint, checkpoint, hsame hown]
  · rw [checkpoint_eq h.nodup_ids, withdraw]

/-- Accesses to an empty buffer lead to the trace. -/
def Reached (trace : Trace) : Prop :=
  ∃ pipeline plugin capacity batchSize checkpointTimeout steps,
    trace = (fresh pipeline plugin capacity batchSize checkpointTimeout).run steps

theorem Reached.kept (h : trace.Reached) : trace.Consistent := by
  obtain ⟨_, _, _, _, _, steps, rfl⟩ := h
  exact (consistent_fresh ..).run steps

theorem Reached.consecutive (h : trace.Reached) : trace.Consecutive := by
  obtain ⟨_, _, _, _, _, steps, rfl⟩ := h
  exact (consistent_fresh ..).induction Consecutive ⟨rfl, rfl⟩
    (fun _ h htrans => h.transition htrans) steps

end Trace

/-- Whatever was done with two buffers: to the second one, the token of a read of the first is that
of its own read at the same place in the order. A checkpoint of it changes nothing exactly if there
is no such read that is live; otherwise the records of that read are released. The token of a read
that found nothing has no effect. -/
theorem foreign_tokens_are_taken_for_own {issuer other : Trace} (hissuer : issuer.Reached)
    (hother : other.Reached) :
    (∀ index reading, issuer.readings[index]? = some reading →
        other.TakesForOwn index reading.token)
      ∧ ∀ now, (issuer.buffer.take now).1 = [] →
        other.buffer.checkpoint (issuer.buffer.take now).2.1 = other.buffer := by
  refine ⟨fun index reading hreading => ?_, fun now hnil => ?_⟩
  · exact hother.kept.takesForOwn hother.consecutive (hissuer.consecutive.id_eq hreading)
  · rw [token_of_take_eq_nil hnil]
    exact hother.kept.checkpoint_empty

def handedRecord (plugin kind : String) : Trace :=
  (Trace.fresh "orders" plugin 4 2 10).run
    [(0, .write [.ofEvent (.empty kind)] 5), (1, .redeliver), (1, .take)]

theorem foreign_tokens_are_taken_for_own_once :
    (handedRecord "totals" "a").Reached ∧ (handedRecord "invoices" "b").Reached
      ∧ (∀ index reading, (handedRecord "totals" "a").readings[index]? = some reading →
          (handedRecord "invoices" "b").TakesForOwn index reading.token)
      ∧ ∀ now, ((handedRecord "totals" "a").buffer.take now).1 = [] →
        (handedRecord "invoices" "b").buffer.checkpoint
          ((handedRecord "totals" "a").buffer.take now).2.1
            = (handedRecord "invoices" "b").buffer := by
  have hissuer : (handedRecord "totals" "a").Reached := ⟨_, _, _, _, _, _, rfl⟩
  have hother : (handedRecord "invoices" "b").Reached := ⟨_, _, _, _, _, _, rfl⟩
  exact ⟨hissuer, hother, foreign_tokens_are_taken_for_own hissuer hother⟩

/-- The token of the first buffer's read releases the record of the second buffer's read. -/
theorem foreign_token_releases_records :
    let issuer := handedRecord "totals" "a"
    let other := handedRecord "invoices" "b"
    issuer.Reached ∧ other.Reached ∧ ∃ reading ∈ issuer.readings,
      other.buffer.checkpoint reading.token ≠ other.buffer
        ∧ (other.buffer.length, other.buffer.inFlight.length) = (1, 1)
        ∧ ((other.buffer.checkpoint reading.token).length,
          (other.buffer.checkpoint reading.token).inFlight.length) = (0, 0) := by
  intro issuer other
  have hsizes : (other.buffer.length, other.buffer.inFlight.length) = (1, 1) := rfl
  refine ⟨⟨_, _, _, _, _, _, rfl⟩, ⟨_, _, _, _, _, _, rfl⟩,
    ⟨⟨1, 1⟩, [.ofEvent (.empty "a")], 1, 11, .live⟩, .head _, fun hignored => ?_, hsizes, rfl⟩
  have hlength := congrArg ReceiveBuffer.length hignored
  exact absurd hlength (by decide)

end ReceiveBuffer

end RecordRelay
