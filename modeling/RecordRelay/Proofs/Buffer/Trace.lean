import RecordRelay.Proofs.Buffer.Operations

/-! Beside a buffer stands what those who use it know: the records they have written, and every read
that found records, with its token, its deadline and what has become of it. The accesses are those
parts of an operation that nothing else comes between. A read is two of them, since a reader that
finds nothing waits before it takes; of a write that waits, the last look for room is the access. -/
namespace RecordRelay

namespace ReceiveBuffer

inductive Fate where
  /-- Its records are in flight. -/
  | live
  /-- Its token was checkpointed, and its records are done with. -/
  | released
  /-- Its deadline passed, and its records went back to the queue. -/
  | lapsed
  deriving DecidableEq

/-- A read that found records, as its reader knows it. -/
structure Reading where
  token : CheckpointToken
  records : List Record
  /-- When the records were handed out. -/
  time : Nanoseconds
  deadline : Nanoseconds
  fate : Fate

namespace Reading

/-- What the buffer keeps of a reading. -/
def delivery (reading : Reading) : Delivery := ⟨reading.token.id, reading.records, reading.deadline⟩

/-- Gives a live reading a fate if it ends. -/
def settle (fate : Fate) (ends : Delivery → Bool) (reading : Reading) : Reading :=
  { reading with
    fate := if reading.fate = .live ∧ ends reading.delivery then fate else reading.fate }

variable {fate : Fate} {ends : Delivery → Bool} {reading : Reading}

@[simp] theorem settle_token : (reading.settle fate ends).token = reading.token := rfl

@[simp] theorem settle_records : (reading.settle fate ends).records = reading.records := rfl

@[simp] theorem settle_time : (reading.settle fate ends).time = reading.time := rfl

@[simp] theorem settle_deadline : (reading.settle fate ends).deadline = reading.deadline := rfl

theorem settle_of_not (h : ¬ (reading.fate = .live ∧ ends reading.delivery = true)) :
    reading.settle fate ends = reading := by
  rw [settle, if_neg h]

/-- A fate is final. -/
theorem settle_of_ne_live (hfate : reading.fate ≠ .live) : reading.settle fate ends = reading :=
  settle_of_not fun h => hfate h.1

theorem settle_fate_iff {other : Fate} (hother : other ≠ .live) :
    (reading.settle fate ends).fate = other
      ↔ reading.fate = other
        ∨ fate = other ∧ reading.fate = .live ∧ ends reading.delivery = true := by
  by_cases hends : reading.fate = .live ∧ ends reading.delivery = true
  · simp [settle, hends, hother.symm]
  · simp [settle, hends]

theorem settle_live_iff (hfate : fate ≠ .live) :
    (reading.settle fate ends).fate = .live
      ↔ reading.fate = .live ∧ ends reading.delivery = false := by
  by_cases hends : reading.fate = .live ∧ ends reading.delivery = true
  · simp [settle, hends, hfate]
  · rw [settle_of_not hends]
    simpa using hends

end Reading

/-- The readings that have come to a fate, the oldest first. -/
def withFate (fate : Fate) (readings : List Reading) : List Reading :=
  readings.filter fun reading => reading.fate = fate

def handed (readings : List Reading) : List Record := readings.flatMap Reading.records

section Settling

variable {fate other : Fate} {ends : Delivery → Bool} {readings more : List Reading}

theorem withFate_append :
    withFate fate (readings ++ more) = withFate fate readings ++ withFate fate more :=
  List.filter_append ..

theorem handed_append : handed (readings ++ more) = handed readings ++ handed more :=
  List.flatMap_append

theorem flatMap_delivery :
    (readings.map Reading.delivery).flatMap Delivery.records = handed readings :=
  List.flatMap_map ..

theorem handed_settle :
    handed (readings.map (Reading.settle fate ends)) = handed readings := by
  simp only [handed, List.flatMap_map, Reading.settle_records]

/-- Those that end are no longer live. -/
theorem withFate_live_settle (hfate : fate ≠ .live) :
    withFate .live (readings.map (Reading.settle fate ends))
      = (withFate .live readings).filter fun reading => !ends reading.delivery := by
  have hsame : ∀ reading ∈ (withFate .live readings).filter fun reading => !ends reading.delivery,
      reading.settle fate ends = id reading := fun reading hreading =>
    Reading.settle_of_not (by simp_all [withFate])
  rw [← List.map_id ((withFate .live readings).filter _), ← List.map_congr_left hsame, withFate,
    withFate, List.filter_map, List.filter_filter]
  congr 2
  funext reading
  simp [Reading.settle_live_iff hfate, Bool.and_comm]

theorem handed_withFate_settle (hother : other ≠ .live) :
    handed (withFate other (readings.map (Reading.settle fate ends)))
      = handed (readings.filter fun reading => reading.fate = other
          ∨ fate = other ∧ reading.fate = .live ∧ ends reading.delivery = true) := by
  rw [withFate, List.filter_map]
  refine handed_settle.trans ?_
  congr 2
  funext reading
  simp [Reading.settle_fate_iff hother]

/-- A third fate gains nothing. -/
theorem handed_settle_of_ne (hother : other ≠ .live) (hne : fate ≠ other) :
    handed (withFate other (readings.map (Reading.settle fate ends)))
      = handed (withFate other readings) := by
  rw [handed_withFate_settle hother]
  simp only [hne, false_and, or_false]
  rfl

/-- Those that end come to the fate, besides those that had it before. -/
theorem handed_settle_perm (hfate : fate ≠ .live) :
    (handed (withFate fate (readings.map (Reading.settle fate ends)))).Perm
      (handed (withFate fate readings)
        ++ handed ((withFate .live readings).filter fun reading => ends reading.delivery)) := by
  rw [handed_withFate_settle hfate, ← handed_append]
  refine List.Perm.flatMap_right _ ?_
  refine (List.filter_append_perm (fun reading => reading.fate = fate) _).symm.trans (.of_eq ?_)
  rw [List.filter_filter, List.filter_filter, withFate, withFate, List.filter_filter]
  congr 2 <;> funext reading
  · by_cases h : reading.fate = fate <;> simp [h]
  · by_cases h : reading.fate = fate
    · simp [h, hfate]
    · simp [h, Bool.and_comm]

end Settling

/-- What a reader that is handed records at a time knows of them. -/
def handover (buffer : ReceiveBuffer) (now : Nanoseconds) (records : List Record) : Reading :=
  ⟨⟨buffer.nextId, records.length⟩, records, now, now + buffer.checkpointTimeout, .live⟩

theorem handed_handover (buffer : ReceiveBuffer) (now : Nanoseconds) (records : List Record) :
    handed [buffer.handover now records] = records :=
  List.flatMap_singleton ..

/-- A part of an operation that nothing else comes between. -/
inductive Access where
  /-- A writer looks for room for its records. -/
  | write (records : List Record) (timeout : Nanoseconds)
  /-- A reader begins, and undoes what has expired. -/
  | redeliver
  /-- A reader takes what waits. -/
  | take
  | checkpoint (token : CheckpointToken)

/-- A buffer with what was written into it and read from it so far. -/
structure Trace where
  buffer : ReceiveBuffer
  /-- The records of the writes that succeeded, in their order. -/
  written : List Record
  /-- The reads that found records, in their order. -/
  readings : List Reading

namespace Trace

/-- An access at a time. A write that fails leaves no trace. -/
def perform (now : Nanoseconds) : Access → Trace → Trace
  | .write records timeout, trace =>
    match trace.buffer.writeAll records timeout with
    | .ok buffer => { trace with buffer, written := trace.written ++ records }
    | .error _ => trace
  | .redeliver, trace =>
    { trace with
      buffer := trace.buffer.redeliver now
      readings := trace.readings.map (Reading.settle .lapsed fun read => read.deadline ≤ now) }
  | .take, trace =>
    let (records, token, buffer) := trace.buffer.take now
    let reading := ⟨token, records, now, now + buffer.checkpointTimeout, .live⟩
    { trace with
      buffer
      readings := if records.isEmpty then trace.readings else trace.readings ++ [reading] }
  | .checkpoint token, trace =>
    { trace with
      buffer := trace.buffer.checkpoint token
      readings := trace.readings.map (Reading.settle .released fun read => read.id = token.id) }

def run (trace : Trace) (steps : List (Nanoseconds × Access)) : Trace :=
  steps.foldl (fun trace step => trace.perform step.1 step.2) trace

def fresh (pipeline plugin : String) (capacity batchSize : Nat) (checkpointTimeout : Nanoseconds) :
    Trace :=
  ⟨empty pipeline plugin capacity batchSize checkpointTimeout, [], []⟩

theorem run_append (trace : Trace) (steps more : List (Nanoseconds × Access)) :
    trace.run (steps ++ more) = (trace.run steps).run more :=
  List.foldl_append ..

/-- A reader that need not wait makes both accesses of its read at once. -/
theorem run_read (trace : Trace) (now : Nanoseconds) :
    (trace.run [(now, .redeliver), (now, .take)]).buffer = (trace.buffer.read now).2.2 :=
  rfl

/-- The trace before an access and after it. -/
inductive Transition (now : Nanoseconds) (trace : Trace) : Trace → Prop
  | stays : Transition now trace trace
  | writes (records : List Record) (haccepts : trace.buffer.Accepts records) :
      Transition now trace
        ⟨trace.buffer.enqueue records, trace.written ++ records, trace.readings⟩
  | takes (records rest : List Record) (hqueue : trace.buffer.queue = records ++ rest) :
      Transition now trace
        ⟨trace.buffer.handOut (trace.buffer.handover now records).delivery rest,
          trace.written, trace.readings ++ [trace.buffer.handover now records]⟩
  | lapses (ends : Delivery → Bool) (hdue : ∀ read, ends read = true → read.deadline ≤ now) :
      Transition now trace
        ⟨{ trace.buffer.withdraw ends with
            queue := (trace.buffer.inFlight.filter ends).flatMap Delivery.records
              ++ trace.buffer.queue },
          trace.written, trace.readings.map (Reading.settle .lapsed ends)⟩
  | releases (ends : Delivery → Bool) :
      Transition now trace
        ⟨trace.buffer.withdraw ends, trace.written,
          trace.readings.map (Reading.settle .released ends)⟩

variable {now : Nanoseconds} {trace next : Trace}

theorem transition_perform (h : trace.buffer.Ascending) (access : Access) :
    Transition now trace (trace.perform now access) := by
  cases access with
  | write records timeout =>
    rw [perform]
    rcases lt_or_ge trace.buffer.capacity records.length with hlarge | hsmall
    · rw [writeAll_of_large hlarge]
      exact .stays
    · by_cases haccepts : trace.buffer.Accepts records
      · rw [writeAll_of_accepts hsmall haccepts]
        exact .writes records haccepts
      · rw [writeAll_of_not_accepts hsmall haccepts]
        exact .stays
  | redeliver =>
    rw [perform, redeliver_eq h]
    exact .lapses _ fun read hends => of_decide_eq_true hends
  | take =>
    rw [perform]
    by_cases hnil : trace.buffer.queue.take trace.buffer.batchSize = []
    · rw [take_of_nil hnil]
      exact .stays
    · rw [take_of_ne_nil hnil]
      simp only [List.isEmpty_iff, hnil, if_false]
      exact .takes _ _ (List.take_append_drop ..).symm
  | checkpoint token =>
    rw [perform, checkpoint_eq h.nodup]
    exact .releases _

theorem Transition.settings_eq (h : Transition now trace next) :
    next.buffer.capacity = trace.buffer.capacity
      ∧ next.buffer.batchSize = trace.buffer.batchSize
      ∧ next.buffer.checkpointTimeout = trace.buffer.checkpointTimeout := by
  cases h <;> exact ⟨rfl, rfl, rfl⟩

/-- Readings have numbers of their own, in their order and above zero. -/
structure Numbered (readings : List Reading) (nextId : Nat) : Prop where
  ascending : (readings.map fun reading => reading.token.id).Pairwise (· < ·)
  issued : ∀ reading ∈ readings, 0 < reading.token.id ∧ reading.token.id < nextId
  nextId_pos : 0 < nextId

theorem Numbered.settle {readings : List Reading} {nextId : Nat} (h : Numbered readings nextId)
    (fate : Fate) (ends : Delivery → Bool) :
    Numbered (readings.map (Reading.settle fate ends)) nextId := by
  refine ⟨?_, ?_, h.nextId_pos⟩
  · simpa only [List.map_map, Function.comp_def, Reading.settle_token] using h.ascending
  · simpa only [List.forall_mem_map, Reading.settle_token] using h.issued

theorem Numbered.append {readings : List Reading} {reading : Reading}
    (h : Numbered readings reading.token.id) :
    Numbered (readings ++ [reading]) (reading.token.id + 1) := by
  refine ⟨?_, ?_, Nat.succ_pos _⟩
  · rw [List.map_append, List.pairwise_append]
    refine ⟨h.ascending, List.pairwise_singleton .., fun id hid id' hid' => ?_⟩
    obtain ⟨earlier, hearlier, rfl⟩ := List.mem_map.mp hid
    obtain rfl := List.mem_singleton.mp hid'
    exact (h.issued earlier hearlier).2
  · intro other hother
    rcases List.mem_append.mp hother with hold | hnew
    · have hissued := h.issued other hold
      omega
    · obtain rfl := List.mem_singleton.mp hnew
      exact ⟨h.nextId_pos, Nat.lt_succ_self _⟩

/-- The buffer holds what its trace says. -/
structure Consistent (trace : Trace) : Prop where
  inFlight : trace.buffer.inFlight = (withFate .live trace.readings).map Reading.delivery
  counted : trace.buffer.inFlightRecords = (handed (withFate .live trace.readings)).length
  fits : trace.buffer.length ≤ trace.buffer.capacity
  conserved : trace.written.Perm
    (handed (withFate .released trace.readings) ++ handed (withFate .live trace.readings)
      ++ trace.buffer.queue)
  numbered : Numbered trace.readings trace.buffer.nextId

theorem consistent_fresh (pipeline plugin : String) (capacity batchSize : Nat)
    (checkpointTimeout : Nanoseconds) :
    (fresh pipeline plugin capacity batchSize checkpointTimeout).Consistent where
  inFlight := rfl
  counted := rfl
  fits := Nat.zero_le _
  conserved := .refl _
  numbered := ⟨.nil, fun _ h => absurd h List.not_mem_nil, Nat.one_pos⟩

theorem Consistent.ascending (h : trace.Consistent) : trace.buffer.Ascending := by
  rw [Ascending, h.inFlight, List.map_map]
  exact h.numbered.ascending.sublist (List.filter_sublist.map _)

theorem Consistent.nodup_ids (h : trace.Consistent) :
    (trace.buffer.inFlight.map Delivery.id).Nodup :=
  h.ascending.nodup

/-- What is in flight are the live readings. -/
theorem Consistent.mem_inFlight_iff (h : trace.Consistent) {read : Delivery} :
    read ∈ trace.buffer.inFlight
      ↔ ∃ reading ∈ trace.readings, reading.fate = .live ∧ reading.delivery = read := by
  rw [h.inFlight, List.mem_map]
  simp only [withFate, List.mem_filter, decide_eq_true_eq, and_assoc]

section Ending

variable {fate : Fate} (ends : Delivery → Bool)

theorem Consistent.inFlight_withdraw (h : trace.Consistent) (hfate : fate ≠ .live) :
    (trace.buffer.withdraw ends).inFlight
      = (withFate .live (trace.readings.map (Reading.settle fate ends))).map
          Reading.delivery := by
  rw [withdraw, h.inFlight, List.filter_map, withFate_live_settle hfate]
  rfl

theorem Consistent.flatMap_ended (h : trace.Consistent) :
    (trace.buffer.inFlight.filter ends).flatMap Delivery.records
      = handed ((withFate .live trace.readings).filter fun reading => ends reading.delivery) := by
  rw [h.inFlight, List.filter_map, flatMap_delivery]
  rfl

/-- What was live has ended or still is. -/
theorem handed_live_perm (hfate : fate ≠ .live) (readings : List Reading) :
    (handed (withFate .live readings)).Perm
      (handed ((withFate .live readings).filter fun reading => ends reading.delivery)
        ++ handed (withFate .live (readings.map (Reading.settle fate ends)))) := by
  rw [withFate_live_settle hfate, ← handed_append]
  exact (List.filter_append_perm _ _).symm.flatMap_right _

theorem Consistent.counted_withdraw (h : trace.Consistent) (hfate : fate ≠ .live) :
    (trace.buffer.withdraw ends).inFlightRecords
      = (handed (withFate .live (trace.readings.map (Reading.settle fate ends)))).length := by
  have hlength := (handed_live_perm ends hfate trace.readings).length_eq
  rw [List.length_append] at hlength
  simp only [withdraw, h.flatMap_ended, h.counted]
  omega

theorem Consistent.ended_le (h : trace.Consistent) :
    ((trace.buffer.inFlight.filter ends).flatMap Delivery.records).length
      ≤ trace.buffer.inFlightRecords := by
  rw [h.flatMap_ended, h.counted]
  exact (List.filter_sublist.flatMap _).length_le

end Ending

theorem Consistent.transition (h : trace.Consistent) (htrans : Transition now trace next) :
    next.Consistent := by
  cases htrans with
  | stays => exact h
  | writes records haccepts =>
    refine { h with fits := ?_, conserved := ?_ }
    · have hfits := h.fits
      rcases haccepts with hnil | hroom
      · rwa [hnil, enqueue, List.append_nil]
      · simp only [length, enqueue, List.length_append] at hroom ⊢
        omega
    · rw [enqueue, ← List.append_assoc]
      exact h.conserved.append_right records
  | takes records rest hqueue =>
    have hlive : withFate .live (trace.readings ++ [trace.buffer.handover now records])
        = withFate .live trace.readings ++ [trace.buffer.handover now records] :=
      withFate_append
    have hreleased : withFate .released (trace.readings ++ [trace.buffer.handover now records])
        = withFate .released trace.readings := withFate_append.trans (List.append_nil _)
    refine ⟨?_, ?_, ?_, ?_, Numbered.append h.numbered⟩
    · rw [hlive, List.map_append, ← h.inFlight]
      rfl
    · rw [hlive, handed_append, handed_handover, List.length_append, ← h.counted]
      rfl
    · have hfits := h.fits
      rw [length, hqueue, List.length_append] at hfits
      rw [length, handOut, handover, Reading.delivery]
      simp only
      omega
    · rw [hlive, hreleased, handed_append, handed_handover]
      refine h.conserved.trans (.of_eq ?_)
      simp only [hqueue, handOut, List.append_assoc]
  | lapses ends hdue =>
    refine ⟨h.inFlight_withdraw ends (by decide), h.counted_withdraw ends (by decide), ?_, ?_,
      h.numbered.settle _ ends⟩
    · have hfits := h.fits
      have hended := h.ended_le ends
      simp only [length, withdraw, List.length_append] at hfits ⊢
      omega
    · -- What lapses passes from the live readings to the front of the queue.
      rw [handed_settle_of_ne (by decide) (by decide), h.flatMap_ended]
      have hlive := (handed_live_perm ends (show Fate.lapsed ≠ .live by decide)
        trace.readings).trans List.perm_append_comm
      refine h.conserved.trans ?_
      simpa only [List.append_assoc] using (hlive.append_left _).append_right trace.buffer.queue
  | releases ends =>
    refine ⟨h.inFlight_withdraw ends (by decide), h.counted_withdraw ends (by decide), ?_, ?_,
      h.numbered.settle _ ends⟩
    · exact (Nat.add_le_add_left (Nat.sub_le ..) _).trans h.fits
    · -- What is released passes from the live readings to the released ones.
      have hlive := handed_live_perm ends (show Fate.released ≠ .live by decide) trace.readings
      refine h.conserved.trans (List.Perm.append_right _ ?_)
      refine (hlive.append_left _).trans ?_
      rw [← List.append_assoc]
      exact (handed_settle_perm (by decide)).symm.append_right _

/-- What holds of a buffer in order and is kept by every access holds after any of them. -/
theorem Consistent.induction (invariant : Trace → Prop) (h : trace.Consistent)
    (hfirst : invariant trace)
    (hstep : ∀ {now : Nanoseconds} {before after : Trace}, before.Consistent → invariant before →
      Transition now before after → invariant after)
    (steps : List (Nanoseconds × Access)) : invariant (trace.run steps) := by
  induction steps generalizing trace with
  | nil => exact hfirst
  | cons step steps ih =>
    have htrans : Transition step.1 trace _ := transition_perform h.ascending step.2
    exact ih (h.transition htrans) (hstep h hfirst htrans)

theorem Consistent.run (h : trace.Consistent) (steps : List (Nanoseconds × Access)) :
    (trace.run steps).Consistent :=
  h.induction Consistent h (fun hbefore _ htrans => hbefore.transition htrans) steps

theorem Consistent.settings_run (h : trace.Consistent) (steps : List (Nanoseconds × Access)) :
    (trace.run steps).buffer.capacity = trace.buffer.capacity
      ∧ (trace.run steps).buffer.batchSize = trace.buffer.batchSize
      ∧ (trace.run steps).buffer.checkpointTimeout = trace.buffer.checkpointTimeout := by
  refine h.induction (fun later => later.buffer.capacity = trace.buffer.capacity
    ∧ later.buffer.batchSize = trace.buffer.batchSize
    ∧ later.buffer.checkpointTimeout = trace.buffer.checkpointTimeout) ⟨rfl, rfl, rfl⟩ ?_ steps
  intro now before after hbefore hsame htrans
  obtain ⟨hcapacity, hbatch, htimeout⟩ := htrans.settings_eq
  exact ⟨hcapacity.trans hsame.1, hbatch.trans hsame.2.1, htimeout.trans hsame.2.2⟩

end Trace

end ReceiveBuffer

end RecordRelay
