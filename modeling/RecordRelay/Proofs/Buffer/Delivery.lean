import RecordRelay.Proofs.Buffer.Trace

/-! Records are handed out in the order in which they were written, as long as no read lapses. The
records of a read that lapses go back to the front of the queue and may be handed out again, to
readers that come after its deadline; those of a read that was released are never handed out again.
A token is good for one checkpoint at most, and for none once its read has lapsed. -/
namespace RecordRelay

namespace ReceiveBuffer

namespace Trace

variable {now clock : Nanoseconds} {trace next : Trace}

/-- The live readings whose deadline has passed. -/
def expired (trace : Trace) (now : Nanoseconds) : List Reading :=
  (withFate .live trace.readings).filter fun reading => reading.deadline ≤ now

def current (trace : Trace) (now : Nanoseconds) : List Reading :=
  (withFate .live trace.readings).filter fun reading => now < reading.deadline

/-- What a read does at a time, be it at once or in two accesses, when the reader has to wait. -/
structure ReadsInTurn (batchSize : Nat) (checkpointTimeout : Nanoseconds) (trace : Trace)
    (now : Nanoseconds) : Prop where
  ascending : (trace.expired now).Pairwise fun earlier later => earlier.token.id < later.token.id
  queue : (trace.buffer.redeliver now).queue
    = handed (trace.expired now) ++ trace.buffer.queue
  inFlight : (trace.buffer.redeliver now).inFlight
    = (trace.current now).map Reading.delivery
  accesses : (trace.run [(now, .redeliver), (now, .take)]).buffer = (trace.buffer.read now).2.2
  atOnce : Taken batchSize checkpointTimeout (trace.buffer.redeliver now) now
    (trace.buffer.read now)
  afterWaiting : Taken batchSize checkpointTimeout trace.buffer now (trace.buffer.take now)

theorem Consistent.readsInTurn (h : trace.Consistent) (now : Nanoseconds) :
    trace.ReadsInTurn trace.buffer.batchSize trace.buffer.checkpointTimeout now where
  ascending :=
    (List.pairwise_map.mp h.numbered.ascending).sublist
      (List.filter_sublist.trans List.filter_sublist)
  queue := by
    rw [redeliver_eq h.ascending, h.flatMap_ended]
    rfl
  inFlight := by
    simp only [redeliver_eq h.ascending, withdraw, h.inFlight, List.filter_map, ← decide_not,
      not_le]
    rfl
  accesses := trace.run_read now
  atOnce := by
    have htaken := taken_take (trace.buffer.redeliver now) now
    rw [redeliver_eq h.ascending] at htaken ⊢
    rwa [read, redeliver_eq h.ascending]
  afterWaiting := taken_take trace.buffer now

/-- As long as no reading has lapsed, what was handed out and what waits is what was written. -/
def InOrder (trace : Trace) : Prop :=
  (∀ reading ∈ trace.readings, reading.fate ≠ .lapsed) →
    handed trace.readings ++ trace.buffer.queue = trace.written

/-- A reading that did not lapse before others were settled did not lapse after. -/
theorem ne_lapsed_of_settle {fate : Fate} {ends : Delivery → Bool} {readings : List Reading}
    (h : ∀ reading ∈ readings.map (Reading.settle fate ends), reading.fate ≠ .lapsed) :
    ∀ reading ∈ readings, reading.fate ≠ .lapsed := by
  intro reading hreading hfate
  refine h _ (List.mem_map_of_mem hreading) ?_
  rw [Reading.settle_fate_iff (by decide)]
  exact .inl hfate

theorem InOrder.transition (h : trace.InOrder) (hconsistent : trace.Consistent)
    (htrans : Transition now trace next) : next.InOrder := by
  cases htrans with
  | stays => exact h
  | writes records haccepts =>
    intro hlapsed
    simp only [← h hlapsed, enqueue, List.append_assoc]
  | takes records rest hqueue =>
    intro hlapsed
    have hold := h fun reading hreading => hlapsed reading (List.mem_append_left _ hreading)
    simp only [← hold, hqueue, handed_append, handed_handover, handOut, List.append_assoc]
  | lapses ends hdue =>
    intro hlapsed
    -- No reading is lapsed afterwards, so none has lapsed now and nothing was put back.
    have hnone : (withFate .live trace.readings).filter (fun reading => ends reading.delivery)
        = [] := by
      refine List.filter_eq_nil_iff.mpr fun reading hreading hends => ?_
      obtain ⟨hreading, hlive⟩ := List.mem_filter.mp hreading
      refine hlapsed _ (List.mem_map_of_mem hreading) ?_
      rw [Reading.settle_fate_iff (by decide)]
      exact .inr ⟨rfl, of_decide_eq_true hlive, hends⟩
    simp only [handed_settle, hconsistent.flatMap_ended, hnone]
    exact h (ne_lapsed_of_settle hlapsed)
  | releases ends =>
    intro hlapsed
    simp only [handed_settle]
    exact h (ne_lapsed_of_settle hlapsed)

theorem InOrder.run (h : trace.InOrder) (hconsistent : trace.Consistent)
    (steps : List (Nanoseconds × Access)) : (trace.run steps).InOrder :=
  hconsistent.induction InOrder h
    (fun hbefore hinOrder htrans => hinOrder.transition hbefore htrans) steps

/-- A later state of the same trace: readings may have come to their fate, and others follow. -/
def Extends (trace next : Trace) : Prop :=
  trace.written <+: next.written
    ∧ ∃ (settle : Reading → Reading) (newer : List Reading),
      next.readings = trace.readings.map settle ++ newer
        ∧ ∀ reading, reading.fate ≠ .live → settle reading = reading

theorem Extends.refl (trace : Trace) : trace.Extends trace :=
  ⟨List.prefix_refl _, id, [], by simp, fun _ _ => rfl⟩

theorem Extends.trans {last : Trace} (h : trace.Extends next) (hlast : next.Extends last) :
    trace.Extends last := by
  obtain ⟨hwritten, settle, newer, hreadings, hfinal⟩ := h
  obtain ⟨hwritten', settle', newer', hreadings', hfinal'⟩ := hlast
  refine ⟨hwritten.trans hwritten', settle' ∘ settle, newer.map settle' ++ newer', ?_, ?_⟩
  · rw [hreadings', hreadings, List.map_append, List.map_map, List.append_assoc]
  · intro reading hreading
    rw [Function.comp_apply, hfinal reading hreading, hfinal' reading hreading]

theorem Transition.extends (h : Transition now trace next) : trace.Extends next := by
  cases h with
  | stays => exact .refl trace
  | writes records haccepts => exact ⟨List.prefix_append .., id, [], by simp, fun _ _ => rfl⟩
  | takes records rest hqueue =>
    exact ⟨List.prefix_refl _, id, _, by rw [List.map_id], fun _ _ => rfl⟩
  | lapses ends hdue =>
    exact ⟨List.prefix_refl _, _, [], (List.append_nil _).symm,
      fun _ => Reading.settle_of_ne_live⟩
  | releases ends =>
    exact ⟨List.prefix_refl _, _, [], (List.append_nil _).symm,
      fun _ => Reading.settle_of_ne_live⟩

theorem Consistent.extends_run (h : trace.Consistent) (steps : List (Nanoseconds × Access)) :
    trace.Extends (trace.run steps) :=
  h.induction trace.Extends (.refl trace)
    (fun _ hextends htrans => hextends.trans htrans.extends) steps

theorem Extends.mem_of_ne_live (h : trace.Extends next) {reading : Reading}
    (hreading : reading ∈ trace.readings) (hfate : reading.fate ≠ .live) :
    reading ∈ next.readings := by
  obtain ⟨-, settle, newer, hreadings, hfinal⟩ := h
  rw [hreadings, ← hfinal reading hfate]
  exact List.mem_append_left _ (List.mem_map_of_mem hreading)

/-- The later of two readings has none of the earlier one's records, unless that has lapsed and its
deadline was over. -/
def Yields (earlier later : Reading) : Prop :=
  ∀ record ∈ earlier.records, record ∈ later.records →
    earlier.fate = .lapsed ∧ earlier.deadline ≤ later.time

/-- Up to a time, readings that lapsed did so at their deadline or later, and yield to others. -/
structure Spaced (clock : Nanoseconds) (trace : Trace) : Prop where
  due : ∀ reading ∈ trace.readings, reading.fate = .lapsed → reading.deadline ≤ clock
  again : trace.readings.Pairwise Yields

/-- What waits is neither done with nor in flight. -/
theorem Consistent.lapsed_of_mem_queue (h : trace.Consistent) (hnodup : trace.written.Nodup)
    {reading : Reading} (hreading : reading ∈ trace.readings) {record : Record}
    (hrecord : record ∈ reading.records) (hqueue : record ∈ trace.buffer.queue) :
    reading.fate = .lapsed := by
  have hdisjoint := (List.nodup_append.mp (h.conserved.nodup_iff.mp hnodup)).2.2
  have hin : ∀ fate, reading.fate = fate → record ∈ handed (withFate fate trace.readings) :=
    fun fate hfate => List.mem_flatMap.mpr
      ⟨reading, List.mem_filter.mpr ⟨hreading, decide_eq_true hfate⟩, hrecord⟩
  cases hfate : reading.fate with
  | live =>
    exact absurd rfl (hdisjoint record (List.mem_append_right _ (hin _ hfate)) record hqueue)
  | released =>
    exact absurd rfl (hdisjoint record (List.mem_append_left _ (hin _ hfate)) record hqueue)
  | lapsed => rfl

theorem yields_settle {fate : Fate} {ends : Delivery → Bool} {readings : List Reading}
    (h : readings.Pairwise Yields) : (readings.map (Reading.settle fate ends)).Pairwise Yields := by
  refine List.pairwise_map.mpr (h.imp fun {earlier later} hyields record hrecord hlater => ?_)
  rw [Reading.settle_records] at hrecord hlater
  obtain ⟨hlapsed, hdue⟩ := hyields record hrecord hlater
  rw [Reading.settle_fate_iff (by decide), Reading.settle_deadline, Reading.settle_time]
  exact ⟨.inl hlapsed, hdue⟩

theorem Spaced.transition (h : trace.Spaced clock) (hconsistent : trace.Consistent)
    (hnodup : trace.written.Nodup) (hclock : clock ≤ now) (htrans : Transition now trace next) :
    next.Spaced now := by
  have hdue : ∀ reading ∈ trace.readings, reading.fate = .lapsed → reading.deadline ≤ now :=
    fun reading hreading hlapsed => (h.due reading hreading hlapsed).trans hclock
  cases htrans with
  | stays => exact ⟨hdue, h.again⟩
  | writes records haccepts => exact ⟨hdue, h.again⟩
  | takes records rest hqueue =>
    refine ⟨fun reading hreading hlapsed => ?_, List.pairwise_append.mpr ⟨h.again,
      List.pairwise_singleton .., fun earlier hearlier later hlater record hrecord hagain => ?_⟩⟩
    · rcases List.mem_append.mp hreading with hold | hnew
      · exact hdue reading hold hlapsed
      · rw [List.mem_singleton.mp hnew] at hlapsed
        exact nomatch hlapsed
    · -- What is handed out now was waiting, so an earlier reader of it has lost it.
      obtain rfl := List.mem_singleton.mp hlater
      have hwaits : record ∈ trace.buffer.queue := by
        rw [hqueue]
        exact List.mem_append_left _ hagain
      have hlapsed := hconsistent.lapsed_of_mem_queue hnodup hearlier hrecord hwaits
      exact ⟨hlapsed, hdue earlier hearlier hlapsed⟩
  | lapses ends hends =>
    refine ⟨List.forall_mem_map.mpr fun reading hreading hlapsed => ?_, yields_settle h.again⟩
    rw [Reading.settle_deadline]
    rcases (Reading.settle_fate_iff (by decide)).mp hlapsed with hold | ⟨-, -, hnew⟩
    · exact hdue reading hreading hold
    · exact hends reading.delivery hnew
  | releases ends =>
    refine ⟨List.forall_mem_map.mpr fun reading hreading hlapsed => ?_, yields_settle h.again⟩
    rw [Reading.settle_deadline]
    rcases (Reading.settle_fate_iff (by decide)).mp hlapsed with hold | ⟨hnever, -⟩
    · exact hdue reading hreading hold
    · exact nomatch hnever

theorem Spaced.run (h : trace.Spaced clock) (hconsistent : trace.Consistent)
    {steps : List (Nanoseconds × Access)} (htimes : (clock :: steps.map Prod.fst).Pairwise (· ≤ ·))
    (hnodup : (trace.run steps).written.Nodup) : ∃ last, (trace.run steps).Spaced last := by
  induction steps generalizing trace clock with
  | nil => exact ⟨clock, h⟩
  | cons step steps ih =>
    have htrans : Transition step.1 trace _ := transition_perform hconsistent.ascending step.2
    obtain ⟨hfirst, htimes⟩ := List.pairwise_cons.mp htimes
    have hbefore : trace.written.Nodup :=
      hnodup.sublist (hconsistent.extends_run (step :: steps)).1.sublist
    have hspaced := h.transition hconsistent hbefore (hfirst _ (.head _)) htrans
    exact ih hspaced (hconsistent.transition htrans) htimes hnodup

theorem spaced_run_fresh {pipeline plugin : String} {capacity batchSize : Nat}
    {checkpointTimeout : Nanoseconds} {steps : List (Nanoseconds × Access)}
    (htimes : (steps.map Prod.fst).Pairwise (· ≤ ·))
    (hnodup : ((fresh pipeline plugin capacity batchSize checkpointTimeout).run
      steps).written.Nodup) :
    ∃ last,
      ((fresh pipeline plugin capacity batchSize checkpointTimeout).run steps).Spaced last := by
  have hfresh : (fresh pipeline plugin capacity batchSize checkpointTimeout).Spaced 0 :=
    ⟨fun _ h => absurd h List.not_mem_nil, .nil⟩
  exact hfresh.run (consistent_fresh ..)
    (List.pairwise_cons.mpr ⟨fun _ _ => Nat.zero_le _, htimes⟩) hnodup

theorem Consistent.checkpoint_of_ne_live (h : trace.Consistent) {reading : Reading}
    (hreading : reading ∈ trace.readings) (hfate : reading.fate ≠ .live) :
    trace.buffer.checkpoint reading.token = trace.buffer := by
  refine checkpoint_of_forall_ne fun read hread hid => hfate ?_
  obtain ⟨other, hother, hlive, rfl⟩ := h.mem_inFlight_iff.mp hread
  -- Identifiers are never used again, so it would be the same reading, and live.
  have hsame : other = reading :=
    List.inj_on_of_nodup_map (h.numbered.ascending.imp Nat.ne_of_lt) hother hreading hid
  rwa [← hsame]

theorem Consistent.checkpoint_empty (h : trace.Consistent) :
    trace.buffer.checkpoint .empty = trace.buffer := by
  refine checkpoint_of_forall_ne fun read hread hid => ?_
  obtain ⟨reading, hreading, -, rfl⟩ := h.mem_inFlight_iff.mp hread
  exact (h.numbered.issued reading hreading).1.ne' hid

/-- How the records of a buffer are spread over its readings. -/
structure HandsOut (trace : Trace) : Prop where
  inFlight : trace.buffer.inFlight = (withFate .live trace.readings).map Reading.delivery
  inOrder : (∀ reading ∈ trace.readings, reading.fate ≠ .lapsed) →
    handed trace.readings ++ trace.buffer.queue = trace.written
  exclusive : trace.buffer.inFlight.Pairwise fun one other =>
    one.records.Disjoint other.records
  again : trace.readings.Pairwise Yields

theorem Consistent.exclusive (h : trace.Consistent) (hnodup : trace.written.Nodup) :
    trace.buffer.inFlight.Pairwise fun one other => one.records.Disjoint other.records := by
  have hlive := (h.conserved.nodup_iff.mp hnodup).sublist
    ((List.sublist_append_right ..).trans (List.sublist_append_left ..))
  rw [h.inFlight]
  exact List.pairwise_map.mpr (List.nodup_flatMap.mp hlive).2

/-- What no later access undoes: the records of a reading that was released are handed out no more,
and the tokens of readings that came to an end, and of those that found nothing, have no effect. -/
structure Final (trace later : Trace) : Prop where
  done : ∀ reading ∈ trace.readings, reading.fate = .released →
    ∀ newer ∈ later.readings.drop trace.readings.length,
      reading.records.Disjoint newer.records
  ended : ∀ reading ∈ trace.readings, reading.fate ≠ .live →
    later.buffer.checkpoint reading.token = later.buffer
  empty : ∀ now, (trace.buffer.take now).1 = [] →
    later.buffer.checkpoint (trace.buffer.take now).2.1 = later.buffer

theorem Extends.final {later : Trace} (h : trace.Extends later) (hconsistent : later.Consistent)
    (hspaced : later.Spaced clock) : trace.Final later where
  done reading hreading hreleased newer hnewer record hrecord hagain := by
    obtain ⟨-, settle, rest, hreadings, hfinal⟩ := h
    have hsame : settle reading = reading := hfinal reading (by rw [hreleased]; decide)
    have hpairs := hspaced.again
    rw [hreadings, List.drop_append_of_le_length (by simp), List.drop_of_length_le (by simp),
      List.nil_append] at hnewer
    rw [hreadings] at hpairs
    have hlapsed := ((List.pairwise_append.mp hpairs).2.2 (settle reading)
      (List.mem_map_of_mem hreading) newer hnewer record (by rwa [hsame]) hagain).1
    rw [hsame, hreleased] at hlapsed
    exact nomatch hlapsed
  ended reading hreading hfate :=
    hconsistent.checkpoint_of_ne_live (h.mem_of_ne_live hreading hfate) hfate
  empty now hnil := by
    rw [token_of_take_eq_nil hnil]
    exact hconsistent.checkpoint_empty

end Trace

/-- However writers, readers and checkpoints follow each other, a read puts back what has expired
and takes the front of the queue; records come in the order in which they were written until one
lapses; a record is out once at a time, and again only after its deadline; and what has been
released stays so. -/
theorem delivers_in_turn {pipeline plugin : String} {capacity batchSize : Nat}
    {checkpointTimeout : Nanoseconds} {steps more : List (Nanoseconds × Access)}
    (htimes : ((steps ++ more).map Prod.fst).Pairwise (· ≤ ·))
    (hdistinct : ((Trace.fresh pipeline plugin capacity batchSize checkpointTimeout).run
      (steps ++ more)).written.Nodup) :
    let trace := (Trace.fresh pipeline plugin capacity batchSize checkpointTimeout).run steps
    (∀ now, trace.ReadsInTurn batchSize checkpointTimeout now)
      ∧ trace.HandsOut
      ∧ trace.Final (trace.run more) := by
  intro trace
  have hfresh := Trace.consistent_fresh pipeline plugin capacity batchSize checkpointTimeout
  have hconsistent : trace.Consistent := hfresh.run steps
  obtain ⟨-, hbatch, htimeout⟩ := hfresh.settings_run steps
  have hextends : trace.Extends (trace.run more) := hconsistent.extends_run more
  have hlater : (trace.run more).written.Nodup := by
    rwa [Trace.run_append] at hdistinct
  have hwritten : trace.written.Nodup := hlater.sublist hextends.1.sublist
  obtain ⟨_, hspaced⟩ := Trace.spaced_run_fresh
    (htimes.sublist ((List.sublist_append_left steps more).map _)) hwritten
  obtain ⟨_, hspacedLater⟩ := Trace.spaced_run_fresh htimes hdistinct
  rw [Trace.run_append] at hspacedLater
  have hreads := hconsistent.readsInTurn
  rw [hbatch, htimeout] at hreads
  have hempty : (Trace.fresh pipeline plugin capacity batchSize checkpointTimeout).InOrder :=
    fun _ => rfl
  exact ⟨hreads, ⟨hconsistent.inFlight, hempty.run hfresh steps, hconsistent.exclusive hwritten,
    hspaced.again⟩, hextends.final (hconsistent.run more) hspacedLater⟩

/-- Three records are written and handed out by two reads, which both lapse; the first two records
are then handed out again. -/
def lapsingSteps : List (Nanoseconds × Access) :=
  [(0, .write (["a", "b", "c"].map fun kind => .ofEvent (.empty kind)) 5),
    (1, .redeliver), (1, .take), (2, .redeliver), (2, .take), (20, .redeliver), (20, .take)]

def releasingSteps : List (Nanoseconds × Access) :=
  [(21, .checkpoint ⟨3, 2⟩), (22, .checkpoint ⟨1, 2⟩), (40, .redeliver), (40, .take)]

theorem delivers_in_turn_after_lapses :
    ((lapsingSteps ++ releasingSteps).map Prod.fst).Pairwise (· ≤ ·)
      ∧ ((Trace.fresh "orders" "totals" 4 2 10).run
          (lapsingSteps ++ releasingSteps)).written.Nodup
      ∧ let trace := (Trace.fresh "orders" "totals" 4 2 10).run lapsingSteps
        (∀ now, trace.ReadsInTurn 2 10 now) ∧ trace.HandsOut
          ∧ trace.Final (trace.run releasingSteps) := by
  have htimes : ((lapsingSteps ++ releasingSteps).map Prod.fst).Pairwise (· ≤ ·) := by decide
  have hdistinct : ((Trace.fresh "orders" "totals" 4 2 10).run
      (lapsingSteps ++ releasingSteps)).written.Nodup := by
    refine List.Nodup.of_map (fun record => record.event.kind) ?_
    change ["a", "b", "c"].Nodup
    decide
  exact ⟨htimes, hdistinct, delivers_in_turn htimes hdistinct⟩

end ReceiveBuffer

end RecordRelay
