import RecordRelay.Proofs.Buffer.Trace
import RecordRelay.Proofs.Waiting

/-! After any accesses the records that were written are those of the reads that were released,
those in flight and those that wait, and the numbers that the buffer goes by are the numbers of
these records. A writer that finds no room waits and looks again, and others have their turn between
two looks; what comes of its write is decided by the looks that it takes up to its deadline. -/
namespace RecordRelay

namespace ReceiveBuffer

namespace Trace

/-- The records written are accounted for, and the buffer counts those that it holds. -/
structure Accounted (capacity : Nat) (trace : Trace) : Prop where
  conserved : trace.written.Perm
    (handed (withFate .released trace.readings)
      ++ trace.buffer.inFlight.flatMap Delivery.records ++ trace.buffer.queue)
  inFlight : trace.buffer.inFlight = (withFate .live trace.readings).map Reading.delivery
  length : trace.buffer.length
    = trace.buffer.queue.length + (trace.buffer.inFlight.flatMap Delivery.records).length
  fits : trace.buffer.length ≤ capacity
  inFlightRecords : trace.buffer.inFlightRecords
    = (trace.buffer.inFlight.map fun read => read.records.length).sum
  /-- Reads that end, one after the other, are taken off a number that is large enough. -/
  subtracts : ∀ reads : List Delivery, reads.Sublist trace.buffer.inFlight →
    (reads.map fun read => read.records.length).sum ≤ trace.buffer.inFlightRecords
  isEmpty : trace.buffer.isEmpty = true
    ↔ trace.written.Perm (handed (withFate .released trace.readings))
  /-- Room is there until somebody writes. -/
  accepts : ∀ records more, trace.buffer.Accepts records →
    (trace.run more).written = trace.written → (trace.run more).buffer.Accepts records

variable {now : Nanoseconds} {trace next : Trace}

theorem Consistent.inFlightRecords_eq (h : trace.Consistent) :
    trace.buffer.inFlightRecords = (trace.buffer.inFlight.flatMap Delivery.records).length := by
  rw [h.counted, h.inFlight, flatMap_delivery]

theorem Consistent.isEmpty_iff (h : trace.Consistent) :
    trace.buffer.isEmpty = true
      ↔ trace.written.Perm (handed (withFate .released trace.readings)) := by
  rw [isEmpty, decide_eq_true_iff, length, h.counted]
  constructor
  · intro hzero
    have hqueue : trace.buffer.queue = [] := List.length_eq_zero_iff.mp (by omega)
    have hlive : handed (withFate .live trace.readings) = [] :=
      List.length_eq_zero_iff.mp (by omega)
    have hconserved := h.conserved
    rwa [hqueue, hlive, List.append_nil, List.append_nil] at hconserved
  · intro hreleased
    have hlength := (hreleased.symm.trans h.conserved).length_eq
    rw [List.length_append, List.length_append] at hlength
    omega

/-- Only records that are written fill the buffer. -/
theorem Consistent.length_transition (h : trace.Consistent) (htrans : Transition now trace next) :
    next.buffer.length + trace.written.length ≤ trace.buffer.length + next.written.length := by
  cases htrans with
  | stays => exact le_refl _
  | writes records haccepts =>
    simp only [length, enqueue, List.length_append]
    omega
  | takes records rest hqueue =>
    simp only [length, handOut, Reading.delivery, handover, hqueue, List.length_append]
    omega
  | lapses ends hdue =>
    have hended := h.ended_le ends
    simp only [length, withdraw, List.length_append]
    omega
  | releases ends =>
    simp only [length, withdraw]
    omega

theorem Consistent.length_run (h : trace.Consistent) (steps : List (Nanoseconds × Access)) :
    (trace.run steps).buffer.length + trace.written.length
      ≤ trace.buffer.length + (trace.run steps).written.length := by
  refine h.induction (fun later => later.buffer.length + trace.written.length
    ≤ trace.buffer.length + later.written.length) (le_refl _) ?_ steps
  intro now before after hbefore hlength htrans
  have hstep := hbefore.length_transition htrans
  omega

theorem Consistent.accepts_run (h : trace.Consistent) {steps : List (Nanoseconds × Access)}
    {records : List Record} (haccepts : trace.buffer.Accepts records)
    (hwritten : (trace.run steps).written = trace.written) :
    (trace.run steps).buffer.Accepts records := by
  have hlength := h.length_run steps
  have hcapacity := (h.settings_run steps).1
  rw [hwritten] at hlength
  rw [Accepts, hcapacity]
  exact haccepts.imp_right fun hroom => by omega

theorem Consistent.accounted (h : trace.Consistent) : Accounted trace.buffer.capacity trace where
  conserved := by
    rw [h.inFlight, flatMap_delivery]
    exact h.conserved
  inFlight := h.inFlight
  length := by rw [length, h.inFlightRecords_eq]
  fits := h.fits
  inFlightRecords := h.inFlightRecords_eq.trans List.length_flatMap
  subtracts reads hreads := by
    rw [h.inFlightRecords_eq, List.length_flatMap]
    exact (hreads.map _).sum_le_sum fun _ _ => Nat.zero_le _
  isEmpty := h.isEmpty_iff
  accepts _ _ := h.accepts_run

end Trace

open Waiting (IsFirst Look Pause Settles settles_await)

/-- The records of a writer, how long it is willing to wait and when it began. -/
structure Write where
  records : List Record
  timeout : Nanoseconds
  start : Nanoseconds

/-- The trace with a writer's records in the queue. -/
def Trace.filled (trace : Trace) (records : List Record) : Trace :=
  ⟨trace.buffer.enqueue records, trace.written ++ records, trace.readings⟩

namespace Write

variable (write : Write)

def deadline : Nanoseconds := write.start + write.timeout

/-- The write as it is made or fails at one look. -/
def ask (trace : Trace) : Trace × Except BufferError Unit :=
  match trace.buffer.writeAll write.records write.timeout with
  | .ok buffer => ({ trace with buffer, written := trace.written ++ write.records }, .ok ())
  | .error cause => (trace, .error cause)

def isTimeout : Except BufferError Unit → Bool
  | .error (.timeout _) => true
  | _ => false

/-- The looks that a writer takes from one look on, the accesses of others between them. -/
def looks (look : Look Trace) (pauses : List (Pause (Nanoseconds × Access))) :
    List (Look Trace) :=
  look.looks Trace.run write.deadline pauses

/-- A write from one look on: what it leaves behind, and the answer, which there is not while the
writer waits. -/
def attempt (look : Look Trace) (pauses : List (Pause (Nanoseconds × Access))) :
    Trace × Option (Except BufferError Unit) :=
  look.await Trace.run write.ask isTimeout write.deadline pauses

/-- The write can be made at a look: it has no records, or there is room for them. -/
def Suits (look : Look Trace) : Prop := look.state.buffer.Accepts write.records

variable {write} {look : Look Trace} {trace : Trace} {capacity : Nat}

theorem ask_of_large (hlarge : trace.buffer.capacity < write.records.length) :
    write.ask trace
      = (trace, .error (.sizeOverflow write.records.length trace.buffer.capacity)) := by
  rw [ask, writeAll_of_large hlarge]

theorem ask_of_suits (hsmall : write.records.length ≤ look.state.buffer.capacity)
    (hsuits : write.Suits look) :
    write.ask look.state = (look.state.filled write.records, .ok ()) := by
  rw [ask, writeAll_of_accepts hsmall hsuits]
  rfl

theorem ask_of_not_suits (hsmall : write.records.length ≤ look.state.buffer.capacity)
    (hfull : ¬ write.Suits look) :
    write.ask look.state = (look.state, .error (.timeout write.timeout)) := by
  rw [ask, writeAll_of_not_accepts hsmall hfull]

/-- A writer whose records the buffer could hold waits exactly where there is no room for them. -/
theorem isTimeout_ask_eq_false_iff (hsmall : write.records.length ≤ look.state.buffer.capacity) :
    isTimeout (write.ask look.state).2 = false ↔ write.Suits look := by
  by_cases hsuits : write.Suits look
  · rw [ask_of_suits hsmall hsuits]
    exact iff_of_true rfl hsuits
  · rw [ask_of_not_suits hsmall hsuits]
    exact iff_of_false Bool.noConfusion hsuits

/-- How a write that takes some looks is answered, and what it leaves behind. -/
structure Answered (write : Write) (capacity : Nat) (looks : List (Look Trace))
    (outcome : Trace × Option (Except BufferError Unit)) : Prop where
  overflow : outcome.2 = some (.error (.sizeOverflow write.records.length capacity))
    ↔ capacity < write.records.length
  success : write.records.length ≤ capacity →
    (outcome.2 = some (.ok ()) ↔ ∃ look ∈ looks, write.Suits look)
  timeout : write.records.length ≤ capacity →
    (outcome.2 = some (.error (.timeout write.timeout))
      ↔ (∀ look ∈ looks, ¬ write.Suits look) ∧ ∃ look ∈ looks, look.IsLast write.deadline)
  stored : outcome.2 = some (.ok ()) →
    ∃ look, IsFirst write.Suits looks look ∧ outcome.1 = look.state.filled write.records
  /-- A write that fails leaves everything as it is when the writer gives up. -/
  unchanged : ∀ error, outcome.2 = some (.error error) → ∃ look ∈ looks,
    outcome.1 = look.state
      ∧ (capacity < write.records.length ∨ look.IsLast write.deadline)

section Answering

variable {looks : List (Look Trace)} {outcome : Trace × Option (Except BufferError Unit)}

/-- More records than the buffer could ever hold are refused at the first look. -/
theorem answered_of_large (hlook : look ∈ looks) (hlarge : capacity < write.records.length) :
    write.Answered capacity looks
      (look.state, some (.error (.sizeOverflow write.records.length capacity))) where
  overflow := iff_of_true rfl hlarge
  success hsmall := absurd hlarge hsmall.not_gt
  timeout hsmall := absurd hlarge hsmall.not_gt
  stored := nofun
  unchanged _ _ := ⟨look, hlook, rfl, .inl hlarge⟩

theorem answered_of_suits (hfirst : IsFirst write.Suits looks look)
    (hsmall : write.records.length ≤ capacity) :
    write.Answered capacity looks (look.state.filled write.records, some (.ok ())) where
  overflow := iff_of_false nofun hsmall.not_gt
  success _ := iff_of_true rfl ⟨look, hfirst.mem, hfirst.1⟩
  timeout _ := iff_of_false nofun fun hfull => hfull.1 look hfirst.mem hfirst.1
  stored _ := ⟨look, hfirst, rfl⟩
  unchanged := nofun

theorem answered_of_last (hlook : look ∈ looks) (hlast : look.IsLast write.deadline)
    (hfull : ∀ look ∈ looks, ¬ write.Suits look) (hsmall : write.records.length ≤ capacity) :
    write.Answered capacity looks (look.state, some (.error (.timeout write.timeout))) where
  overflow := iff_of_false nofun hsmall.not_gt
  success _ := iff_of_false nofun fun ⟨other, hother, hsuits⟩ => hfull other hother hsuits
  timeout _ := iff_of_true rfl ⟨hfull, look, hlook, hlast⟩
  stored := nofun
  unchanged _ _ := ⟨look, hlook, rfl, .inr hlast⟩

theorem answered_of_waits (hmore : ∀ look ∈ looks, ¬ look.IsLast write.deadline)
    (hfull : ∀ look ∈ looks, ¬ write.Suits look) (hsmall : write.records.length ≤ capacity) :
    write.Answered capacity looks (trace, none) where
  overflow := iff_of_false nofun hsmall.not_gt
  success _ := iff_of_false nofun fun ⟨other, hother, hsuits⟩ => hfull other hother hsuits
  timeout _ := iff_of_false nofun fun ⟨_, other, hother, hlast⟩ => hmore other hother hlast
  stored := nofun
  unchanged := nofun

/-- Looks at a buffer in order settle a write as they should, and leave the buffer in order. -/
theorem answered_of_settles (h : Settles write.ask isTimeout write.deadline looks outcome)
    (hconsistent : ∀ look ∈ looks, look.state.Consistent ∧ look.state.buffer.capacity = capacity) :
    write.Answered capacity looks outcome
      ∧ outcome.1.Consistent ∧ outcome.1.buffer.capacity = capacity := by
  rcases lt_or_ge capacity write.records.length with hlarge | hsmall
  · have hrefuses : ∀ look ∈ looks, write.ask look.state
        = (look.state, .error (.sizeOverflow write.records.length capacity)) := by
      intro look hlook
      obtain ⟨-, rfl⟩ := hconsistent look hlook
      exact ask_of_large hlarge
    have hroom : ∀ look ∈ looks, (isTimeout (write.ask look.state).2 = false ↔ True) := by
      intro look hlook
      rw [hrefuses look hlook]
      exact iff_of_true rfl trivial
    rcases h.elim_room hroom with
      ⟨look, hfirst, rfl⟩ | ⟨hfull, ⟨look, hlook, -⟩ | ⟨-, look, hlook, -⟩⟩
    · rw [hrefuses look hfirst.mem]
      exact ⟨answered_of_large hfirst.mem hlarge, hconsistent look hfirst.mem⟩
    · exact absurd trivial (hfull look hlook)
    · exact absurd trivial (hfull look hlook)
  · have hroom : ∀ look ∈ looks,
        (isTimeout (write.ask look.state).2 = false ↔ write.Suits look) := fun look hlook =>
      isTimeout_ask_eq_false_iff (hsmall.trans_eq (hconsistent look hlook).2.symm)
    rcases h.elim_room hroom with
      ⟨look, hfirst, rfl⟩ | ⟨hfull, ⟨look, hlook, hlast, rfl⟩ | ⟨hmore, look, hlook, rfl⟩⟩
    · obtain ⟨hlooked, hcapacity⟩ := hconsistent look hfirst.mem
      rw [ask_of_suits (hsmall.trans_eq hcapacity.symm) hfirst.1]
      have htrans : Trace.Transition look.time look.state (look.state.filled write.records) :=
        .writes write.records hfirst.1
      exact ⟨answered_of_suits hfirst hsmall, hlooked.transition htrans, hcapacity⟩
    · have hlooked := hconsistent look hlook
      rw [ask_of_not_suits (hsmall.trans_eq hlooked.2.symm) (hfull look hlook)]
      exact ⟨answered_of_last hlook hlast hfull hsmall, hlooked⟩
    · exact ⟨answered_of_waits hmore hfull hsmall, hconsistent look hlook⟩

end Answering

theorem answered_attempt (hconsistent : look.state.Consistent)
    (pauses : List (Pause (Nanoseconds × Access))) :
    write.Answered look.state.buffer.capacity (write.looks look pauses)
        (write.attempt look pauses)
      ∧ (write.attempt look pauses).1.Consistent
      ∧ (write.attempt look pauses).1.buffer.capacity = look.state.buffer.capacity := by
  refine answered_of_settles (settles_await look pauses) ?_
  refine Look.forall_mem_looks
    (P := fun state : Trace =>
      state.Consistent ∧ state.buffer.capacity = look.state.buffer.capacity)
    (fun state others hstate => ?_) ⟨hconsistent, rfl⟩ pauses
  exact ⟨hstate.1.run others, (hstate.1.settings_run others).1.trans hstate.2⟩

end Write

/-- After any accesses to an empty buffer its records and numbers are in order, and room is there
until somebody writes. Whatever others do meanwhile, a write fails with an overflow if it has more
records than the buffer could ever hold, is made if it has none or finds room for them in time, and
times out otherwise; only a write that is made changes the buffer, and it leaves it in order. -/
theorem accounts_for_records (pipeline plugin : String) (capacity batchSize : Nat)
    (checkpointTimeout : Nanoseconds) (steps : List (Nanoseconds × Access)) :
    let trace := (Trace.fresh pipeline plugin capacity batchSize checkpointTimeout).run steps
    trace.Accounted capacity
      ∧ ∀ (write : Write) (now : Nanoseconds) (pauses : List (Pause (Nanoseconds × Access))),
        write.Answered capacity (write.looks ⟨now, true, trace⟩ pauses)
            (write.attempt ⟨now, true, trace⟩ pauses)
          ∧ (write.attempt ⟨now, true, trace⟩ pauses).1.Accounted capacity := by
  intro trace
  have hfresh := Trace.consistent_fresh pipeline plugin capacity batchSize checkpointTimeout
  have hconsistent : trace.Consistent := hfresh.run steps
  have hcapacity : trace.buffer.capacity = capacity := (hfresh.settings_run steps).1
  refine ⟨hcapacity ▸ hconsistent.accounted, fun write now pauses => ?_⟩
  obtain ⟨hanswered, hafter, hsame⟩ :=
    @Write.answered_attempt write ⟨now, true, trace⟩ hconsistent pauses
  exact ⟨hcapacity ▸ hanswered, (hsame.trans hcapacity) ▸ hafter.accounted⟩

end ReceiveBuffer

end RecordRelay
