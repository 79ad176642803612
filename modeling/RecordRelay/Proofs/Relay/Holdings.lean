import RecordRelay.Proofs.Buffer.Operations
import RecordRelay.Proofs.Forwarding.Submission
import RecordRelay.Proofs.Wire
import RecordRelay.Relay.Intake

/-! The records at a node wait in a batching queue, travel with a job of a dispatch pool or lie in a
receive buffer; of those that could be kept nowhere only the number is known. Every operation of a
node moves records between these places or in and out of the node, and changes nothing else. -/
namespace RecordRelay

/-- Records with the pipeline and the plugin they are for. -/
abbrev StageRecords := Multiset ((String × String) × Record)

def ofStage (stage : String × String) (records : List Record) : StageRecords :=
  ↑(records.map fun record => (stage, record))

@[simp] theorem ofStage_nil (stage : String × String) : ofStage stage [] = 0 := rfl

theorem ofStage_append (stage : String × String) (records others : List Record) :
    ofStage stage (records ++ others) = ofStage stage records + ofStage stage others := by
  rw [ofStage, List.map_append, ← Multiset.coe_add]
  rfl

theorem ofStage_perm (stage : String × String) {records others : List Record}
    (h : records.Perm others) : ofStage stage records = ofStage stage others :=
  Multiset.coe_eq_coe.mpr (h.map _)

theorem ofStage_flatMap {α : Type} (stage : String × String) (items : List α)
    (records : α → List Record) :
    ofStage stage (items.flatMap records)
      = (items.map fun item => ofStage stage (records item)).sum := by
  induction items with
  | nil => rfl
  | cons item rest ih => rw [List.flatMap_cons, ofStage_append, ih, List.map_cons, List.sum_cons]

/-- Replacing an element of a list exchanges its part of a sum. -/
theorem sum_map_set {α M : Type} [AddCommMonoid M] (f : α → M) {l : List α} {i : Nat} {a : α}
    (h : l[i]? = some a) (b : α) :
    ((l.set i b).map f).sum + f a = (l.map f).sum + f b := by
  induction l generalizing i with
  | nil => exact absurd h (by simp)
  | cons x rest ih =>
    cases i with
    | zero =>
      obtain rfl : x = a := by simpa using h
      simp only [List.set_cons_zero, List.map_cons, List.sum_cons]
      abel
    | succ i =>
      have hrest := ih (i := i) (by simpa using h)
      simp only [List.set_cons_succ, List.map_cons, List.sum_cons, add_assoc, hrest]

/-- What replacing an element adds to its part of a sum, it adds to the sum. -/
theorem sum_map_set_add {α M : Type} [AddCancelCommMonoid M] (f : α → M) {l : List α} {i : Nat}
    {a : α} (h : l[i]? = some a) {b : α} {gain loss : M} (hf : f b + loss = f a + gain) :
    ((l.set i b).map f).sum + loss = (l.map f).sum + gain := by
  refine add_right_cancel (b := f a) ?_
  calc ((l.set i b).map f).sum + loss + f a
      = ((l.set i b).map f).sum + f a + loss := by abel
    _ = (l.map f).sum + (f b + loss) := by rw [sum_map_set f h]; abel
    _ = (l.map f).sum + gain + f a := by rw [hf]; abel

namespace ReceiveBuffer

/-- No read is in flight. -/
def Quiet (buffer : ReceiveBuffer) : Prop := buffer.inFlight = [] ∧ buffer.inFlightRecords = 0

def stored (buffer : ReceiveBuffer) : List Record :=
  buffer.queue ++ buffer.inFlight.flatMap Delivery.records

theorem Quiet.redeliver {buffer : ReceiveBuffer} (h : buffer.Quiet) (now : Nanoseconds) :
    buffer.redeliver now = buffer := by
  obtain ⟨hinFlight, hcount⟩ := h
  cases buffer
  simp only at hinFlight hcount
  subst hinFlight hcount
  rfl

/-- A read that is released at once takes the oldest records out of a quiet buffer. -/
theorem Quiet.read_checkpoint {buffer : ReceiveBuffer} (h : buffer.Quiet) (now : Nanoseconds) :
    ∃ id, (buffer.read now).1 = buffer.queue.take buffer.batchSize
      ∧ (buffer.read now).2.2.checkpoint (buffer.read now).2.1
        = { buffer with queue := buffer.queue.drop buffer.batchSize, nextId := id } := by
  rw [read, h.redeliver]
  by_cases hnil : buffer.queue.take buffer.batchSize = []
  · refine ⟨buffer.nextId, ?_, ?_⟩
    · rw [take_of_nil hnil, hnil]
    · rw [take_of_nil hnil, checkpoint_of_forall_ne (by simp [h.1]), drop_of_take_eq_nil hnil]
  · refine ⟨buffer.nextId + 1, ?_, ?_⟩
    · rw [take_of_ne_nil hnil]
    · rw [take_of_ne_nil hnil, checkpoint_eq (by simp [handOut, h.1])]
      simp [withdraw, handOut, h.1, h.2]

end ReceiveBuffer

def Job.stage (job : Job) : String × String := (job.request.pipeline, job.request.plugin)

/-- What has to hold of the registrations and the records of a node. -/
structure Terms where
  /-- The identification keys with which a stage may be registered; there are none if it sends
  nothing. -/
  registers : String × String → Option (List String) → Prop
  /-- The records of a stage that may wait to be sent to an address. -/
  waits : String × String → String → Record → Prop
  /-- The records of a stage that may lie in its receive buffer. -/
  rests : String × String → Record → Prop

namespace Terms

def free : Terms := ⟨fun _ _ => True, fun _ _ _ => True, fun _ _ => True⟩

/-- Whatever meets the terms meets the others. -/
structure Implies (terms others : Terms) : Prop where
  registers : ∀ {stage keys}, terms.registers stage keys → others.registers stage keys
  waits : ∀ {stage address record}, terms.waits stage address record →
    others.waits stage address record
  rests : ∀ {stage record}, terms.rests stage record → others.rests stage record

end Terms

namespace Registration

/-- The records that wait in the batching queues of a registration. -/
def waiting (registration : Registration) : List Record :=
  (registration.sender.map fun sender => sender.outbox.waiting).getD []

def dropped (registration : Registration) : Nat :=
  (registration.sender.map fun sender => sender.outbox.counters.dropped).getD 0

/-- What a registration holds: records on their way out, records in its buffer, and the number of
those it has dropped. -/
def holdings (registration : Registration) : StageRecords × StageRecords × Nat :=
  (ofStage registration.key registration.waiting,
    ofStage registration.key registration.buffer.stored, registration.dropped)

/-- The identification keys of a registration, if it sends anything. -/
def keys? (registration : Registration) : Option (List String) :=
  registration.sender.map fun sender => sender.outbox.keys

/-- A registration between two operations: no read is in flight, the outbox goes by the names of
the registration, the documents of the records that wait are in order, and the terms are met. -/
structure Sound (terms : Terms) (registration : Registration) : Prop where
  quiet : registration.buffer.Quiet
  names : ∀ sender ∈ registration.sender,
    (sender.outbox.pipeline, sender.outbox.plugin) = registration.key
  registers : terms.registers registration.key registration.keys?
  waits : ∀ sender ∈ registration.sender, ∀ entry ∈ sender.outbox.queues,
    ∀ record ∈ entry.2.records, record.Canonical ∧ terms.waits registration.key entry.1 record
  rests : ∀ record ∈ registration.buffer.stored, terms.rests registration.key record

/-- What identifies a registration: its names and the pool it sends with, if it sends. -/
def shape (registration : Registration) : (String × String) × Option Nat :=
  (registration.key, registration.sender.map Sender.pool)

variable {terms : Terms}

theorem Sound.imp {others : Terms} {registration : Registration} (h : registration.Sound terms)
    (himplies : terms.Implies others) : registration.Sound others where
  quiet := h.quiet
  names := h.names
  registers := himplies.registers h.registers
  waits sender hsender entry hentry record hrecord :=
    (h.waits sender hsender entry hentry record hrecord).imp_right himplies.waits
  rests record hrecord := himplies.rests (h.rests record hrecord)

/-- A read takes records out of the buffer. -/
theorem Sound.receive {registration : Registration} (h : registration.Sound terms)
    (now : Nanoseconds) :
    (registration.receive now).2.Sound terms
      ∧ (registration.receive now).2.shape = registration.shape
      ∧ (∀ record ∈ (registration.receive now).1, terms.rests registration.key record)
      ∧ (registration.receive now).2.holdings
          + (0, ofStage registration.key (registration.receive now).1, 0)
        = registration.holdings := by
  obtain ⟨buffer, sender⟩ := registration
  cases sender with
  | none => exact ⟨h, rfl, by simp [Registration.receive], by simp [Registration.receive]⟩
  | some sender =>
    obtain ⟨id, hrecords, hbuffer⟩ := h.quiet.read_checkpoint now
    have hinFlight : buffer.inFlight = [] := h.quiet.1
    have hqueue : ∀ record ∈ buffer.queue, terms.rests (buffer.pipeline, buffer.plugin) record :=
      fun record hrecord => h.rests record (List.mem_append_left _ hrecord)
    simp only [Registration.receive, hrecords, hbuffer]
    refine ⟨⟨h.quiet, ?_, h.registers, ?_, ?_⟩, rfl, ?_, ?_⟩
    · rintro _ ⟨⟩
      exact h.names sender rfl
    · rintro _ ⟨⟩
      exact h.waits sender rfl
    · intro record hrecord
      rcases List.mem_append.mp hrecord with hrecord | hrecord
      · exact hqueue record (List.mem_of_mem_drop hrecord)
      · exact h.rests record (List.mem_append_right _ hrecord)
    · exact fun record hrecord => hqueue record (List.mem_of_mem_take hrecord)
    · have hstored : ofStage (buffer.pipeline, buffer.plugin)
            (buffer.queue.drop buffer.batchSize ++ buffer.inFlight.flatMap Delivery.records)
          + ofStage (buffer.pipeline, buffer.plugin) (buffer.queue.take buffer.batchSize)
          = ofStage (buffer.pipeline, buffer.plugin) buffer.stored := by
        rw [add_comm, ← ofStage_append, ← List.append_assoc, List.take_append_drop]
        rfl
      exact Prod.ext (add_zero _) (Prod.ext hstored (add_zero _))

/-- Records that are put into the buffer. -/
theorem Sound.store {registration : Registration} (h : registration.Sound terms)
    {records : List Record} {patience : Nanoseconds} {buffer : ReceiveBuffer}
    (hwrite : registration.buffer.writeAll records patience = .ok buffer)
    (hrecords : ∀ record ∈ records, terms.rests registration.key record) :
    Registration.Sound terms { registration with buffer }
      ∧ Registration.shape { registration with buffer } = registration.shape
      ∧ Registration.holdings { registration with buffer }
        = registration.holdings + (0, ofStage registration.key records, 0) := by
  have hinFlight : registration.buffer.inFlight = [] := h.quiet.1
  obtain rfl := ReceiveBuffer.writeAll_ok hwrite
  refine ⟨⟨h.quiet, h.names, h.registers, h.waits, ?_⟩, rfl, ?_⟩
  · intro record hrecord
    simp only [ReceiveBuffer.stored, ReceiveBuffer.enqueue, List.append_assoc] at hrecord
    rcases List.mem_append.mp hrecord with hrecord | hrecord
    · exact h.rests record (List.mem_append_left _ hrecord)
    · rcases List.mem_append.mp hrecord with hrecord | hrecord
      · exact hrecords record hrecord
      · exact h.rests record (List.mem_append_right _ hrecord)
  · simp only [holdings, key, ReceiveBuffer.stored, ReceiveBuffer.enqueue, hinFlight,
      List.flatMap_nil, List.append_nil, ofStage_append, Prod.mk_add_mk, add_zero]
    rfl

/-- Records that are written back are in the buffer afterwards, and others are counted. -/
theorem Sound.fallBack {registration : Registration} (h : registration.Sound terms)
    (hsender : registration.sender.isSome = true) (patience : Nanoseconds) {records : List Record}
    (hrecords : ∀ record ∈ records, terms.rests registration.key record) :
    (registration.fallBack patience records).Sound terms
      ∧ (registration.fallBack patience records).shape = registration.shape
      ∧ ((registration.fallBack patience records).holdings
            = registration.holdings + (0, ofStage registration.key records, 0)
          ∨ (registration.fallBack patience records).holdings
            = registration.holdings + (0, 0, records.length)) := by
  rw [Registration.fallBack]
  cases hwrite : registration.buffer.writeAll records patience with
  | ok next =>
    obtain ⟨hsound, hshape, hholdings⟩ := h.store hwrite hrecords
    exact ⟨hsound, hshape, .inl hholdings⟩
  | error cause =>
    obtain ⟨buffer, sender⟩ := registration
    obtain ⟨sender, rfl⟩ := Option.isSome_iff_exists.mp hsender
    refine ⟨⟨h.quiet, ?_, h.registers, ?_, h.rests⟩, rfl, .inr ?_⟩
    · rintro _ ⟨⟩
      exact h.names sender rfl
    · rintro _ ⟨⟩
      exact h.waits sender rfl
    · simp only [holdings, Prod.mk_add_mk, add_zero]
      rfl

theorem Sound.complete {registration : Registration} (h : registration.Sound terms)
    (hsender : registration.sender.isSome = true) (patience : Nanoseconds) (outcome : Outcome)
    {records : List Record}
    (hrecords : outcome.isSuccess = false →
      ∀ record ∈ records, terms.rests registration.key record) :
    (registration.complete patience outcome records).Sound terms
      ∧ (registration.complete patience outcome records).shape = registration.shape
      ∧ (if outcome.isSuccess then
          (registration.complete patience outcome records).holdings = registration.holdings
        else
          (registration.complete patience outcome records).holdings
              = registration.holdings + (0, ofStage registration.key records, 0)
            ∨ (registration.complete patience outcome records).holdings
              = registration.holdings + (0, 0, records.length)) := by
  obtain ⟨buffer, sender⟩ := registration
  obtain ⟨sender, rfl⟩ := Option.isSome_iff_exists.mp hsender
  have hsettled : Sound terms (Registration.mapOutbox (Outbox.settle outcome records.length)
      ⟨buffer, some sender⟩) := by
    refine ⟨h.quiet, ?_, h.registers, ?_, h.rests⟩
    · rintro _ ⟨⟩
      exact h.names sender rfl
    · rintro _ ⟨⟩
      exact h.waits sender rfl
  have hholdings : (Registration.mapOutbox (Outbox.settle outcome records.length)
      ⟨buffer, some sender⟩).holdings = Registration.holdings ⟨buffer, some sender⟩ := by
    simp only [holdings, Registration.mapOutbox, waiting, dropped, Outbox.settle, Option.map_some]
    split_ifs <;> rfl
  rw [Registration.complete]
  cases hsuccess : outcome.isSuccess with
  | true => exact ⟨hsettled, rfl, hholdings⟩
  | false =>
    obtain ⟨hsound, hshape, hmoved⟩ := hsettled.fallBack rfl patience (hrecords hsuccess)
    rw [hholdings] at hmoved
    exact ⟨hsound, hshape, hmoved⟩

end Registration

end RecordRelay
