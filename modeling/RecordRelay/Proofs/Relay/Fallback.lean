import RecordRelay.Proofs.Relay.Acceptance
import RecordRelay.Proofs.Relay.Consumption
import RecordRelay.Proofs.Relay.Interleavings

/-! The records of a batch that no peer took are put into the receive buffer of their stage.
Settings are only valid if a buffer has room for a batch, and only full batches are sent, so this
fails for want of room at the time and for no other reason; and a peer whose buffers have room for a
batch never calls one too large. -/
namespace RecordRelay

namespace ReceiveBuffer

variable {buffer : ReceiveBuffer} {records : List Record}

theorem Counts.length_stored (h : buffer.Counts) : buffer.stored.length = buffer.length := by
  rw [stored, List.length_append]
  exact h.1.symm

theorem writeAll_ne_sizeOverflow (hsmall : records.length ≤ buffer.capacity)
    (timeout : Nanoseconds) (requested capacity : Nat) :
    buffer.writeAll records timeout ≠ .error (.sizeOverflow requested capacity) := by
  by_cases haccepts : buffer.Accepts records
  · rw [writeAll_of_accepts hsmall haccepts]
    exact nofun
  · rw [writeAll_of_not_accepts hsmall haccepts]
    exact nofun

end ReceiveBuffer

namespace Registration

/-- What an outcome does to a registration. Records that a peer took change neither the buffer nor
the number of dropped records. Others are put into the buffer if there is room for them beside the
records that wait there and those in flight, and only if there is none are they dropped. -/
structure Ends (capacity : Nat) (records : List Record) (outcome : Outcome)
    (before after : Registration) : Prop where
  taken : outcome.isSuccess = true →
    after.buffer = before.buffer ∧ after.dropped = before.dropped
  stored : outcome.isSuccess = false →
    before.buffer.stored.length + records.length ≤ capacity →
      after.buffer = before.buffer.enqueue records ∧ after.dropped = before.dropped
  dropped : outcome.isSuccess = false →
    capacity < before.buffer.stored.length + records.length →
      after.buffer = before.buffer ∧ after.dropped = before.dropped + records.length

theorem Ends.not_dropped {capacity : Nat} {records : List Record} {outcome : Outcome}
    {before after : Registration} (h : Ends capacity records outcome before after)
    (hroom : before.buffer.stored.length + records.length ≤ capacity) :
    after.dropped = before.dropped := by
  cases hsuccess : outcome.isSuccess with
  | true => exact (h.taken hsuccess).2
  | false => exact (h.stored hsuccess hroom).2

theorem dropped_settle (outcome : Outcome) (count : Nat) (buffer : ReceiveBuffer)
    (sender : Option Sender) :
    (mapOutbox (Outbox.settle outcome count) ⟨buffer, sender⟩).dropped
      = dropped ⟨buffer, sender⟩ := by
  cases sender with
  | none => rfl
  | some sender =>
    simp only [dropped, mapOutbox, Outbox.settle, Option.map_some]
    split_ifs <;> rfl

variable {P : Record → Prop} {settings : Settings} {registration : Registration}
  {records : List Record}

theorem Regular.ends (h : registration.Regular P settings)
    (hpeers : settings.arePeersConfigured = true) (hpos : 0 < records.length)
    (hfits : records.length ≤ settings.bufferSize.toNat) (patience : Nanoseconds)
    (outcome : Outcome) :
    Ends settings.bufferSize.toNat records outcome registration
      (registration.complete patience outcome records) := by
  have hstored := h.reached.counts.length_stored
  have hsends := h.sends
  obtain ⟨buffer, sender⟩ := registration
  obtain ⟨sender, rfl⟩ := Option.isSome_iff_exists.mp (hsends.trans hpeers)
  have hsmall : records.length ≤ buffer.capacity := hfits.trans_eq h.capacity.symm
  have hcapacity : buffer.capacity = settings.bufferSize.toNat := h.capacity
  have hsettled := dropped_settle outcome records.length buffer (some sender)
  have hsame : (Registration.mapOutbox (Outbox.settle outcome records.length)
      ⟨buffer, some sender⟩).buffer = buffer := rfl
  rw [Registration.complete]
  refine ⟨fun hsuccess => ?_, fun hfailure hroom => ?_, fun hfailure hfull => ?_⟩
  · rw [if_pos hsuccess]
    exact ⟨rfl, hsettled⟩
  · have haccepts : buffer.Accepts records := by
      refine .inr ?_
      rwa [hcapacity, ← hstored]
    rw [hfailure, if_neg Bool.false_ne_true, fallBack, hsame,
      ReceiveBuffer.writeAll_of_accepts hsmall haccepts]
    exact ⟨rfl, hsettled⟩
  · have hfull : ¬ buffer.Accepts records := by
      rintro (rfl | hroom)
      · exact absurd hpos (lt_irrefl 0)
      · rw [hcapacity, ← hstored] at hroom
        exact absurd hroom hfull.not_ge
    rw [hfailure, if_neg Bool.false_ne_true, fallBack, hsame,
      ReceiveBuffer.writeAll_of_not_accepts hsmall hfull]
    exact ⟨rfl, congrArg (· + records.length) hsettled⟩

end Registration

namespace Relay

variable {P : Record → Prop} {settings : Settings} {relay : Relay} {job : Job}

/-- How a job can end at its node: it has a full batch, for which the buffer of its registration
would have room if it were empty, and it is dropped only if there is no room for it then. -/
structure FallsBack (settings : Settings) (relay : Relay) (job : Job)
    (registration : Registration) : Prop where
  registered : relay.registrations[job.registration]? = some registration
  full : job.records.length = settings.batchSize.toNat
  fits : settings.batchSize ≤ settings.bufferSize
  noOverflow : ∀ requested capacity,
    registration.buffer.writeAll job.records settings.localWritePatience
      ≠ .error (.sizeOverflow requested capacity)
  ends : ∀ outcome, ∃ later,
    relay.complete job outcome = relay.setRegistration job.registration later
      ∧ Registration.Ends settings.bufferSize.toNat job.records outcome registration later
      ∧ (registration.buffer.isEmpty = true → later.dropped = registration.dropped)

theorem Regular.fallsBack (h : relay.Regular P settings) (hbatch : 0 < settings.batchSize)
    (hfits : settings.batchSize ≤ settings.bufferSize)
    (hjob : job.Whole P settings.batchSize.toNat) (hsends : relay.Sends job.registration) :
    ∃ registration, relay.FallsBack settings job registration := by
  obtain ⟨registration, hget⟩ : ∃ registration,
      relay.registrations[job.registration]? = some registration :=
    ⟨_, List.getElem?_eq_getElem hsends.1⟩
  have hregistration := h.registrations _ (List.mem_of_getElem? hget)
  have hlength := hjob.batch.length
  have hsmall : job.records.length ≤ settings.bufferSize.toNat :=
    hlength.trans_le (UInt64.le_iff_toNat_le.mp hfits)
  have hpos : 0 < job.records.length := hlength ▸ UInt64.lt_iff_toNat_lt.mp hbatch
  have hpeers : settings.arePeersConfigured = true := h.settings_eq ▸ hsends.2
  refine ⟨registration, hget, hlength, hfits, ?_, fun outcome => ?_⟩
  · exact ReceiveBuffer.writeAll_ne_sizeOverflow
      (hsmall.trans_eq hregistration.capacity.symm) _
  · have hends := hregistration.ends hpeers hpos hsmall relay.settings.localWritePatience outcome
    refine ⟨_, ?_, hends, fun hempty => hends.not_dropped ?_⟩
    · rw [Relay.complete, hget]
    · have hnone : registration.buffer.length = 0 := of_decide_eq_true hempty
      rwa [hregistration.reached.counts.length_stored, hnone, Nat.zero_add]

/-- A full batch is never too large for a node whose buffers have room for one. -/
theorem Regular.accept_ne_payloadTooLarge (h : relay.Regular P settings) {size : Nat}
    (hfits : size ≤ settings.bufferSize.toNat) (hjob : job.Whole Record.Canonical size) :
    (relay.accept job.request.payload).1 ≠ .payloadTooLarge := by
  have hdecode := Batch.decode?_encode hjob.batch.all job.request.pipeline job.request.plugin
  rw [← hjob.payload] at hdecode
  split_ifs at hdecode
  · generalize hbatch : Batch.ofRecords job.records job.request.pipeline job.request.plugin = batch
      at hdecode
    cases hfind : relay.find? batch.pipeline batch.plugin with
    | none =>
      rw [accept_of_unnamed hdecode hfind]
      exact nofun
    | some index =>
      obtain ⟨index, registration, hnames⟩ := exists_names (Option.isSome_of_eq_some hfind)
      have hcapacity := (h.registrations _ (List.mem_of_getElem? hnames.get)).capacity
      have hlength : batch.records.length = size := by
        rw [← hbatch, Batch.records_ofRecords, List.length_map, hjob.batch.length]
      rw [accept_of_names hdecode hnames, if_neg (by omega)]
      split_ifs <;> exact nofun
  · rw [accept_of_undecodable hdecode]
    exact nofun

/-- Whatever happens at a node that was set up keeps it and everybody's hands in order. -/
theorem regular_run_of_start {hasClient : Bool} {source : Option (PeerSource Follower)}
    {isLocal? : String → Option Bool} (h : start settings hasClient source isLocal? = .ok relay)
    {workSteps : List WorkState.WorkStep}
    (hrecords : ∀ workStep ∈ workSteps, ∀ record ∈ workStep.forwarded, P record) :
    ((WorkState.quiet relay).run workSteps).Regular P settings := by
  obtain ⟨hbatch, -⟩ := sizes_of_start h
  obtain ⟨chosen, -, rfl⟩ := eq_idle_of_start h
  exact (WorkState.regular_quiet settings hasClient chosen isLocal?).run hbatch hrecords

/-- At a node that was set up, whatever callers, workers and others do meanwhile, a job has a full
batch when its outcome is noted. It fits into the buffer of its registration, and unless a peer has
taken it, it is put there; it is dropped only if there is no room beside the records that wait and
those in flight, so never while the buffer is empty. And no node that was set up with buffers of the
size of such a batch or more answers that the batch is too large, whatever has happened there. -/
theorem only_full_buffers_drop_batches {settings : Settings} {hasClient : Bool}
    {source : Option (PeerSource Follower)} {isLocal? : String → Option Bool} {node : Relay}
    (hstart : start settings hasClient source isLocal? = .ok node)
    (workSteps : List WorkState.WorkStep) :
    let state := (WorkState.quiet node).run workSteps
    (∀ job ∈ state.jobs, ∃ registration, state.relay.FallsBack settings job registration)
      ∧ ((∀ workStep ∈ workSteps, ∀ record ∈ workStep.forwarded, record.Canonical) →
        ∀ {others : Settings} {hasClient : Bool} {source : Option (PeerSource Follower)}
          {isLocal? : String → Option Bool} {peer : Relay},
          start others hasClient source isLocal? = .ok peer →
            settings.batchSize ≤ others.bufferSize →
              ∀ more, ∀ job ∈ state.jobs,
                (((WorkState.quiet peer).run more).relay.accept job.request.payload).1
                  ≠ .payloadTooLarge) := by
  intro state
  refine ⟨fun job hjob => ?_, fun hcanonical others _ _ _ peer hpeer hfits more job hjob => ?_⟩
  · have hstate : state.Regular (fun _ => True) settings :=
      regular_run_of_start hstart fun _ _ _ _ => trivial
    obtain ⟨hwhole, hsends⟩ := hstate.jobs job hjob
    obtain ⟨hbatch, hfits⟩ := sizes_of_start hstart
    exact hstate.relay.fallsBack hbatch hfits hwhole hsends
  · have hstate : state.Regular Record.Canonical settings :=
      regular_run_of_start hstart hcanonical
    have hthere : ((WorkState.quiet peer).run more).Regular (fun _ => True) others :=
      regular_run_of_start hpeer fun _ _ _ _ => trivial
    exact hthere.relay.accept_ne_payloadTooLarge (UInt64.le_iff_toNat_le.mp hfits)
      (hstate.jobs job hjob).1

def crowding : List WorkState.WorkStep :=
  [.operate (.register "p" "x" ["id"] (.ok ())), .access 0 0 (.write [testRecord "a"] 0),
    .turn 0 ⟨fun _ => some "10.0.0.2", fun _ => some false⟩ (some "10.0.0.2") [testRecord "b"],
    .submit 0, .operate (.takeJob 0), .finish 0 0]

theorem canonical_crowding :
    ∀ workStep ∈ crowding, ∀ record ∈ workStep.forwarded, record.Canonical := by
  simp [crowding, WorkState.WorkStep.forwarded, Operation.forwarded, canonical_testRecord]

/-- With room for one record, the batch of the other one is dropped if it is not taken. -/
theorem only_full_buffers_drop_batches_crowded :
    let settings : Settings := { pairedSettings with bufferSize := 1 }
    let node := idle settings true (.fixed ["10.0.0.1", "10.0.0.2"]) fun _ => some false
    let state := (WorkState.quiet node).run crowding
    start settings true none (fun _ => some false) = .ok node ∧ state.done.length = 1
      ∧ ∀ job ∈ state.done, (∃ registration, state.relay.FallsBack settings job registration)
        ∧ (state.relay.complete job (.error (.timeout "10.0.0.2"))).dropped = 1
        ∧ (state.relay.accept job.request.payload).1 ≠ .payloadTooLarge := by
  intro settings node state
  have hstart : start settings true none (fun _ => some false) = .ok node := rfl
  have hdropped : ∀ job ∈ state.done,
      (state.relay.complete job (.error (.timeout "10.0.0.2"))).dropped = 1 := by
    decide +kernel
  obtain ⟨hends, htaken⟩ := only_full_buffers_drop_batches hstart crowding
  refine ⟨hstart, by decide +kernel, fun job hdone => ?_⟩
  have hjob : job ∈ state.jobs := List.mem_append_right _ hdone
  exact ⟨hends job hjob, hdropped job hdone,
    htaken canonical_crowding hstart (by decide) crowding job hjob⟩

end Relay
end RecordRelay
