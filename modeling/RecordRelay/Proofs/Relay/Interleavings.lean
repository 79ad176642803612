import RecordRelay.Proofs.Relay.Sizes

/-! A node keeps to its sizes in the middle of its operations too: calls take turns with the queues
and submit their batches one by one, others access the buffers, and the outcome of a job is noted
some time after a worker is done with it, when its records have waited for room in a buffer if there
was none. -/
namespace RecordRelay

namespace Relay

variable {P : Record → Prop} {settings : Settings} {records : List Record} {relay next : Relay}

/-- A call takes up the records of one owner. Those that belong here are kept, and others join the
queue of their owner, from which full batches are cut. -/
def turn (relay : Relay) (index : Nat) (routing : Routing) (owner : Option String)
    (records : List Record) : List Cut × Relay :=
  match relay.registrations[index]? with
  | some ⟨buffer, some sender⟩ =>
    if routing.isLocal owner then
      ([], relay.setRegistration index
        ⟨buffer, some { sender with outbox := sender.outbox.counted records.length 0 0 }⟩)
    else
      let destination := owner.getD ""
      ((sender.outbox.filled destination records).map (Cut.mk destination),
        relay.setRegistration index
          ⟨buffer, some { sender with outbox := sender.outbox.enqueue destination records }⟩)
  | _ => ([], relay)

/-- A call submits a batch that it has cut. -/
def submit (relay : Relay) (index : Nat) (cut : Cut) : Relay :=
  match relay.registrations[index]? with
  | some ⟨buffer, some sender⟩ =>
    let pool := relay.pools[sender.pool]?.getD (.start 0 0)
    let (_, outbox, pool) :=
      Outbox.submit index cut.destination cut.batch sender.outbox pool
    { relay with
      registrations := relay.registrations.set index ⟨buffer, some { sender with outbox }⟩
      pools := relay.pools.set sender.pool pool }
  | _ => relay

theorem Regular.turn (h : relay.Regular P settings) (hrecords : ∀ record ∈ records, P record)
    (index : Nat) (routing : Routing) (owner : Option String) :
    relay.Proceeds P settings (relay.turn index routing owner records).2
      ∧ ∀ cut ∈ (relay.turn index routing owner records).1,
        FullBatch P settings.batchSize.toNat cut.batch := by
  rw [Relay.turn]
  split
  next buffer sender hget =>
    have hregistration := h.registrations _ (List.mem_of_getElem? hget)
    have houtbox := hregistration.outbox sender rfl
    split_ifs
    · exact ⟨h.setRegistration (hregistration.withOutbox (houtbox.withCounters _)), nofun⟩
    · obtain ⟨hfull, hnext⟩ := houtbox.enqueue (owner.getD "") hrecords
      refine ⟨h.setRegistration (hregistration.withOutbox hnext), fun cut hcut => ?_⟩
      obtain ⟨batch, hbatch, rfl⟩ := List.mem_map.mp hcut
      exact hfull batch hbatch
  next => exact ⟨h.keep rfl rfl fun _ => id, nofun⟩

theorem Regular.submit {cut : Cut} (h : relay.Regular P settings)
    (hcut : FullBatch P settings.batchSize.toNat cut.batch) (index : Nat) :
    relay.Proceeds P settings (relay.submit index cut) := by
  rw [Relay.submit]
  split
  next buffer sender hget =>
    have hregistration := h.registrations _ (List.mem_of_getElem? hget)
    obtain ⟨accepted, hpool, hjobs⟩ := sender.outbox.exists_accepted_submit index cut
      (relay.pools[sender.pool]?.getD (.start 0 0))
    obtain ⟨-, -, counters, houtbox⟩ := Outbox.submit_spec index cut.destination cut.batch
      sender.outbox (relay.pools[sender.pool]?.getD (.start 0 0))
    dsimp only
    rw [hpool, houtbox]
    refine h.send hget ((hregistration.outbox sender rfl).withCounters counters) fun job hjob => ?_
    rw [hjobs job hjob]
    exact ⟨sender.outbox.whole_jobOf index hcut, rfl⟩
  next => exact h.keep rfl rfl fun _ => id

theorem Regular.perform (h : relay.Regular P settings) (index : Nat) (now : Nanoseconds)
    (access : ReceiveBuffer.Access) :
    relay.Proceeds P settings (relay.perform (.access index now access)) := by
  rw [Relay.perform]
  split
  next registration hget =>
    exact h.setRegistration ((h.registrations _ (List.mem_of_getElem? hget)).access now access)
  next => exact h.keep rfl rfl fun _ => id

/-- A node at work: what callers and workers have in hand. -/
structure WorkState where
  relay : Relay
  /-- The batches that calls have cut and not submitted, with the number of the registration. -/
  cuts : List (Nat × Cut)
  /-- The jobs that workers are done with, whose outcome has not been noted. -/
  done : List Job

namespace WorkState

def quiet (relay : Relay) : WorkState := ⟨relay, [], []⟩

inductive WorkStep where
  /-- An operation that nothing interrupts. -/
  | operate (operation : Operation)
  /-- Somebody accesses the buffer of a registration. -/
  | access (index : Nat) (now : Nanoseconds) (access : ReceiveBuffer.Access)
  /-- A call of a registration takes up the records of an owner. -/
  | turn (index : Nat) (routing : Routing) (owner : Option String) (records : List Record)
  /-- A call submits one of the batches that were cut. -/
  | submit (place : Nat)
  /-- A worker is done with a job. -/
  | finish (pool place : Nat)
  /-- The outcome of a job is noted. -/
  | note (place : Nat) (outcome : Outcome)

/-- The records that are put into queues. -/
def WorkStep.forwarded : WorkStep → List Record
  | .operate operation => operation.forwarded
  | .turn _ _ _ records => records
  | _ => []

def step (state : WorkState) : WorkStep → WorkState
  | .operate operation => { state with relay := state.relay.operate operation }
  | .access index now access =>
    { state with relay := state.relay.perform (.access index now access) }
  | .turn index routing owner records =>
    let (cuts, relay) := state.relay.turn index routing owner records
    { state with relay, cuts := state.cuts ++ cuts.map (index, ·) }
  | .submit place =>
    match state.cuts[place]? with
    | some (index, cut) =>
      { state with relay := state.relay.submit index cut, cuts := state.cuts.eraseIdx place }
    | none => state
  | .finish pool place =>
    match state.relay.finishJob pool place with
    | some (job, relay) => { state with relay, done := state.done ++ [job] }
    | none => state
  | .note place outcome =>
    match state.done[place]? with
    | some job =>
      { state with relay := state.relay.complete job outcome, done := state.done.eraseIdx place }
    | none => state

def run (state : WorkState) (workSteps : List WorkStep) : WorkState := workSteps.foldl step state

def jobs (state : WorkState) : List Job := state.relay.jobs ++ state.done

/-- A node at work keeps to the sizes of its settings, and everybody has full batches in hand. -/
structure Regular (P : Record → Prop) (settings : Settings) (state : WorkState) : Prop where
  relay : state.relay.Regular P settings
  cuts : ∀ entry ∈ state.cuts, FullBatch P settings.batchSize.toNat entry.2.batch
  jobs : ∀ job ∈ state.jobs,
    job.Whole P settings.batchSize.toNat ∧ state.relay.Sends job.registration

variable {state : WorkState}

/-- The node goes on, and what is in hand stays or is full. -/
theorem Regular.proceed (h : state.Regular P settings)
    (hnext : state.relay.Proceeds P settings next) {cuts : List (Nat × Cut)} {done : List Job}
    (hcuts : ∀ entry ∈ cuts, FullBatch P settings.batchSize.toNat entry.2.batch)
    (hdone : ∀ job ∈ done, job ∈ state.jobs) : Regular P settings ⟨next, cuts, done⟩ where
  relay := hnext.regular
  cuts := hcuts
  jobs job hjob := by
    have hkept (hold : job ∈ state.jobs) :
        job.Whole P settings.batchSize.toNat ∧ next.Sends job.registration :=
      (h.jobs job hold).imp_right (hnext.sends h.relay)
    rcases List.mem_append.mp hjob with hjob | hjob
    · exact (hnext.jobs job hjob).elim (fun hold => hkept (List.mem_append_left _ hold)) id
    · exact hkept (hdone job hjob)

theorem Regular.step (h : state.Regular P settings) (hbatch : 0 < settings.batchSize)
    {workStep : WorkStep} (hrecords : ∀ record ∈ workStep.forwarded, P record) :
    (state.step workStep).Regular P settings := by
  have hheld : ∀ job ∈ state.done, job ∈ state.jobs := fun job => List.mem_append_right _
  cases workStep with
  | operate operation =>
    have hrecords : ∀ record ∈ operation.forwarded, P record := hrecords
    exact h.proceed (h.relay.operate hbatch hrecords) h.cuts hheld
  | access index now access => exact h.proceed (h.relay.perform index now access) h.cuts hheld
  | turn index routing owner records =>
    have hrecords : ∀ record ∈ records, P record := hrecords
    obtain ⟨hnext, hfull⟩ := h.relay.turn hrecords index routing owner
    refine h.proceed hnext (fun entry hentry => ?_) hheld
    rcases List.mem_append.mp hentry with hold | hnew
    · exact h.cuts entry hold
    · obtain ⟨cut, hcut, rfl⟩ := List.mem_map.mp hnew
      exact hfull cut hcut
  | submit place =>
    rw [WorkState.step]
    split
    next index cut hget =>
      have hcut := h.cuts _ (List.mem_of_getElem? hget)
      exact h.proceed (h.relay.submit hcut index)
        (fun entry hentry => h.cuts entry (List.mem_of_mem_eraseIdx hentry)) hheld
    next => exact h
  | finish pool place =>
    rw [WorkState.step]
    split
    next job relay hfinish =>
      obtain ⟨hnext, hmem⟩ := h.relay.finishJob hfinish
      refine h.proceed hnext h.cuts fun other hother => ?_
      rcases List.mem_append.mp hother with hold | hnew
      · exact hheld other hold
      · exact List.mem_append_left _ (List.mem_singleton.mp hnew ▸ hmem)
    next => exact h
  | note place outcome =>
    rw [WorkState.step]
    split
    next job hget =>
      exact h.proceed (h.relay.complete job outcome) h.cuts
        fun other hother => hheld other (List.mem_of_mem_eraseIdx hother)
    next => exact h

theorem Regular.run (h : state.Regular P settings) (hbatch : 0 < settings.batchSize)
    {workSteps : List WorkStep}
    (hrecords : ∀ workStep ∈ workSteps, ∀ record ∈ workStep.forwarded, P record) :
    (state.run workSteps).Regular P settings := by
  induction workSteps generalizing state with
  | nil => exact h
  | cons workStep rest ih =>
    rw [List.forall_mem_cons] at hrecords
    exact ih (h.step hbatch hrecords.1) hrecords.2

theorem regular_quiet (settings : Settings) (hasClient : Bool) (source : PeerSource Follower)
    (isLocal? : String → Option Bool) :
    (quiet (idle settings hasClient source isLocal?)).Regular P settings where
  relay := regular_idle settings hasClient source isLocal?
  cuts := nofun
  jobs := nofun

end WorkState

end Relay

end RecordRelay
