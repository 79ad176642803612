import RecordRelay.Proofs.Dispatch.Fates
import RecordRelay.Proofs.Relay.Holdings

/-! Each operation of a node keeps its registrations and jobs in order and accounts for every
record: forwarding takes records in and returns some of them, reading takes records out of a buffer,
a finished job leaves its pool, a batch of another node is stored as a whole or not at all, and the
records of a job that was not answered with a success are stored here or counted as dropped. -/
namespace RecordRelay

/-- Replacing an element of a list exchanges its part of a concatenation. -/
theorem flatMap_set_perm {α β : Type} (f : α → List β) {l : List α} {i : Nat} {a b : α}
    (gain loss : List β) (h : l[i]? = some a) (hf : (f b ++ loss).Perm (f a ++ gain)) :
    ((l.set i b).flatMap f ++ loss).Perm (l.flatMap f ++ gain) := by
  classical
  rw [List.perm_iff_count] at hf ⊢
  intro x
  have hx := hf x
  simp only [List.count_append, List.count_flatMap] at hx ⊢
  exact sum_map_set_add (List.count x ∘ f) h hx

/-- A job whose payload is that of its records, which can be read back and meet the terms. -/
structure Job.Fair (terms : Terms) (job : Job) : Prop where
  payload : job.request.payload
    = Batch.encode job.records job.request.pipeline job.request.plugin
  waits : ∀ record ∈ job.records,
    record.Canonical ∧ terms.waits job.stage job.request.destination record

theorem Job.Fair.imp {terms others : Terms} {job : Job} (h : job.Fair terms)
    (himplies : terms.Implies others) : job.Fair others :=
  ⟨h.payload, fun record hrecord => (h.waits record hrecord).imp_right himplies.waits⟩

def Job.stageRecords (job : Job) : StageRecords := ofStage job.stage job.records

namespace Pool

def jobs (pool : Pool) : List Job := pool.waiting ++ pool.running

theorem take_perm {pool next : Pool} {job : Job} (h : pool.take = some (job, next)) :
    next.jobs.Perm pool.jobs := by
  obtain ⟨rest, hwaiting, rfl⟩ := take_eq_some h
  rw [jobs, jobs, hwaiting]
  show (rest ++ (pool.running ++ [job])).Perm (job :: (rest ++ pool.running))
  rw [← List.append_assoc]
  exact List.perm_append_singleton ..

theorem finish_perm {pool next : Pool} {place : Nat} {job : Job}
    (h : pool.finish place = some (job, next)) : (next.jobs ++ [job]).Perm pool.jobs := by
  obtain ⟨hfound, rfl⟩ := finish_eq_some h
  obtain ⟨hlt, hget⟩ := List.getElem?_eq_some_iff.mp hfound
  rw [jobs, jobs, List.append_assoc]
  refine List.Perm.append_left _ ?_
  refine (List.perm_append_singleton _ _).trans ?_
  rw [← hget]
  exact List.getElem_cons_eraseIdx_perm hlt

end Pool

namespace Registration
variable {terms : Terms} {buffer : ReceiveBuffer} {sender : Sender} {records : List Record}

/-- The batches that forwarding cuts and the queues it leaves meet the terms if the records do. -/
theorem Sound.forwardCuts {routing : Routing} (h : Sound terms ⟨buffer, some sender⟩)
    (hrecords : ∀ record ∈ records, record.Canonical)
    (hwaits : ∀ record ∈ records, ∀ address,
      routing.ownerOf sender.outbox.keys record = some address →
        terms.waits (buffer.pipeline, buffer.plugin) address record) :
    (∀ cut ∈ (sender.outbox.forwardCuts routing records).1, ∀ record ∈ cut.batch,
        record.Canonical ∧ terms.waits (buffer.pipeline, buffer.plugin) cut.destination record)
      ∧ ∀ entry ∈ (sender.outbox.forwardCuts routing records).2, ∀ record ∈ entry.2.records,
        record.Canonical ∧ terms.waits (buffer.pipeline, buffer.plugin) entry.1 record := by
  refine Outbox.cutAll_forall (P := fun address record =>
    record.Canonical ∧ terms.waits (buffer.pipeline, buffer.plugin) address record)
    (h.waits sender rfl) fun group hgroup record hrecord => ?_
  obtain ⟨hmem, howner⟩ := owner_of_mem_groupByOwner _ (Outbox.mem_leaving hgroup).1 hrecord
  exact ⟨hrecords record hmem, hwaits record hmem group.1 howner⟩

/-- The job of a cut of an outbox. -/
theorem Sound.jobOf (h : Sound terms ⟨buffer, some sender⟩) {cut : Cut}
    (hcut : ∀ record ∈ cut.batch,
      record.Canonical ∧ terms.waits (buffer.pipeline, buffer.plugin) cut.destination record)
    (index : Nat) :
    (sender.outbox.jobOf index cut).Fair terms
      ∧ (sender.outbox.jobOf index cut).stage = (buffer.pipeline, buffer.plugin)
      ∧ (sender.outbox.jobOf index cut).registration = index := by
  have hstage : (sender.outbox.jobOf index cut).stage = (buffer.pipeline, buffer.plugin) :=
    h.names sender rfl
  refine ⟨⟨rfl, ?_⟩, hstage, rfl⟩
  rw [hstage]
  exact hcut

/-- The registration of an outbox that has forwarded records, and the jobs that this adds to its
pool. -/
theorem Sound.forward {routing : Routing} (h : Sound terms ⟨buffer, some sender⟩)
    (hrecords : ∀ record ∈ records, record.Canonical)
    (hwaits : ∀ record ∈ records, ∀ address,
      routing.ownerOf sender.outbox.keys record = some address →
        terms.waits (buffer.pipeline, buffer.plugin) address record)
    (index : Nat) (pool : Pool) :
    ∃ returned outbox accepted,
      sender.outbox.forward routing index records pool
          = (returned, outbox, { pool with waiting := pool.waiting ++ accepted })
        ∧ Sound terms ⟨buffer, some { sender with outbox }⟩
        ∧ outbox.counters.dropped = sender.outbox.counters.dropped
        ∧ (∀ job ∈ accepted, job.Fair terms ∧ job.stage = (buffer.pipeline, buffer.plugin)
            ∧ job.registration = index)
        ∧ (outbox.waiting ++ (returned ++ accepted.flatMap Job.records)).Perm
            (sender.outbox.waiting ++ records) := by
  have hrouted := sender.outbox.routed_forward routing index records pool
  have hmoved := sender.outbox.forward_perm routing records
  obtain ⟨accepted, hpool, hjobs, hperm⟩ :=
    sender.outbox.exists_accepted_forward routing index records pool
  obtain ⟨hcut, hqueued⟩ := h.forwardCuts hrecords hwaits
  refine ⟨_, _, accepted, Prod.ext rfl (Prod.ext hrouted.outbox_eq hpool), ?_, rfl, ?_, ?_⟩
  · refine ⟨h.quiet, ?_, h.registers, ?_, h.rests⟩
    · rintro _ ⟨⟩
      exact h.names sender rfl
    · rintro _ ⟨⟩
      exact hqueued
  · intro job hjob
    obtain ⟨cut, hmem, rfl⟩ := hjobs job hjob
    exact h.jobOf (hcut cut hmem) index
  · refine List.Perm.trans ?_ hmoved
    refine List.perm_append_comm.trans ?_
    refine (hperm.append_right _).trans ?_
    rw [List.append_assoc]
    rfl

end Registration

namespace Relay

def shape (relay : Relay) : List ((String × String) × Option Nat) :=
  relay.registrations.map Registration.shape

def jobs (relay : Relay) : List Job := relay.pools.flatMap Pool.jobs

def pending (relay : Relay) : StageRecords :=
  (relay.registrations.map fun registration =>
    ofStage registration.key registration.waiting).sum

def dispatched (relay : Relay) : StageRecords := (relay.jobs.map Job.stageRecords).sum

def buffered (relay : Relay) : StageRecords :=
  (relay.registrations.map fun registration =>
    ofStage registration.key registration.buffer.stored).sum

def dropped (relay : Relay) : Nat := (relay.registrations.map Registration.dropped).sum

/-- What a node holds: records on their way out, records in its buffers, and the number of those
it has dropped. -/
def holdings (relay : Relay) : StageRecords × StageRecords × Nat :=
  (relay.registrations.map Registration.holdings).sum + (relay.dispatched, 0, 0)

theorem holdings_eq (relay : Relay) :
    relay.holdings = (relay.pending + relay.dispatched, relay.buffered, relay.dropped) := by
  have hsum : (relay.registrations.map Registration.holdings).sum
      = (relay.pending, relay.buffered, relay.dropped) := by
    rw [pending, buffered, dropped]
    induction relay.registrations with
    | nil => rfl
    | cons registration rest ih =>
      simp only [List.map_cons, List.sum_cons, ih]
      rfl
  rw [holdings, hsum]
  simp

/-- A node between two operations: its registrations and jobs are in order, every job is one of a
registration that sends, and the pools that are referred to exist. -/
structure Sound (terms : Terms) (relay : Relay) : Prop where
  registrations : ∀ registration ∈ relay.registrations, registration.Sound terms
  jobs : ∀ job ∈ relay.jobs, job.Fair terms
    ∧ ∃ pool, relay.shape[job.registration]? = some (job.stage, some pool)
  pools : ∀ entry ∈ relay.shape, ∀ pool ∈ entry.2, pool < relay.pools.length
  current : ∀ pool ∈ relay.currentPool, pool < relay.pools.length

variable {relay : Relay} {terms : Terms}

theorem Sound.imp {others : Terms} (h : relay.Sound terms) (himplies : terms.Implies others) :
    relay.Sound others where
  registrations registration hmem := (h.registrations registration hmem).imp himplies
  jobs job hjob := (h.jobs job hjob).imp_left fun hfair => hfair.imp himplies
  pools := h.pools
  current := h.current

theorem shape_setRegistration {index : Nat} {old new : Registration}
    (hi : relay.registrations[index]? = some old) (h : new.shape = old.shape) :
    (relay.setRegistration index new).shape = relay.shape :=
  map_set_of_eq Registration.shape hi h

theorem holdings_setRegistration {index : Nat} {old new : Registration}
    {gain loss : StageRecords × StageRecords × Nat} (hi : relay.registrations[index]? = some old)
    (h : new.holdings + loss = old.holdings + gain) :
    (relay.setRegistration index new).holdings + loss = relay.holdings + gain := by
  have hsum := sum_map_set_add Registration.holdings hi h
  show (_ + (relay.dispatched, 0, 0)) + loss = _ + (relay.dispatched, 0, 0) + gain
  rw [add_right_comm, add_right_comm _ _ gain]
  exact congrArg (· + _) hsum

theorem holdings_setRegistration_gain {index : Nat} {old new : Registration}
    {gain : StageRecords × StageRecords × Nat} (hi : relay.registrations[index]? = some old)
    (h : new.holdings = old.holdings + gain) :
    (relay.setRegistration index new).holdings = relay.holdings + gain := by
  have hset := holdings_setRegistration hi ((add_zero new.holdings).trans h)
  rwa [add_zero] at hset

theorem holdings_setRegistration_loss {index : Nat} {old new : Registration}
    {loss : StageRecords × StageRecords × Nat} (hi : relay.registrations[index]? = some old)
    (h : new.holdings + loss = old.holdings) :
    (relay.setRegistration index new).holdings + loss = relay.holdings := by
  have hset := holdings_setRegistration hi (h.trans (add_zero old.holdings).symm)
  rwa [add_zero] at hset

theorem Sound.setRegistration {index : Nat} {old new : Registration} (h : relay.Sound terms)
    (hi : relay.registrations[index]? = some old) (hnew : new.Sound terms)
    (hshape : new.shape = old.shape) : (relay.setRegistration index new).Sound terms where
  registrations := by
    intro registration hmem
    rcases List.mem_or_eq_of_mem_set hmem with hmem | rfl
    · exact h.registrations registration hmem
    · exact hnew
  jobs := by
    rw [shape_setRegistration hi hshape]
    exact h.jobs
  pools := by
    rw [shape_setRegistration hi hshape]
    exact h.pools
  current := h.current

/-- A read takes the records it returns out of the buffer. -/
theorem Sound.receive {index : Nat} {registration : Registration} (h : relay.Sound terms)
    (hi : relay.registrations[index]? = some registration) (now : Nanoseconds) :
    (relay.receive index now).2.Sound terms
      ∧ (∀ record ∈ (relay.receive index now).1, terms.rests registration.key record)
      ∧ (relay.receive index now).2.holdings
          + (0, ofStage registration.key (relay.receive index now).1, 0) = relay.holdings := by
  have hmem := List.mem_of_getElem? hi
  obtain ⟨hsound, hshape, hread, hholdings⟩ := (h.registrations registration hmem).receive now
  simp only [Relay.receive, hi]
  exact ⟨h.setRegistration hi hsound hshape, hread, holdings_setRegistration_loss hi hholdings⟩

/-- The registration of a job. -/
theorem Sound.registration_of_job {job : Job} (h : relay.Sound terms)
    (hjob : ∃ pool, relay.shape[job.registration]? = some (job.stage, some pool)) :
    ∃ registration, relay.registrations[job.registration]? = some registration
      ∧ registration.Sound terms ∧ registration.key = job.stage
      ∧ registration.sender.isSome = true := by
  obtain ⟨pool, hpool⟩ := hjob
  rw [shape, List.getElem?_map, Option.map_eq_some_iff] at hpool
  obtain ⟨registration, hi, hshape⟩ := hpool
  refine ⟨registration, hi, h.registrations _ (List.mem_of_getElem? hi), ?_, ?_⟩
  · exact congrArg Prod.fst hshape
  · have hsender : registration.sender.map Sender.pool = some pool := congrArg Prod.snd hshape
    rw [← Option.isSome_map (f := Sender.pool), hsender]
    rfl

/-- The records of a job that was answered with a success have left the node for good; all others
are in the buffer afterwards or counted as dropped. -/
theorem Sound.complete {job : Job} (h : relay.Sound terms)
    (hjob : ∃ pool, relay.shape[job.registration]? = some (job.stage, some pool))
    {outcome : Outcome}
    (hrests : outcome.isSuccess = false → ∀ record ∈ job.records, terms.rests job.stage record) :
    (relay.complete job outcome).Sound terms
      ∧ (relay.complete job outcome).shape = relay.shape
      ∧ (if outcome.isSuccess then (relay.complete job outcome).holdings = relay.holdings
        else (relay.complete job outcome).holdings = relay.holdings + (0, job.stageRecords, 0)
          ∨ (relay.complete job outcome).holdings
            = relay.holdings + (0, 0, job.records.length)) := by
  obtain ⟨registration, hi, hsound, hkey, hsender⟩ := h.registration_of_job hjob
  obtain ⟨hnew, hshape, hholdings⟩ :=
    hsound.complete hsender relay.settings.localWritePatience outcome (by rwa [hkey])
  rw [Relay.complete, hi]
  refine ⟨h.setRegistration hi hnew hshape, shape_setRegistration hi hshape, ?_⟩
  split_ifs at hholdings ⊢
  · have hset := holdings_setRegistration_gain hi (hholdings.trans (add_zero _).symm)
    rwa [add_zero] at hset
  · rw [hkey] at hholdings
    exact hholdings.imp (holdings_setRegistration_gain hi) (holdings_setRegistration_gain hi)

theorem key_of_find? {pipeline plugin : String} {index : Nat} {registration : Registration}
    (h : relay.find? pipeline plugin = some index)
    (hi : relay.registrations[index]? = some registration) :
    registration.key = (pipeline, plugin) := by
  obtain ⟨hlt, hkey, -⟩ := List.findIdx?_eq_some_iff_getElem.mp h
  obtain ⟨_, hget⟩ := List.getElem?_eq_some_iff.mp hi
  rw [← hget]
  simpa using hkey

/-- A batch is rejected, or all of its records are written into the buffer that it names. -/
theorem accept_cases (relay : Relay) (payload : List UInt8) :
    (∃ status, status.isSuccess = false ∧ relay.accept payload = relay.reject status)
      ∨ ∃ batch index registration buffer, Batch.decode? payload = some batch
        ∧ relay.find? batch.pipeline batch.plugin = some index
        ∧ relay.registrations[index]? = some registration
        ∧ registration.buffer.writeAll batch.records relay.settings.requestPatience = .ok buffer
        ∧ relay.accept payload
          = (.ok,
            { relay.setRegistration index { registration with buffer } with
              intake :=
                { relay.intake with
                  recordsReceived := relay.intake.recordsReceived + batch.events.length } }) := by
  rw [Relay.accept]
  cases hdecode : Batch.decode? payload with
  | none => exact .inl ⟨.badRequest, rfl, rfl⟩
  | some batch =>
    dsimp only
    cases hfind : relay.find? batch.pipeline batch.plugin with
    | none => exact .inl ⟨.notFound, rfl, rfl⟩
    | some index =>
      dsimp only
      cases hi : relay.registrations[index]? with
      | none => exact .inl ⟨.notFound, rfl, rfl⟩
      | some registration =>
        dsimp only
        cases hwrite : registration.buffer.writeAll batch.records
            relay.settings.requestPatience with
        | error cause => cases cause <;> exact .inl ⟨_, rfl, rfl⟩
        | ok buffer =>
          exact .inr ⟨batch, index, registration, buffer, rfl, hfind, hi, hwrite, rfl⟩

/-- The batch of a job is stored without the metadata of its records if it is answered with a
success, and nothing changes otherwise. -/
theorem Sound.accept {others : Terms} {job : Job} (h : relay.Sound terms) (hjob : job.Fair others)
    (hrests : ∀ record ∈ job.records, terms.rests job.stage record.bare) :
    (relay.accept job.request.payload).2.Sound terms
      ∧ (relay.accept job.request.payload).2.shape = relay.shape
      ∧ (relay.accept job.request.payload).2.holdings = relay.holdings
        + (0, if (relay.accept job.request.payload).1.isSuccess
            then ofStage job.stage (job.records.map Record.bare) else 0, 0) := by
  rcases relay.accept_cases job.request.payload with
    ⟨status, hstatus, heq⟩ | ⟨batch, index, registration, buffer, hdecode, hfind, hi, hwrite, heq⟩
  · have hfirst : (relay.reject status).1 = status := rfl
    rw [heq, hfirst, hstatus]
    exact ⟨⟨h.registrations, h.jobs, h.pools, h.current⟩, rfl, (add_zero _).symm⟩
  · rw [hjob.payload, Batch.decode?_encode fun record hrecord => (hjob.waits record hrecord).1]
      at hdecode
    split_ifs at hdecode
    obtain rfl := Option.some.inj hdecode
    have hkey : registration.key = job.stage := key_of_find? hfind hi
    rw [Batch.records_ofRecords] at hwrite
    obtain ⟨hnew, hshape, hholdings⟩ :=
      (h.registrations _ (List.mem_of_getElem? hi)).store hwrite (by
        rw [hkey]
        exact List.forall_mem_map.mpr hrests)
    have hset := h.setRegistration hi hnew hshape
    have hmoved := holdings_setRegistration_gain hi hholdings
    rw [hkey] at hmoved
    rw [heq]
    exact ⟨⟨hset.registrations, hset.jobs, hset.pools, hset.current⟩,
      shape_setRegistration hi hshape, hmoved⟩

/-- A node whose pools have changed, but neither its registrations nor the number of pools. -/
theorem Sound.withPools {pools : List Pool} (h : relay.Sound terms)
    (hlength : pools.length = relay.pools.length)
    (hjobs : ∀ job ∈ pools.flatMap Pool.jobs, job ∈ relay.jobs) :
    Sound terms { relay with pools } where
  registrations := h.registrations
  jobs := fun job hjob => h.jobs job (hjobs job hjob)
  pools := by
    rw [hlength]
    exact h.pools
  current := by
    rw [hlength]
    exact h.current

theorem takeJob_eq_some {pool : Nat} {job : Job} {next : Relay}
    (h : relay.takeJob pool = some (job, next)) :
    ∃ found after, relay.pools[pool]? = some found ∧ found.take = some (job, after)
      ∧ next = { relay with pools := relay.pools.set pool after } := by
  rw [Relay.takeJob] at h
  obtain ⟨found, hfound, h⟩ := Option.bind_eq_some_iff.mp h
  obtain ⟨⟨taken, after⟩, htaken, h⟩ := Option.bind_eq_some_iff.mp h
  obtain ⟨rfl, rfl⟩ := Prod.mk.inj (Option.some.inj h)
  exact ⟨found, after, hfound, htaken, rfl⟩

theorem finishJob_eq_some {pool place : Nat} {job : Job} {next : Relay}
    (h : relay.finishJob pool place = some (job, next)) :
    ∃ found after, relay.pools[pool]? = some found ∧ found.finish place = some (job, after)
      ∧ next = { relay with pools := relay.pools.set pool after } := by
  rw [Relay.finishJob] at h
  obtain ⟨found, hfound, h⟩ := Option.bind_eq_some_iff.mp h
  obtain ⟨⟨done, after⟩, hdone, h⟩ := Option.bind_eq_some_iff.mp h
  obtain ⟨rfl, rfl⟩ := Prod.mk.inj (Option.some.inj h)
  exact ⟨found, after, hfound, hdone, rfl⟩

/-- A job that a worker takes is still at the node. -/
theorem Sound.takeJob {pool : Nat} {job : Job} {next : Relay} (h : relay.Sound terms)
    (htake : relay.takeJob pool = some (job, next)) :
    next.Sound terms ∧ next.holdings = relay.holdings := by
  obtain ⟨found, after, hfound, htaken, rfl⟩ := takeJob_eq_some htake
  have hperm := flatMap_set_perm Pool.jobs [] [] hfound
    ((Pool.take_perm htaken).append_right [])
  rw [List.append_nil, List.append_nil] at hperm
  refine ⟨h.withPools List.length_set fun job hjob => hperm.subset hjob, ?_⟩
  have hsum := (hperm.map Job.stageRecords).sum_eq
  exact congrArg (fun dispatched : StageRecords =>
    (relay.registrations.map Registration.holdings).sum + (dispatched, 0, 0)) hsum

/-- A job that a worker is done with has left its pool. -/
theorem Sound.finishJob {pool place : Nat} {job : Job} {next : Relay} (h : relay.Sound terms)
    (hfinish : relay.finishJob pool place = some (job, next)) :
    next.Sound terms ∧ next.shape = relay.shape ∧ job ∈ relay.jobs
      ∧ next.holdings + (job.stageRecords, 0, 0) = relay.holdings := by
  obtain ⟨found, after, hfound, hdone, rfl⟩ := finishJob_eq_some hfinish
  have hperm := flatMap_set_perm Pool.jobs [] [job] hfound
    ((Pool.finish_perm hdone).trans (by rw [List.append_nil]))
  rw [List.append_nil] at hperm
  refine ⟨h.withPools List.length_set fun job hjob =>
    hperm.subset (List.mem_append_left _ hjob), rfl, ?_, ?_⟩
  · exact hperm.subset (List.mem_append_right _ (List.mem_singleton.mpr rfl))
  · have hsum := (hperm.map Job.stageRecords).sum_eq
    rw [List.map_append, List.sum_append, List.map_singleton, List.sum_singleton] at hsum
    show _ + (_, 0, 0) + (job.stageRecords, 0, 0) = _ + (relay.dispatched, 0, 0)
    rw [add_assoc]
    refine congrArg (_ + ·) ?_
    exact Prod.ext hsum (Prod.ext (add_zero _) (add_zero _))

theorem jobs_modify_close (pools : List Pool) (index : Nat) :
    (pools.modify index Pool.close).flatMap Pool.jobs = pools.flatMap Pool.jobs := by
  induction pools generalizing index with
  | nil => rw [List.modify_nil]
  | cons pool rest ih =>
    cases index with
    | zero => rfl
    | succ index =>
      rw [List.modify_succ_cons, List.flatMap_cons, ih]
      rfl

/-- A pool that is shut down keeps its jobs. -/
theorem Sound.shutDown (h : relay.Sound terms) :
    relay.shutDown.Sound terms ∧ relay.shutDown.holdings = relay.holdings := by
  rw [Relay.shutDown]
  cases relay.currentPool with
  | none => exact ⟨h, rfl⟩
  | some index =>
    have hjobs := jobs_modify_close relay.pools index
    have hsound := h.withPools (List.length_modify Pool.close relay.pools index)
      (fun job hjob => by rwa [hjobs] at hjob)
    refine ⟨⟨hsound.registrations, hsound.jobs, hsound.pools, by simp⟩, ?_⟩
    have hdispatched : (((relay.pools.modify index Pool.close).flatMap Pool.jobs).map
        Job.stageRecords).sum = relay.dispatched := by
      rw [hjobs]
      rfl
    exact congrArg (fun dispatched : StageRecords =>
      (relay.registrations.map Registration.holdings).sum + (dispatched, 0, 0)) hdispatched

theorem jobs_start (pools : List Pool) (workers capacity : Nat) :
    (pools ++ [Pool.start workers capacity]).flatMap Pool.jobs = pools.flatMap Pool.jobs := by
  rw [List.flatMap_append]
  exact List.append_nil _

/-- A registration gets the pool that is there, or a new one where there is none. -/
theorem openPool_cases {launch : Except String Unit} {index : Nat} {next : Relay}
    (h : relay.openPool launch = .ok (index, next)) :
    (relay.currentPool = some index ∧ next = relay)
      ∨ (index = relay.pools.length ∧ next = { relay with
          pools := relay.pools ++ [.start relay.settings.clientThreadCount.toNat
            relay.settings.maxPendingRequests.toNat]
          currentPool := some index }) := by
  cases hcurrent : relay.currentPool with
  | some current =>
    simp only [Relay.openPool, hcurrent] at h
    obtain ⟨rfl, rfl⟩ := Prod.mk.inj (Except.ok.inj h)
    exact .inl ⟨rfl, rfl⟩
  | none =>
    cases launch with
    | error reason => simp [Relay.openPool, hcurrent] at h
    | ok started =>
      simp only [Relay.openPool, hcurrent] at h
      obtain ⟨rfl, rfl⟩ := Prod.mk.inj (Except.ok.inj h)
      exact .inr ⟨rfl, rfl⟩

theorem Sound.openPool {launch : Except String Unit} {index : Nat} {next : Relay}
    (h : relay.Sound terms) (hopen : relay.openPool launch = .ok (index, next)) :
    next.Sound terms ∧ next.holdings = relay.holdings ∧ index < next.pools.length := by
  obtain ⟨hcurrent, rfl⟩ | ⟨rfl, rfl⟩ := openPool_cases hopen
  · exact ⟨h, rfl, h.current _ hcurrent⟩
  · have hjobs := jobs_start relay.pools relay.settings.clientThreadCount.toNat
      relay.settings.maxPendingRequests.toNat
    refine ⟨⟨h.registrations, ?_, ?_, ?_⟩, ?_, ?_⟩
    · intro job hjob
      exact h.jobs job (by rwa [Relay.jobs, hjobs] at hjob)
    · intro entry hentry pool hpool
      have hlt := h.pools entry hentry pool hpool
      rw [List.length_append]
      omega
    · rintro _ ⟨⟩
      rw [List.length_append]
      exact Nat.lt_succ_self _
    · have hdispatched : (((relay.pools ++ [Pool.start relay.settings.clientThreadCount.toNat
          relay.settings.maxPendingRequests.toNat]).flatMap Pool.jobs).map Job.stageRecords).sum
            = relay.dispatched := by
        rw [hjobs]
        rfl
      exact congrArg (fun dispatched : StageRecords =>
        (relay.registrations.map Registration.holdings).sum + (dispatched, 0, 0)) hdispatched
    · rw [List.length_append]
      exact Nat.lt_succ_self _

theorem Sound.openRing (h : relay.Sound terms) :
    relay.openRing.Sound terms ∧ relay.openRing.holdings = relay.holdings
      ∧ relay.openRing.pools = relay.pools := by
  rw [Relay.openRing]
  cases relay.ring with
  | some _ => exact ⟨h, rfl, rfl⟩
  | none => exact ⟨⟨h.registrations, h.jobs, h.pools, h.current⟩, rfl, rfl⟩

/-- A registration that holds nothing yet. -/
theorem Sound.add (registration : Registration) (h : relay.Sound terms)
    (hnew : registration.Sound terms)
    (hpool : ∀ pool ∈ registration.shape.2, pool < relay.pools.length)
    (hempty : registration.holdings = 0) :
    (relay.add registration).2.Sound terms
      ∧ (relay.add registration).2.holdings = relay.holdings := by
  have hshape : (relay.add registration).2.shape = relay.shape ++ [registration.shape] := by
    simp [Relay.add, Relay.shape]
  refine ⟨⟨?_, ?_, ?_, h.current⟩, ?_⟩
  · intro other hother
    rcases List.mem_append.mp hother with hother | hother
    · exact h.registrations other hother
    · rwa [List.mem_singleton.mp hother]
  · intro job hjob
    obtain ⟨hfair, pool, hentry⟩ := h.jobs job hjob
    refine ⟨hfair, pool, ?_⟩
    rw [hshape, List.getElem?_append_left (List.getElem?_eq_some_iff.mp hentry).1]
    exact hentry
  · intro entry hentry
    rw [hshape] at hentry
    rcases List.mem_append.mp hentry with hentry | hentry
    · exact h.pools entry hentry
    · rw [List.mem_singleton.mp hentry]
      exact hpool
  · show ((relay.registrations ++ [registration]).map Registration.holdings).sum
        + (relay.dispatched, 0, 0) = _
    rw [List.map_append, List.sum_append, List.map_singleton, List.sum_singleton, hempty, add_zero]
    rfl

theorem Sound.register {pipeline plugin : String} {keys : List String}
    {launch : Except String Unit} {index : Nat} {next : Relay} (h : relay.Sound terms)
    (hkeys : terms.registers (pipeline, plugin)
      (if relay.settings.arePeersConfigured then some (sortedSet keys) else none))
    (hregister : relay.register pipeline plugin keys launch = .ok (index, next)) :
    next.Sound terms ∧ next.holdings = relay.holdings := by
  have hquiet : (newBuffer relay.settings pipeline plugin).Quiet := ⟨rfl, rfl⟩
  rw [Relay.register] at hregister
  split_ifs at hregister with _ _ hconfigured
  · obtain rfl := congrArg Prod.snd (Except.ok.inj hregister)
    rw [if_neg (by simpa using hconfigured)] at hkeys
    exact h.add _ ⟨hquiet, by simp, hkeys, by simp, fun _ hrecord => nomatch hrecord⟩
      (by simp [Registration.shape]) rfl
  · cases hopen : relay.openPool launch with
    | error cause =>
      rw [hopen] at hregister
      contradiction
    | ok opened =>
      obtain ⟨pool, after⟩ := opened
      obtain ⟨hsound, hholdings, hpool⟩ := h.openPool hopen
      obtain ⟨hring, hringHoldings, hringPools⟩ := hsound.openRing
      rw [hopen] at hregister
      obtain rfl := congrArg Prod.snd (Except.ok.inj hregister)
      rw [if_pos (by simpa using hconfigured)] at hkeys
      have hadd := hring.add ⟨newBuffer relay.settings pipeline plugin,
          some ⟨Outbox.empty after.settings pipeline plugin (sortedSet keys), pool⟩⟩
        ⟨hquiet, by rintro _ ⟨⟩; rfl, hkeys, by rintro _ ⟨⟩; simp [Outbox.empty],
          fun _ hrecord => nomatch hrecord⟩
        (by rintro _ ⟨⟩; rw [hringPools]; exact hpool) rfl
      exact ⟨hadd.1, hadd.2.trans (hringHoldings.trans hholdings)⟩

/-- A pool that has accepted jobs. -/
theorem Sound.accepted {index : Nat} {pool : Pool} {accepted : List Job} (h : relay.Sound terms)
    (hpool : relay.pools[index]? = some pool)
    (haccepted : ∀ job ∈ accepted, job.Fair terms
      ∧ ∃ pool, relay.shape[job.registration]? = some (job.stage, some pool)) :
    Sound terms { relay with
        pools := relay.pools.set index { pool with waiting := pool.waiting ++ accepted } }
      ∧ holdings { relay with
          pools := relay.pools.set index { pool with waiting := pool.waiting ++ accepted } }
        = relay.holdings + ((accepted.map Job.stageRecords).sum, 0, 0) := by
  have hjobs := flatMap_set_perm (b := { pool with waiting := pool.waiting ++ accepted })
    Pool.jobs accepted [] hpool (by
      rw [List.append_nil, Pool.jobs, Pool.jobs, List.append_assoc, List.append_assoc]
      exact List.perm_append_comm.append_left _)
  rw [List.append_nil] at hjobs
  refine ⟨⟨h.registrations, ?_, ?_, ?_⟩, ?_⟩
  · intro job hjob
    rcases List.mem_append.mp (hjobs.subset hjob) with hold | hnew
    · exact h.jobs job hold
    · exact haccepted job hnew
  · rw [List.length_set]
    exact h.pools
  · rw [List.length_set]
    exact h.current
  · have hsum := (hjobs.map Job.stageRecords).sum_eq
    rw [List.map_append, List.sum_append] at hsum
    show _ + (_, 0, 0) = _ + (relay.dispatched, 0, 0) + (_, 0, 0)
    rw [add_assoc]
    exact congrArg (_ + ·) (Prod.ext hsum rfl)

/-- What forwarding returns and holds is what it held and was given. -/
theorem Sound.forward {index : Nat} {registration : Registration} (h : relay.Sound terms)
    (hi : relay.registrations[index]? = some registration) {records : List Record}
    (hrecords : ∀ record ∈ records, record.Canonical)
    (hwaits : ∀ keys ∈ registration.keys?, ∀ record ∈ records, ∀ address,
      relay.routing.ownerOf keys record = some address →
        terms.waits registration.key address record) :
    (relay.forward index records).2.Sound terms
      ∧ (relay.forward index records).2.holdings
          + (ofStage registration.key (relay.forward index records).1, 0, 0)
        = relay.holdings + (ofStage registration.key records, 0, 0) := by
  obtain ⟨buffer, sender⟩ := registration
  have hregistration := h.registrations _ (List.mem_of_getElem? hi)
  cases sender with
  | none => simp only [Relay.forward, hi]; exact ⟨h, trivial⟩
  | some sender =>
    have hshape : relay.shape[index]?
        = some ((buffer.pipeline, buffer.plugin), some sender.pool) := by
      rw [Relay.shape, List.getElem?_map, hi]
      rfl
    have hlt : sender.pool < relay.pools.length :=
      h.pools _ (List.mem_of_getElem? hshape) _ rfl
    obtain ⟨pool, hpool⟩ : ∃ pool, relay.pools[sender.pool]? = some pool :=
      ⟨_, List.getElem?_eq_getElem hlt⟩
    obtain ⟨returned, outbox, accepted, hforward, hnew, hdropped, haccepted, hperm⟩ :=
      hregistration.forward hrecords (hwaits _ rfl) index pool
    -- The registration changes first, and then its pool accepts the jobs.
    have hset := h.setRegistration hi hnew rfl
    have hkept : (relay.setRegistration index ⟨buffer, some { sender with outbox }⟩).shape
        = relay.shape := shape_setRegistration hi rfl
    obtain ⟨hsound, hholdings⟩ := hset.accepted hpool fun job hjob => by
      obtain ⟨hfair, hstage, hindex⟩ := haccepted job hjob
      rw [hkept, hstage, hindex]
      exact ⟨hfair, _, hshape⟩
    simp only [Relay.forward, hi, hpool, Option.getD_some, hforward]
    refine ⟨hsound, ?_⟩
    have hof : (accepted.map Job.stageRecords).sum
        = ofStage (buffer.pipeline, buffer.plugin) (accepted.flatMap Job.records) := by
      rw [ofStage_flatMap]
      refine congrArg List.sum (List.map_congr_left fun job hjob => ?_)
      rw [Job.stageRecords, (haccepted job hjob).2.1]
    have hmoved := ofStage_perm (buffer.pipeline, buffer.plugin) hperm
    rw [ofStage_append, ofStage_append, ofStage_append, ← hof,
      add_comm (ofStage _ returned)] at hmoved
    have hregistered : (relay.setRegistration index ⟨buffer, some { sender with outbox }⟩).holdings
          + ((accepted.map Job.stageRecords).sum
            + ofStage (buffer.pipeline, buffer.plugin) returned, 0, 0)
        = relay.holdings + (ofStage (buffer.pipeline, buffer.plugin) records, 0, 0) :=
      holdings_setRegistration hi
        (Prod.ext hmoved (Prod.ext rfl (congrArg (· + 0) hdropped)))
    refine Eq.trans ?_ hregistered
    refine (congrArg (· + _) hholdings).trans ?_
    rw [add_assoc]
    rfl

/-- The jobs that the dispatch pool refuses when records are forwarded. -/
def refused (relay : Relay) (index : Nat) (records : List Record) : List Job :=
  match relay.registrations[index]? with
  | some ⟨_, some sender⟩ =>
    (sender.outbox.submission index (sender.outbox.forwardCuts relay.routing records).1
      (relay.pools[sender.pool]?.getD (.start 0 0))).1
  | _ => []

/-- A registration without keys gives back what it is given. -/
theorem forward_of_keys?_eq_none {index : Nat} {registration : Registration}
    (hi : relay.registrations[index]? = some registration) (hkeys : registration.keys? = none)
    (records : List Record) :
    (relay.forward index records).1 = records ∧ relay.refused index records = [] := by
  obtain ⟨buffer, sender⟩ := registration
  obtain rfl : sender = none := Option.map_eq_none_iff.mp hkeys
  simp only [forward, refused, hi, and_self]

/-- Why a record comes back. -/
theorem Sound.mem_forward {index : Nat} {registration : Registration} (h : relay.Sound terms)
    (hi : relay.registrations[index]? = some registration) {records : List Record}
    (hrecords : ∀ record ∈ records, record.Canonical)
    (hwaits : ∀ keys ∈ registration.keys?, ∀ record ∈ records, ∀ address,
      relay.routing.ownerOf keys record = some address →
        terms.waits registration.key address record)
    {record : Record} (hrecord : record ∈ (relay.forward index records).1) :
    (record ∈ records ∧ ∀ keys ∈ registration.keys?,
        relay.routing.isLocal (relay.routing.ownerOf keys record) = true)
      ∨ ∃ job ∈ relay.refused index records, record ∈ job.records ∧ job.Fair terms
        ∧ job.stage = registration.key := by
  obtain ⟨buffer, sender⟩ := registration
  cases sender with
  | none =>
    simp only [Relay.forward, hi] at hrecord
    exact .inl ⟨hrecord, fun keys hkeys => nomatch hkeys⟩
  | some sender =>
    have hregistration := h.registrations _ (List.mem_of_getElem? hi)
    simp only [Relay.forward, hi] at hrecord
    simp only [refused, hi]
    rcases Outbox.mem_forward _ _ _ hrecord with ⟨hmem, hlocal⟩ | ⟨job, hjob, hmem⟩
    · left
      refine ⟨hmem, ?_⟩
      rintro _ ⟨⟩
      exact hlocal
    · obtain ⟨cut, hcut, rfl⟩ := Outbox.mem_submission _ hjob
      obtain ⟨hfair, hstage, -⟩ := hregistration.jobOf
        ((hregistration.forwardCuts hrecords (hwaits _ rfl)).1 cut hcut) index
      exact .inr ⟨_, hjob, hmem, hfair, hstage⟩

/-- A node is only set up with valid settings. -/
theorem validate_of_start {settings : Settings} {hasClient : Bool}
    {source : Option (PeerSource Follower)} {isLocal? : String → Option Bool} {relay : Relay}
    (h : start settings hasClient source isLocal? = .ok relay) : settings.validate = .ok () := by
  rw [start] at h
  cases hvalid : settings.validate with
  | error cause =>
    rw [hvalid] at h
    contradiction
  | ok _ => rfl

theorem eq_idle_of_start {settings : Settings} {hasClient : Bool}
    {source : Option (PeerSource Follower)} {isLocal? : String → Option Bool} {relay : Relay}
    (h : start settings hasClient source isLocal? = .ok relay) :
    ∃ chosen, (source.map Except.ok).getD (PeerSource.ofSettings settings) = .ok chosen
      ∧ relay = idle settings hasClient chosen isLocal? := by
  rw [start, validate_of_start h] at h
  cases source with
  | some chosen => exact ⟨chosen, rfl, (Except.ok.inj h).symm⟩
  | none =>
    have h : (PeerSource.ofSettings settings >>= fun chosen =>
      pure (idle settings hasClient chosen isLocal?)) = Except.ok relay := h
    cases hchosen : (PeerSource.ofSettings settings
      : Except SetupError (PeerSource Follower)) with
    | error cause =>
      rw [hchosen] at h
      contradiction
    | ok chosen =>
      rw [hchosen] at h
      exact ⟨chosen, rfl, (Except.ok.inj h).symm⟩

end Relay

end RecordRelay
