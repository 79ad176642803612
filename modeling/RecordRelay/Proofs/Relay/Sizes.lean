import RecordRelay.Proofs.Forwarding.Batches
import RecordRelay.Proofs.Relay.Logs

/-! A node keeps to the sizes of its settings whatever happens at it: the receive buffer of a
registration has room for so many records, and its outbox cuts full batches only. So every job of
its dispatch pools sends a full batch, for a registration that is there. -/
namespace RecordRelay

variable {P : Record → Prop} {size : Nat} {settings : Settings} {records : List Record}

/-- A full batch of records that have a property. -/
structure FullBatch (P : Record → Prop) (size : Nat) (batch : List Record) : Prop where
  length : batch.length = size
  all : ∀ record ∈ batch, P record

/-- A job that sends a full batch in encoded form. -/
structure Job.Whole (P : Record → Prop) (size : Nat) (job : Job) : Prop where
  batch : FullBatch P size job.records
  payload : job.request.payload
    = Batch.encode job.records job.request.pipeline job.request.plugin

namespace Outbox

/-- An outbox that cuts batches of a size, in whose queues less than a batch waits. -/
structure Regular (P : Record → Prop) (size : Nat) (outbox : Outbox) : Prop where
  unfilled : outbox.Unfilled
  batchSize : outbox.batchSize = size
  waits : ∀ entry ∈ outbox.queues, ∀ record ∈ entry.2.records, P record

variable {outbox : Outbox}

theorem regular_empty (hbatch : 0 < settings.batchSize) (pipeline plugin : String)
    (keys : List String) :
    (empty settings pipeline plugin keys).Regular P settings.batchSize.toNat where
  unfilled := unfilled_empty hbatch pipeline plugin keys
  batchSize := rfl
  waits := nofun

/-- Counting changes nothing else. -/
theorem Regular.withCounters (h : outbox.Regular P size) (counters : ForwardingCounters) :
    Regular P size { outbox with counters } :=
  ⟨⟨h.unfilled.batchSize, h.unfilled.short⟩, h.batchSize, h.waits⟩

theorem Regular.enqueue (h : outbox.Regular P size) (destination : String)
    (hrecords : ∀ record ∈ records, P record) :
    (∀ batch ∈ outbox.filled destination records, FullBatch P size batch)
      ∧ (outbox.enqueue destination records).Regular P size := by
  obtain ⟨hfull, hunfilled⟩ := h.unfilled.enqueue destination records
  obtain ⟨hbatches, hwaits⟩ := offerAll_forall (P := fun _ => P) h.waits hrecords
  refine ⟨fun batch hbatch => ⟨?_, hbatches batch hbatch⟩, hunfilled, h.batchSize, hwaits⟩
  rw [hfull batch hbatch, h.batchSize]

theorem Regular.cutAll {groups : List (String × List Record)} (h : outbox.Regular P size)
    (hgroups : ∀ group ∈ groups, ∀ record ∈ group.2, P record) :
    (∀ cut ∈ (outbox.cutAll groups).1, FullBatch P size cut.batch)
      ∧ Regular P size { outbox with queues := (outbox.cutAll groups).2 } := by
  induction groups generalizing outbox with
  | nil => exact ⟨nofun, h⟩
  | cons group rest ih =>
    obtain ⟨destination, records⟩ := group
    obtain ⟨hfull, hnext⟩ := h.enqueue destination (hgroups _ (.head _))
    obtain ⟨hrest, hlast⟩ := ih hnext fun group hgroup => hgroups group (.tail _ hgroup)
    refine ⟨fun cut hcut => ?_, hlast⟩
    rcases List.mem_append.mp hcut with hcut | hcut
    · obtain ⟨batch, hbatch, rfl⟩ := List.mem_map.mp hcut
      exact hfull batch hbatch
    · exact hrest cut hcut

/-- The job of a full batch. -/
theorem whole_jobOf (outbox : Outbox) (index : Nat) {cut : Cut}
    (h : FullBatch P size cut.batch) : (outbox.jobOf index cut).Whole P size :=
  ⟨h, rfl⟩

/-- All that forwarding adds to a pool are jobs that send full batches. -/
theorem Regular.forward (h : outbox.Regular P size) (hrecords : ∀ record ∈ records, P record)
    (routing : Routing) (index : Nat) (pool : Pool) :
    ∃ accepted,
      (outbox.forward routing index records pool).2.2
          = { pool with waiting := pool.waiting ++ accepted }
        ∧ (∀ job ∈ accepted, job.Whole P size ∧ job.registration = index)
        ∧ (outbox.forward routing index records pool).2.1.Regular P size := by
  obtain ⟨accepted, hpool, hjobs, -⟩ :=
    outbox.exists_accepted_forward routing index records pool
  have hgroups : ∀ group ∈ leaving routing (groupByOwner (routing.ownerOf outbox.keys) records),
      ∀ record ∈ group.2, P record := fun group hgroup record hrecord =>
    hrecords record (owner_of_mem_groupByOwner _ (mem_leaving hgroup).1 hrecord).1
  obtain ⟨hfull, hnext⟩ := h.cutAll hgroups
  refine ⟨accepted, hpool, fun job hjob => ?_, ?_⟩
  · obtain ⟨cut, hcut, rfl⟩ := hjobs job hjob
    exact ⟨outbox.whole_jobOf index (hfull cut hcut), rfl⟩
  · rw [(outbox.routed_forward routing index records pool).outbox_eq]
    exact hnext.withCounters _

/-- All that submitting a batch adds to a pool is its job. -/
theorem exists_accepted_submit (outbox : Outbox) (index : Nat) (cut : Cut) (pool : Pool) :
    ∃ accepted,
      (submit index cut.destination cut.batch outbox pool).2.2
          = { pool with waiting := pool.waiting ++ accepted }
        ∧ ∀ job ∈ accepted, job = outbox.jobOf index cut := by
  obtain ⟨accepted, hpool, hperm⟩ := Pool.exists_accepted [outbox.jobOf index cut] pool
  refine ⟨accepted, ?_, fun job hjob => ?_⟩
  · rw [submit_eq index cut outbox pool]
    exact hpool
  · exact List.mem_singleton.mp (hperm.subset (List.mem_append_left _ hjob))

end Outbox

namespace Registration

/-- A registration that keeps to the sizes of settings. -/
structure Regular (P : Record → Prop) (settings : Settings) (registration : Registration) :
    Prop where
  capacity : registration.buffer.capacity = settings.bufferSize.toNat
  reached : registration.buffer.Reached
  sends : registration.sender.isSome = settings.arePeersConfigured
  outbox : ∀ sender ∈ registration.sender,
    sender.outbox.Regular P settings.batchSize.toNat

variable {registration : Registration}

theorem regular_new {stage : String × String} (hbatch : 0 < settings.batchSize)
    (h : Relay.New settings stage registration) : registration.Regular P settings where
  capacity := by
    rw [h.buffer]
    rfl
  reached := by
    rw [h.buffer]
    exact ReceiveBuffer.reached_empty ..
  sends := h.sends
  outbox sender hsender := by
    obtain ⟨keys, houtbox⟩ := h.outbox sender hsender
    rw [houtbox]
    exact Outbox.regular_empty hbatch ..

theorem Regular.withBuffer {buffer : ReceiveBuffer} (h : registration.Regular P settings)
    (hcapacity : buffer.capacity = registration.buffer.capacity) (hreached : buffer.Reached) :
    Regular P settings { registration with buffer } :=
  ⟨hcapacity.trans h.capacity, hreached, h.sends, h.outbox⟩

theorem Regular.access (h : registration.Regular P settings) (now : Nanoseconds)
    (access : ReceiveBuffer.Access) :
    let trace : ReceiveBuffer.Trace := ⟨registration.buffer, [], []⟩
    Regular P settings { registration with buffer := (trace.perform now access).buffer } :=
  h.withBuffer (Relay.rearranged_access now access _).settings_eq.2.2 (h.reached.access now access)

theorem Regular.write {buffer : ReceiveBuffer} {patience : Nanoseconds}
    (h : registration.Regular P settings)
    (hwrite : registration.buffer.writeAll records patience = .ok buffer) :
    Regular P settings { registration with buffer } := by
  refine h.withBuffer ?_ (h.reached.writeAll hwrite)
  rw [ReceiveBuffer.writeAll_ok hwrite]
  rfl

theorem Regular.mapOutbox {change : Outbox → Outbox} (h : registration.Regular P settings)
    (hcounts : ∀ outbox, ∃ counters, change outbox = { outbox with counters }) :
    (registration.mapOutbox change).Regular P settings where
  capacity := h.capacity
  reached := h.reached
  sends := Option.isSome_map.trans h.sends
  outbox sender hsender := by
    obtain ⟨held, hheld, rfl⟩ := Option.map_eq_some_iff.mp hsender
    obtain ⟨counters, heq⟩ := hcounts held.outbox
    dsimp only
    rw [heq]
    exact (h.outbox held hheld).withCounters counters

/-- To receive is to access the buffer three times, and to count. -/
theorem Regular.receive (h : registration.Regular P settings) (now : Nanoseconds) :
    (registration.receive now).2.Regular P settings := by
  obtain ⟨buffer, _ | sender⟩ := registration
  · exact h
  · have hread := (h.access now .redeliver).access now .take
    have hreleased := hread.access now (.checkpoint (buffer.read now).2.1)
    exact hreleased.mapOutbox fun _ => ⟨_, rfl⟩

theorem Regular.complete (h : registration.Regular P settings) (patience : Nanoseconds)
    (outcome : Outcome) (records : List Record) :
    (registration.complete patience outcome records).Regular P settings := by
  have hsettled : (registration.mapOutbox (Outbox.settle outcome records.length)).Regular P
      settings := h.mapOutbox fun _ => ⟨_, rfl⟩
  rw [Registration.complete]
  split
  · exact hsettled
  · rw [fallBack]
    split
    next buffer hwrite => exact hsettled.write hwrite
    next => exact hsettled.mapOutbox fun _ => ⟨_, rfl⟩

theorem Regular.withOutbox {buffer : ReceiveBuffer} {sender : Sender} {outbox : Outbox}
    (h : Regular P settings ⟨buffer, some sender⟩)
    (houtbox : outbox.Regular P settings.batchSize.toNat) :
    Regular P settings ⟨buffer, some { sender with outbox }⟩ :=
  ⟨h.capacity, h.reached, h.sends, fun _ hsender => Option.mem_some.mp hsender ▸ houtbox⟩

end Registration

namespace Relay

/-- A node that keeps to the sizes of its settings. -/
structure Regular (P : Record → Prop) (settings : Settings) (relay : Relay) : Prop where
  settings_eq : relay.settings = settings
  registrations : ∀ registration ∈ relay.registrations, registration.Regular P settings

/-- There is a registration of a number, and it sends. -/
def Sends (relay : Relay) (index : Nat) : Prop :=
  index < relay.registrations.length ∧ relay.settings.arePeersConfigured = true

/-- A node keeps to its sizes and keeps its registrations, and every job that it gets is one of
them and sends a full batch. -/
structure Proceeds (P : Record → Prop) (settings : Settings) (relay next : Relay) : Prop where
  regular : next.Regular P settings
  registrations : relay.registrations.length ≤ next.registrations.length
  jobs : ∀ job ∈ next.jobs,
    job ∈ relay.jobs ∨ job.Whole P settings.batchSize.toNat ∧ next.Sends job.registration

variable {relay between next : Relay} {index : Nat} {job : Job}

theorem Proceeds.sends (h : relay.Proceeds P settings next) (hregular : relay.Regular P settings)
    (hsends : relay.Sends index) : next.Sends index := by
  refine ⟨hsends.1.trans_le h.registrations, ?_⟩
  rw [h.regular.settings_eq, ← hregular.settings_eq]
  exact hsends.2

theorem Proceeds.trans (h : relay.Proceeds P settings between)
    (hnext : between.Proceeds P settings next) : relay.Proceeds P settings next where
  regular := hnext.regular
  registrations := h.registrations.trans hnext.registrations
  jobs job hjob := by
    rcases hnext.jobs job hjob with hold | hnew
    · exact (h.jobs job hold).imp_right (And.imp_right (hnext.sends h.regular))
    · exact .inr hnew

/-- What neither changes a registration nor adds a job. -/
theorem Regular.keep (h : relay.Regular P settings) (hsettings : next.settings = relay.settings)
    (hsame : next.registrations = relay.registrations)
    (hjobs : ∀ job ∈ next.jobs, job ∈ relay.jobs) : relay.Proceeds P settings next where
  regular := ⟨hsettings.trans h.settings_eq, hsame ▸ h.registrations⟩
  registrations := (congrArg List.length hsame).ge
  jobs job hjob := .inl (hjobs job hjob)

theorem Regular.setRegistration {registration : Registration} (h : relay.Regular P settings)
    (hnew : registration.Regular P settings) :
    relay.Proceeds P settings (relay.setRegistration index registration) where
  regular := by
    refine ⟨h.settings_eq, fun other hother => ?_⟩
    rcases List.mem_or_eq_of_mem_set hother with hother | rfl
    · exact h.registrations other hother
    · exact hnew
  registrations := List.length_set.ge
  jobs _ := .inl

theorem mem_jobs_set {pools : List Pool} {pool : Pool}
    (h : job ∈ (pools.set index pool).flatMap Pool.jobs) :
    job ∈ pools.flatMap Pool.jobs ∨ job ∈ pool.jobs := by
  obtain ⟨other, hother, hjob⟩ := List.mem_flatMap.mp h
  rcases List.mem_or_eq_of_mem_set hother with hother | rfl
  · exact .inl (List.mem_flatMap.mpr ⟨other, hother, hjob⟩)
  · exact .inr hjob

theorem mem_jobs_getD {pools : List Pool} (h : job ∈ (pools[index]?.getD (.start 0 0)).jobs) :
    job ∈ pools.flatMap Pool.jobs := by
  cases hget : pools[index]? with
  | none =>
    rw [hget] at h
    exact absurd h List.not_mem_nil
  | some pool =>
    rw [hget] at h
    exact List.mem_flatMap.mpr ⟨pool, List.mem_of_getElem? hget, h⟩

/-- A registration changes its outbox, and jobs of it join its pool. -/
theorem Regular.send {buffer : ReceiveBuffer} {sender : Sender} {outbox : Outbox}
    {accepted : List Job} (h : relay.Regular P settings)
    (hget : relay.registrations[index]? = some ⟨buffer, some sender⟩)
    (houtbox : outbox.Regular P settings.batchSize.toNat)
    (haccepted : ∀ job ∈ accepted,
      job.Whole P settings.batchSize.toNat ∧ job.registration = index) :
    let pool := relay.pools[sender.pool]?.getD (.start 0 0)
    relay.Proceeds P settings { relay with
      registrations := relay.registrations.set index ⟨buffer, some { sender with outbox }⟩
      pools := relay.pools.set sender.pool
        { pool with waiting := pool.waiting ++ accepted } } := by
  intro pool
  have hregistration := h.registrations _ (List.mem_of_getElem? hget)
  have hset : relay.Proceeds P settings
      (relay.setRegistration index ⟨buffer, some { sender with outbox }⟩) :=
    h.setRegistration (hregistration.withOutbox houtbox)
  refine ⟨⟨hset.regular.settings_eq, hset.regular.registrations⟩, hset.registrations,
    fun job hjob => ?_⟩
  have hsends : relay.Sends index := by
    refine ⟨(List.getElem?_eq_some_iff.mp hget).1, ?_⟩
    rw [h.settings_eq, ← hregistration.sends]
    rfl
  rcases mem_jobs_set hjob with hold | hjob
  · exact .inl hold
  rcases List.mem_append.mp hjob with hwaits | hruns
  · rcases List.mem_append.mp hwaits with hwaits | hnew
    · exact .inl (mem_jobs_getD (List.mem_append_left _ hwaits))
    · obtain ⟨hwhole, rfl⟩ := haccepted job hnew
      exact .inr ⟨hwhole, hset.sends h hsends⟩
  · exact .inl (mem_jobs_getD (List.mem_append_right _ hruns))

theorem jobs_register {pipeline plugin : String} {keys : List String}
    {launch : Except String Unit}
    (h : relay.register pipeline plugin keys launch = .ok (index, next)) :
    next.jobs = relay.jobs := by
  obtain ⟨-, ⟨-, heq⟩ | ⟨-, pool, opened, hopen, heq⟩⟩ := register_cases h
  · obtain ⟨-, rfl⟩ := Prod.mk.inj heq
    rfl
  · obtain ⟨-, rfl⟩ := Prod.mk.inj heq
    have hring : opened.openRing.pools = opened.pools := by
      rw [openRing]
      split <;> rfl
    have hjobs : opened.jobs = relay.jobs := by
      obtain ⟨-, rfl⟩ | ⟨-, rfl⟩ := openPool_cases hopen
      · rfl
      · exact jobs_start ..
    exact (congrArg (List.flatMap Pool.jobs) hring).trans hjobs

theorem Regular.register {pipeline plugin : String} {keys : List String}
    {launch : Except String Unit} (h : relay.Regular P settings) (hbatch : 0 < settings.batchSize)
    (hregister : relay.register pipeline plugin keys launch = .ok (index, next)) :
    relay.Proceeds P settings next := by
  obtain ⟨-, sender, hsame, hsends, houtbox⟩ := registrations_register hregister
  have hnew : New settings (pipeline, plugin)
      ⟨newBuffer relay.settings pipeline plugin, sender⟩ := by
    rw [← h.settings_eq]
    exact ⟨rfl, hsends, fun held hheld => ⟨_, houtbox held hheld⟩⟩
  refine ⟨⟨(settings_register hregister).trans h.settings_eq, fun other hother => ?_⟩, ?_,
    fun job hjob => .inl (jobs_register hregister ▸ hjob)⟩
  · rw [hsame] at hother
    rcases List.mem_append.mp hother with hold | hother
    · exact h.registrations other hold
    · exact List.mem_singleton.mp hother ▸ Registration.regular_new hbatch hnew
  · rw [hsame, List.length_append]
    exact Nat.le_add_right ..

theorem Regular.accept (h : relay.Regular P settings) (payload : List UInt8) :
    relay.Proceeds P settings (relay.accept payload).2 := by
  rcases relay.accept_cases payload with ⟨status, -, heq⟩ |
    ⟨batch, index, registration, buffer, -, -, hget, hwrite, heq⟩
  · rw [heq]
    exact h.keep rfl rfl fun _ => id
  · have hregistration := h.registrations _ (List.mem_of_getElem? hget)
    have hset : relay.Proceeds P settings
        (relay.setRegistration index { registration with buffer }) :=
      h.setRegistration (hregistration.write hwrite)
    rw [heq]
    exact hset.trans (hset.regular.keep rfl rfl fun _ => id)

theorem Regular.forward (h : relay.Regular P settings) (hrecords : ∀ record ∈ records, P record)
    (index : Nat) : relay.Proceeds P settings (relay.forward index records).2 := by
  rw [Relay.forward]
  split
  next buffer sender hget =>
    have hregistration := h.registrations _ (List.mem_of_getElem? hget)
    obtain ⟨accepted, hpool, haccepted, hnext⟩ := (hregistration.outbox sender rfl).forward
      hrecords relay.routing index (relay.pools[sender.pool]?.getD (.start 0 0))
    dsimp only
    rw [hpool]
    exact h.send hget hnext haccepted
  next => exact h.keep rfl rfl fun _ => id

theorem Regular.receive (h : relay.Regular P settings) (index : Nat) (now : Nanoseconds) :
    relay.Proceeds P settings (relay.receive index now).2 := by
  rw [Relay.receive]
  split
  next registration hget =>
    exact h.setRegistration ((h.registrations _ (List.mem_of_getElem? hget)).receive now)
  next => exact h.keep rfl rfl fun _ => id

theorem Regular.complete (h : relay.Regular P settings) (job : Job) (outcome : Outcome) :
    relay.Proceeds P settings (relay.complete job outcome) := by
  rw [Relay.complete]
  split
  next registration hget =>
    exact h.setRegistration
      ((h.registrations _ (List.mem_of_getElem? hget)).complete _ outcome job.records)
  next => exact h.keep rfl rfl fun _ => id

theorem Regular.takeJob {pool : Nat} (h : relay.Regular P settings)
    (htake : relay.takeJob pool = some (job, next)) : relay.Proceeds P settings next := by
  obtain ⟨found, after, hfound, htaken, rfl⟩ := takeJob_eq_some htake
  refine h.keep rfl rfl fun other hother => ?_
  rcases mem_jobs_set hother with hold | hother
  · exact hold
  · exact List.mem_flatMap.mpr
      ⟨found, List.mem_of_getElem? hfound, (Pool.take_perm htaken).subset hother⟩

theorem Regular.finishJob {pool place : Nat} (h : relay.Regular P settings)
    (hfinish : relay.finishJob pool place = some (job, next)) :
    relay.Proceeds P settings next ∧ job ∈ relay.jobs := by
  obtain ⟨found, after, hfound, hdone, rfl⟩ := finishJob_eq_some hfinish
  have hmem (other : Job) (hother : other ∈ after.jobs ++ [job]) : other ∈ relay.jobs :=
    List.mem_flatMap.mpr
      ⟨found, List.mem_of_getElem? hfound, (Pool.finish_perm hdone).subset hother⟩
  refine ⟨h.keep rfl rfl fun other hother => ?_, hmem job (by simp)⟩
  exact (mem_jobs_set hother).elim id fun hother => hmem other (List.mem_append_left _ hother)

/-- The records that an operation forwards. -/
def Operation.forwarded : Operation → List Record
  | .forward _ records => records
  | _ => []

theorem Regular.operate (h : relay.Regular P settings) (hbatch : 0 < settings.batchSize)
    {operation : Operation} (hrecords : ∀ record ∈ operation.forwarded, P record) :
    relay.Proceeds P settings (relay.operate operation) := by
  have hasked (hasks : operation.Asks) : relay.Proceeds P settings (relay.operate operation) := by
    rcases relay.operate_of_asks hasks with
      hsame | ⟨pipeline, plugin, keys, launch, index, hregister⟩
    · rw [hsame]
      exact h.keep rfl rfl fun _ => id
    · exact h.register hbatch hregister
  cases operation with
  | register | registerInstances => exact hasked trivial
  | openRing =>
    refine h.keep relay.settings_openRing relay.registrations_openRing fun job hjob => ?_
    rw [Relay.operate, openRing] at hjob
    split at hjob <;> exact hjob
  | updatePeers peers => exact h.keep rfl rfl fun _ => id
  | accept payload => exact h.accept payload
  | forward index records => exact h.forward hrecords index
  | receive index now => exact h.receive index now
  | takeJob pool =>
    rw [Relay.operate]
    cases htake : relay.takeJob pool with
    | none => exact h.keep rfl rfl fun _ => id
    | some result => exact h.takeJob htake
  | finishJob pool place outcome =>
    rw [Relay.operate]
    cases hfinish : relay.finishJob pool place with
    | none => exact h.keep rfl rfl fun _ => id
    | some result =>
      obtain ⟨hnext, -⟩ := h.finishJob hfinish
      exact hnext.trans (hnext.regular.complete result.1 outcome)
  | shutDown =>
    refine h.keep (congrArg Prod.fst relay.fleetView_shutDown) relay.registrations_shutDown
      fun job hjob => ?_
    rw [Relay.operate, shutDown] at hjob
    split at hjob
    · rwa [jobs, jobs_modify_close] at hjob
    · exact hjob

theorem regular_idle (settings : Settings) (hasClient : Bool) (source : PeerSource Follower)
    (isLocal? : String → Option Bool) :
    (idle settings hasClient source isLocal?).Regular P settings :=
  ⟨rfl, nofun⟩

theorem Regular.operateAll (h : relay.Regular P settings) (hbatch : 0 < settings.batchSize)
    {operations : List Operation}
    (hrecords : ∀ operation ∈ operations, ∀ record ∈ operation.forwarded, P record) :
    (relay.operateAll operations).Regular P settings := by
  induction operations generalizing relay with
  | nil => exact h
  | cons operation rest ih =>
    rw [List.forall_mem_cons] at hrecords
    exact ih (h.operate hbatch hrecords.1).regular hrecords.2

end Relay

end RecordRelay
