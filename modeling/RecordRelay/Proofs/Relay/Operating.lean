import RecordRelay.Proofs.Relay.ConcurrentActions
import RecordRelay.Proofs.Relay.FleetView

/-! Stages are registered at a node one by one or with all their instances, its peers change,
batches of other nodes come in, records are forwarded and received, workers send batches, and the
dispatch pool is shut down. An operation adds at most one registration, at the end, and changes at
most one: it writes records into the buffer, hands out the oldest ones or changes the outbox. -/
namespace RecordRelay

namespace Registration

/-- The records that are written into the buffer when the outcome of a request is known. -/
def writtenBack (registration : Registration) (patience : Nanoseconds) (outcome : Outcome)
    (records : List Record) : List Record :=
  if outcome.isSuccess then []
  else if (registration.buffer.writeAll records patience).isOk then records else []

/-- What an operation of a node does to a registration: how the records that it writes into the
buffer, the batches that it hands out and the registration afterwards follow from each other. -/
inductive Changes (routing : Routing) :
    Registration → List Record → List (List Record) → Registration → Prop
  | nothing {registration : Registration} : Changes routing registration [] [] registration
  | stored {buffer : ReceiveBuffer} {sender : Option Sender} (records : List Record) :
      Changes routing ⟨buffer, sender⟩ records [] ⟨buffer.enqueue records, sender⟩
  | received {registration : Registration} (now : Nanoseconds) :
      Changes routing registration [] [(registration.receive now).1] (registration.receive now).2
  | forwarded {buffer : ReceiveBuffer} {sender : Sender} (index : Nat) (records : List Record)
      (pool : Pool) :
      Changes routing ⟨buffer, some sender⟩ [] []
        ⟨buffer, some { sender with
          outbox := (sender.outbox.forward routing index records pool).2.1 }⟩
  | completed {registration : Registration} (patience : Nanoseconds) (outcome : Outcome)
      (records : List Record) :
      Changes routing registration (registration.writtenBack patience outcome records) []
        (registration.complete patience outcome records)

theorem buffer_complete (registration : Registration) (patience : Nanoseconds) (outcome : Outcome)
    (records : List Record) :
    (registration.complete patience outcome records).buffer
      = registration.buffer.enqueue (registration.writtenBack patience outcome records) := by
  have hsame : registration.buffer.enqueue [] = registration.buffer :=
    congrArg (fun queue => { registration.buffer with queue }) (List.append_nil _)
  rw [complete, writtenBack]
  cases outcome.isSuccess with
  | true => exact hsame.symm
  | false =>
    have hsettled : (registration.mapOutbox (Outbox.settle outcome records.length)).buffer
        = registration.buffer := rfl
    rw [if_neg Bool.false_ne_true, if_neg Bool.false_ne_true, fallBack, hsettled]
    cases hwrite : registration.buffer.writeAll records patience with
    | ok buffer => exact ReceiveBuffer.writeAll_ok hwrite
    | error cause => exact hsame.symm

theorem rearranged_receive (registration : Registration) (now : Nanoseconds) :
    registration.buffer.Rearranged (registration.receive now).2.buffer := by
  obtain ⟨buffer, _ | sender⟩ := registration
  · exact .refl buffer
  · exact (buffer.rearranged_read now).trans (ReceiveBuffer.rearranged_checkpoint _ _)

variable {routing : Routing} {registration next : Registration} {written : List Record}
  {received : List (List Record)}

theorem Changes.rearranged (h : Changes routing registration written received next) :
    registration.buffer.Rearranged next.buffer := by
  cases h with
  | nothing | forwarded => exact .refl _
  | stored => exact ReceiveBuffer.rearranged_enqueue _ _
  | received now => exact registration.rearranged_receive now
  | completed patience outcome records =>
    rw [buffer_complete]
    exact ReceiveBuffer.rearranged_enqueue _ _

theorem Changes.key_eq (h : Changes routing registration written received next) :
    next.key = registration.key :=
  Prod.ext h.rearranged.settings_eq.1 h.rearranged.settings_eq.2.1

end Registration

namespace Relay

inductive Operation where
  | register (pipeline plugin : String) (keys : List String) (launch : Except String Unit)
  | registerInstances (pipeline plugin : String) (instances : List (List String))
      (launch : Except String Unit)
  | openRing
  | updatePeers (peers : List String)
  /-- The batch of another node is answered, after it has waited for room if there was none. -/
  | accept (payload : List UInt8)
  | forward (index : Nat) (records : List Record)
  | receive (index : Nat) (now : Nanoseconds)
  | takeJob (pool : Nat)
  /-- A worker is done with a job, and the registration of the job hears of the outcome. -/
  | finishJob (pool place : Nat) (outcome : Outcome)
  | shutDown

/-- What comes of an operation that asks for a registration: its number and the node with it. The
other operations ask for none. -/
def ask (relay : Relay) : Operation → Except SetupError (Option (Nat × Relay))
  | .register pipeline plugin keys launch => (relay.register pipeline plugin keys launch).map some
  | .registerInstances pipeline plugin instances launch =>
    relay.registerInstances pipeline plugin instances launch
  | _ => .ok none

/-- The node after an operation that asks for a registration. If it fails nothing changes. -/
def asked (relay : Relay) (operation : Operation) : Relay :=
  match relay.ask operation with
  | .ok (some (_, next)) => next
  | _ => relay

def operate (relay : Relay) : Operation → Relay
  | .register pipeline plugin keys launch =>
    relay.asked (.register pipeline plugin keys launch)
  | .registerInstances pipeline plugin instances launch =>
    relay.asked (.registerInstances pipeline plugin instances launch)
  | .openRing => relay.openRing
  | .updatePeers peers => (relay.updatePeers peers).2
  | .accept payload => (relay.accept payload).2
  | .forward index records => (relay.forward index records).2
  | .receive index now => (relay.receive index now).2
  | .takeJob pool => ((relay.takeJob pool).map Prod.snd).getD relay
  | .finishJob pool place outcome =>
    match relay.finishJob pool place with
    | some (job, next) => next.complete job outcome
    | none => relay
  | .shutDown => relay.shutDown

def operateAll (relay : Relay) (operations : List Operation) : Relay :=
  operations.foldl operate relay

theorem operateAll_concat (relay : Relay) (operations : List Operation) (last : Operation) :
    relay.operateAll (operations ++ [last]) = (relay.operateAll operations).operate last :=
  List.foldl_append

/-- The pair that an operation asks to register. Without instances there is nothing to ask for. -/
def Operation.stage? : Operation → Option (String × String)
  | .register pipeline plugin _ _ => some (pipeline, plugin)
  | .registerInstances pipeline plugin instances _ =>
    if instances = [] then none else some (pipeline, plugin)
  | _ => none

/-- The operations that ask for a registration. -/
def Operation.Asks : Operation → Prop
  | .register .. | .registerInstances .. => True
  | _ => False

variable {relay next : Relay} {operation : Operation} {index : Nat} {registration : Registration}

/-- Whoever gets a registration gets it for a pair that is registered then. -/
theorem register_of_ask (h : relay.ask operation = .ok (some (index, next))) :
    ∃ pipeline plugin keys launch, operation.stage? = some (pipeline, plugin)
      ∧ relay.register pipeline plugin keys launch = .ok (index, next) := by
  cases operation with
  | register pipeline plugin keys launch =>
    refine ⟨pipeline, plugin, keys, launch, rfl, ?_⟩
    rw [ask] at h
    cases hregister : relay.register pipeline plugin keys launch with
    | error cause =>
      rw [hregister] at h
      contradiction
    | ok result =>
      rw [hregister] at h
      exact congrArg Except.ok (Option.some.inj (Except.ok.inj h))
  | registerInstances pipeline plugin instances launch =>
    rw [ask, registerInstances] at h
    cases instances with
    | nil => exact nomatch h
    | cons first rest =>
      refine ⟨pipeline, plugin, sortedSet first, launch, rfl, ?_⟩
      rw [List.map_cons] at h
      dsimp only at h
      split_ifs at h
      cases hregister : relay.register pipeline plugin (sortedSet first) launch with
      | error cause =>
        rw [hregister] at h
        contradiction
      | ok result =>
        rw [hregister] at h
        exact congrArg Except.ok (Option.some.inj (Except.ok.inj h))
  | _ => exact nomatch h

theorem asked_of_ask (h : relay.ask operation = .ok (some (index, next))) :
    relay.asked operation = next := by
  rw [asked, h]

theorem operate_of_ask (h : relay.ask operation = .ok (some (index, next))) :
    relay.operate operation = next := by
  cases operation with
  | register | registerInstances => exact asked_of_ask h
  | _ => exact nomatch h

/-- An operation that asks for a registration registers a stage or does nothing. -/
theorem operate_of_asks (relay : Relay) (h : operation.Asks) :
    relay.operate operation = relay ∨ ∃ pipeline plugin keys launch index,
      relay.register pipeline plugin keys launch = .ok (index, relay.operate operation) := by
  cases operation with
  | register | registerInstances =>
    rw [operate, asked]
    split
    next index next hask =>
      obtain ⟨pipeline, plugin, keys, launch, -, hregister⟩ := register_of_ask hask
      exact .inr ⟨pipeline, plugin, keys, launch, index, hregister⟩
    next => exact .inl rfl
  | _ => exact absurd h id

def keys (relay : Relay) : List (String × String) := relay.registrations.map Registration.key

theorem keys_getElem? (relay : Relay) (index : Nat) :
    relay.keys[index]? = relay.registrations[index]?.map Registration.key := List.getElem?_map

/-- Whether a stage is registered. -/
theorem find?_eq_none_iff {pipeline plugin : String} :
    relay.find? pipeline plugin = none ↔ (pipeline, plugin) ∉ relay.keys := by
  rw [find?, List.findIdx?_eq_none_iff, keys, List.mem_map]
  simp

theorem registrations_takeJob {pool : Nat} {job : Job}
    (h : relay.takeJob pool = some (job, next)) : next.registrations = relay.registrations := by
  obtain ⟨found, after, -, -, rfl⟩ := takeJob_eq_some h
  rfl

theorem registrations_finishJob {pool place : Nat} {job : Job}
    (h : relay.finishJob pool place = some (job, next)) :
    next.registrations = relay.registrations := by
  obtain ⟨found, after, -, -, rfl⟩ := finishJob_eq_some h
  rfl

theorem registrations_shutDown (relay : Relay) :
    relay.shutDown.registrations = relay.registrations := by
  rw [shutDown]
  split <;> rfl

theorem getElem?_setRegistration {old : Registration} {place : Nat}
    (h : relay.registrations[place]? = some old) (new : Registration) (index : Nat) :
    (relay.setRegistration place new).registrations[index]?
      = if place = index then some new else relay.registrations[index]? := by
  rw [setRegistration, List.getElem?_set]
  split_ifs with heq hlt
  · rfl
  · exact absurd (List.getElem?_eq_some_iff.mp h).1 hlt
  · rfl

/-- A registration that is made adds itself at the end. -/
theorem registrations_register {pipeline plugin : String} {keys : List String}
    {launch : Except String Unit}
    (h : relay.register pipeline plugin keys launch = .ok (index, next)) :
    index = relay.registrations.length ∧ ∃ sender,
      next.registrations
          = relay.registrations ++ [⟨newBuffer relay.settings pipeline plugin, sender⟩]
        ∧ sender.isSome = relay.settings.arePeersConfigured
        ∧ ∀ held ∈ sender,
          held.outbox = .empty relay.settings pipeline plugin (sortedSet keys) := by
  obtain ⟨-, ⟨hconfigured, heq⟩ | ⟨hconfigured, pool, opened, hopen, heq⟩⟩ := register_cases h
  · obtain ⟨rfl, rfl⟩ := Prod.mk.inj heq
    exact ⟨rfl, none, rfl, hconfigured.symm, fun _ hnone => nomatch hnone⟩
  · obtain ⟨rfl, rfl⟩ := Prod.mk.inj heq
    have hsame : opened.openRing.registrations = relay.registrations :=
      (registrations_openRing opened).trans (registrations_openPool hopen)
    have hsettings : opened.settings = relay.settings :=
      congrArg Prod.fst (fleetView_openPool hopen)
    rw [hsame, hsettings]
    refine ⟨rfl, _, rfl, hconfigured.symm, ?_⟩
    rintro held ⟨⟩
    rfl

/-- The records of a batch that a node answers with a success, if it is for a registration. -/
def acknowledged (relay : Relay) (index : Nat) (payload : List UInt8) : List Record :=
  match Batch.decode? payload with
  | some batch =>
    if (relay.accept payload).1.isSuccess
        ∧ relay.keys[index]? = some (batch.pipeline, batch.plugin) then batch.records
    else []
  | none => []

/-- The records that an operation writes into the buffer of a registration: those of a batch that
is answered with a success, or those of a batch that could not be sent and is written back. -/
def written (relay : Relay) (index : Nat) : Operation → List Record
  | .accept payload => relay.acknowledged index payload
  | .finishJob pool place outcome =>
    match relay.finishJob pool place with
    | some (job, next) =>
      match next.registrations[index]? with
      | some registration =>
        if job.registration = index then
          registration.writtenBack relay.settings.localWritePatience outcome job.records
        else []
      | none => []
    | none => []
  | _ => []

def received (relay : Relay) (index : Nat) : Operation → List (List Record)
  | .receive place now => if place = index then [(relay.receive place now).1] else []
  | _ => []

/-- An operation that leaves the registrations as they are, up to new ones, does nothing to any. -/
theorem exists_changes_of_prefix (h : relay.registrations[index]? = some registration)
    (hgrows : relay.registrations <+: next.registrations) (routing : Routing) :
    ∃ later, next.registrations[index]? = some later
      ∧ Registration.Changes routing registration [] [] later := by
  obtain ⟨more, hmore⟩ := hgrows
  refine ⟨registration, ?_, .nothing⟩
  rw [← hmore, List.getElem?_append_left (List.getElem?_eq_some_iff.mp h).1, h]

/-- An operation that asks for a registration leaves the others as they are. -/
theorem registrations_prefix_operate (relay : Relay) (h : operation.Asks) :
    relay.registrations <+: (relay.operate operation).registrations := by
  rcases relay.operate_of_asks h with hsame | ⟨pipeline, plugin, keys, launch, index, hregister⟩
  · rw [hsame]
  · obtain ⟨-, sender, hmore, -⟩ := registrations_register hregister
    exact ⟨_, hmore.symm⟩

theorem exists_changes_accept (hdistinct : relay.keys.Nodup)
    (h : relay.registrations[index]? = some registration) (payload : List UInt8) :
    ∃ later, (relay.accept payload).2.registrations[index]? = some later
      ∧ Registration.Changes relay.routing registration (relay.acknowledged index payload) []
        later := by
  rcases relay.accept_cases payload with ⟨status, hstatus, heq⟩ |
    ⟨batch, place, stored, buffer, hdecode, hfind, hget, hwrite, heq⟩
  · have hnothing : relay.acknowledged index payload = [] := by
      rw [acknowledged, heq]
      cases Batch.decode? payload with
      | none => rfl
      | some batch => exact if_neg fun h => by simp [reject, hstatus] at h
    rw [hnothing, heq]
    exact exists_changes_of_prefix h List.prefix_rfl relay.routing
  · have hkey : relay.keys[place]? = some (batch.pipeline, batch.plugin) := by
      rw [keys_getElem?, hget, Option.map_some, key_of_find? hfind hget]
    have hrecords : relay.acknowledged index payload
        = if place = index then batch.records else [] := by
      rw [acknowledged, hdecode, heq]
      refine if_congr ⟨fun hboth => ?_, fun hplace => ⟨rfl, hplace ▸ hkey⟩⟩ rfl rfl
      exact (List.getElem?_inj (List.getElem?_eq_some_iff.mp hkey).1 hdistinct).mp
        (hkey.trans hboth.2.symm)
    rw [hrecords, heq]
    simp only [getElem?_setRegistration hget]
    split_ifs with hplace
    · subst hplace
      obtain rfl := Option.some.inj (hget.symm.trans h)
      obtain rfl := ReceiveBuffer.writeAll_ok hwrite
      exact ⟨_, rfl, .stored batch.records⟩
    · exact ⟨registration, h, .nothing⟩

theorem exists_changes_forward (h : relay.registrations[index]? = some registration) (place : Nat)
    (records : List Record) :
    ∃ later, (relay.forward place records).2.registrations[index]? = some later
      ∧ Registration.Changes relay.routing registration [] [] later := by
  rw [forward]
  split
  next buffer sender hget =>
    by_cases hplace : place = index
    · subst hplace
      obtain rfl := Option.some.inj (hget.symm.trans h)
      exact ⟨_, List.getElem?_set_self (List.getElem?_eq_some_iff.mp hget).1,
        .forwarded place records _⟩
    · exact ⟨registration, (List.getElem?_set_ne hplace).trans h, .nothing⟩
  next => exact ⟨registration, h, .nothing⟩

theorem exists_changes_receive (h : relay.registrations[index]? = some registration) (place : Nat)
    (now : Nanoseconds) :
    ∃ later, (relay.receive place now).2.registrations[index]? = some later
      ∧ Registration.Changes relay.routing registration []
        (if place = index then [(relay.receive place now).1] else []) later := by
  rw [receive]
  cases hget : relay.registrations[place]? with
  | none =>
    have hplace : place ≠ index := by
      rintro rfl
      rw [hget] at h
      contradiction
    rw [if_neg hplace]
    exact ⟨registration, h, .nothing⟩
  | some stored =>
    dsimp only
    rw [getElem?_setRegistration hget]
    split_ifs with hplace
    · subst hplace
      obtain rfl := Option.some.inj (hget.symm.trans h)
      exact ⟨_, rfl, .received now⟩
    · exact ⟨registration, h, .nothing⟩

theorem exists_changes_finishJob (h : relay.registrations[index]? = some registration)
    (pool place : Nat) (outcome : Outcome) :
    ∃ later, (relay.operate (.finishJob pool place outcome)).registrations[index]? = some later
      ∧ Registration.Changes relay.routing registration
        (relay.written index (.finishJob pool place outcome)) [] later := by
  rw [operate, written]
  cases hfinish : relay.finishJob pool place with
  | none => exact ⟨registration, h, .nothing⟩
  | some result =>
    obtain ⟨job, next⟩ := result
    have hsame := registrations_finishJob hfinish
    have hsettings : next.settings = relay.settings :=
      congrArg Prod.fst (fleetView_finishJob hfinish)
    have hnext : next.registrations[index]? = some registration := hsame ▸ h
    dsimp only
    rw [hnext, complete]
    cases hget : next.registrations[job.registration]? with
    | none =>
      have hother : job.registration ≠ index := by
        intro heq
        rw [heq, hnext] at hget
        contradiction
      dsimp only
      rw [if_neg hother]
      exact ⟨registration, hnext, .nothing⟩
    | some stored =>
      dsimp only
      rw [getElem?_setRegistration hget]
      split_ifs with heq
      · rw [heq, hnext] at hget
        obtain rfl := Option.some.inj hget
        rw [hsettings]
        exact ⟨_, rfl, .completed _ outcome job.records⟩
      · exact ⟨registration, hnext, .nothing⟩

/-- What an operation does to a registration, with the records that it writes and hands out. -/
theorem exists_changes (hdistinct : relay.keys.Nodup)
    (h : relay.registrations[index]? = some registration) (operation : Operation) :
    ∃ later, (relay.operate operation).registrations[index]? = some later
      ∧ Registration.Changes relay.routing registration (relay.written index operation)
        (relay.received index operation) later := by
  cases operation with
  | register | registerInstances =>
    exact exists_changes_of_prefix h (relay.registrations_prefix_operate (by trivial)) _
  | openRing =>
    exact exists_changes_of_prefix h (relay.registrations_openRing ▸ List.prefix_rfl) _
  | updatePeers peers => exact ⟨registration, h, .nothing⟩
  | accept payload => exact exists_changes_accept hdistinct h payload
  | forward place records => exact exists_changes_forward h place records
  | receive place now => exact exists_changes_receive h place now
  | takeJob pool =>
    rw [operate]
    cases htake : relay.takeJob pool with
    | none => exact ⟨registration, h, .nothing⟩
    | some result => exact ⟨registration, registrations_takeJob htake ▸ h, .nothing⟩
  | finishJob pool place outcome => exact exists_changes_finishJob h pool place outcome
  | shutDown => exact ⟨registration, relay.registrations_shutDown ▸ h, .nothing⟩

/-- Only an operation that gets a registration adds one. -/
theorem length_operate (h : ∀ result, relay.ask operation ≠ .ok (some result)) :
    (relay.operate operation).registrations.length = relay.registrations.length := by
  cases operation with
  | register | registerInstances =>
    rw [operate, asked]
    split
    next hask => exact absurd hask (h _)
    next => rfl
  | openRing => exact congrArg List.length relay.registrations_openRing
  | updatePeers peers => rfl
  | accept payload =>
    have hstages := congrArg List.length (relay.stages_accept payload)
    rwa [stages, stages, List.length_map, List.length_map] at hstages
  | forward place records =>
    rw [operate, forward]
    split
    · exact List.length_set
    · rfl
  | receive place now =>
    rw [operate, receive]
    split
    · exact List.length_set
    · rfl
  | takeJob pool =>
    rw [operate]
    cases htake : relay.takeJob pool with
    | none => rfl
    | some result => exact congrArg List.length (registrations_takeJob htake)
  | finishJob pool place outcome =>
    rw [operate]
    cases hfinish : relay.finishJob pool place with
    | none => rfl
    | some result =>
      rw [← registrations_finishJob hfinish]
      dsimp only
      rw [complete]
      split
      · exact List.length_set
      · rfl
  | shutDown => exact congrArg List.length relay.registrations_shutDown

/-- The pair that an operation adds to the registered ones. -/
def gained (relay : Relay) (operation : Operation) : List (String × String) :=
  match relay.ask operation with
  | .ok (some _) => operation.stage?.toList
  | _ => []

/-- A registration that has just been made: its buffer is empty, and it has an outbox if there are
other nodes. -/
structure New (settings : Settings) (stage : String × String) (registration : Registration) :
    Prop where
  buffer : registration.buffer = newBuffer settings stage.1 stage.2
  sends : registration.sender.isSome = settings.arePeersConfigured
  outbox : ∀ sender ∈ registration.sender, ∃ keys,
    sender.outbox = .empty settings stage.1 stage.2 keys

/-- A pair that is not registered yet gets a new registration, or the number of registrations stays
as it is. -/
theorem registrations_operate_cases (relay : Relay) (operation : Operation) :
    (∃ stage registration, New relay.settings stage registration ∧ stage ∉ relay.keys
        ∧ relay.gained operation = [stage]
        ∧ (relay.operate operation).registrations = relay.registrations ++ [registration])
      ∨ relay.gained operation = []
        ∧ (relay.operate operation).registrations.length = relay.registrations.length := by
  by_cases hasked : ∃ result, relay.ask operation = .ok (some result)
  · obtain ⟨⟨index, next⟩, hask⟩ := hasked
    obtain ⟨pipeline, plugin, keys, launch, hstage, hregister⟩ := register_of_ask hask
    obtain ⟨-, sender, hsame, hsends, houtbox⟩ := registrations_register hregister
    refine .inl ⟨(pipeline, plugin), ⟨newBuffer relay.settings pipeline plugin, sender⟩,
      ⟨rfl, hsends, fun held hheld => ⟨_, houtbox held hheld⟩⟩,
      find?_eq_none_iff.mp (register_cases hregister).1, ?_, ?_⟩
    · rw [gained, hask, hstage]
      rfl
    · rw [operate_of_ask hask]
      exact hsame
  · rw [not_exists] at hasked
    refine .inr ⟨?_, length_operate hasked⟩
    rw [gained]
    split
    next hask => exact absurd hask (hasked _)
    next => rfl

/-- Stages keep their places and names, and only those that are asked for are added. -/
theorem keys_operate (hdistinct : relay.keys.Nodup) (operation : Operation) :
    (relay.operate operation).keys = relay.keys ++ relay.gained operation := by
  rcases relay.registrations_operate_cases operation with
    ⟨stage, registration, hnew, -, hgained, hsame⟩ | ⟨hgained, hlength⟩
  · rw [keys, hsame, hgained, List.map_append, List.map_singleton, Registration.key, hnew.buffer]
    rfl
  · rw [hgained, List.append_nil]
    refine List.ext_getElem? fun index => ?_
    rw [keys_getElem?, keys_getElem?]
    cases hget : relay.registrations[index]? with
    | some registration =>
      obtain ⟨later, hlater, hchanges⟩ := exists_changes hdistinct hget operation
      rw [hlater, Option.map_some, Option.map_some, hchanges.key_eq]
    | none =>
      rw [List.getElem?_eq_none (hlength ▸ List.getElem?_eq_none_iff.mp hget)]

theorem nodup_keys_operate (hdistinct : relay.keys.Nodup) (operation : Operation) :
    (relay.operate operation).keys.Nodup := by
  rw [keys_operate hdistinct]
  rcases relay.registrations_operate_cases operation with
    ⟨stage, registration, -, hfree, hgained, -⟩ | ⟨hgained, -⟩
  · rw [hgained, ← List.concat_eq_append]
    exact hdistinct.concat hfree
  · rwa [hgained, List.append_nil]

end Relay
end RecordRelay
