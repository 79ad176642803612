import RecordRelay.Proofs.Buffer.Accounting
import RecordRelay.Proofs.Relay.Operations

/-! Stages are registered at a node, their buffers are written and read, and batches of other nodes
arrive. Whatever happens, a stage keeps its place, its name and the capacity of its buffer, no other
stage gets its name, and its buffer is one that accesses lead to. -/
namespace RecordRelay

namespace ReceiveBuffer

/-- A buffer that accesses lead to. -/
def Reached (buffer : ReceiveBuffer) : Prop :=
  ∃ trace : Trace, trace.Consistent ∧ trace.buffer = buffer

theorem buffer_perform (now : Nanoseconds) (access : Access) (trace : Trace) :
    ((Trace.mk trace.buffer [] []).perform now access).buffer
      = (trace.perform now access).buffer := by
  cases access with
  | write records timeout =>
    rw [Trace.perform, Trace.perform]
    dsimp only
    cases trace.buffer.writeAll records timeout <;> rfl
  | _ => rfl

variable {buffer next : ReceiveBuffer}

theorem Reached.access (h : buffer.Reached) (now : Nanoseconds) (access : Access) :
    ((Trace.mk buffer [] []).perform now access).buffer.Reached := by
  obtain ⟨trace, hconsistent, rfl⟩ := h
  have htrans : Trace.Transition now trace (trace.perform now access) :=
    Trace.transition_perform hconsistent.ascending access
  exact ⟨trace.perform now access, hconsistent.transition htrans,
    (buffer_perform now access trace).symm⟩

theorem Reached.writeAll (h : buffer.Reached) {records : List Record} {timeout : Nanoseconds}
    (hwrite : buffer.writeAll records timeout = .ok next) : next.Reached := by
  have hafter := h.access 0 (.write records timeout)
  rw [Trace.perform] at hafter
  dsimp only at hafter
  rwa [hwrite] at hafter

theorem reached_empty (pipeline plugin : String) (capacity batchSize : Nat)
    (checkpointTimeout : Nanoseconds) :
    (empty pipeline plugin capacity batchSize checkpointTimeout).Reached :=
  ⟨_, Trace.consistent_fresh pipeline plugin capacity batchSize checkpointTimeout, rfl⟩

/-- A buffer counts the records that wait in it and those in flight, and could hold them all. -/
def Counts (buffer : ReceiveBuffer) : Prop :=
  buffer.length = buffer.queue.length + (buffer.inFlight.flatMap Delivery.records).length
    ∧ buffer.length ≤ buffer.capacity

theorem Reached.counts (h : buffer.Reached) : buffer.Counts := by
  obtain ⟨trace, hconsistent, rfl⟩ := h
  exact ⟨hconsistent.accounted.length, hconsistent.fits⟩

end ReceiveBuffer

namespace Relay

variable {relay : Relay} {index : Nat} {registration : Registration}

/-- What else happens at a node. -/
inductive ConcurrentAction where
  | register (pipeline plugin : String) (keys : List String) (launch : Except String Unit)
  /-- Somebody accesses the buffer of a registration. -/
  | access (index : Nat) (now : Nanoseconds) (access : ReceiveBuffer.Access)
  /-- Another batch looks for room. -/
  | accept (payload : List UInt8)

def perform (relay : Relay) : ConcurrentAction → Relay
  | .register pipeline plugin keys launch =>
    match relay.register pipeline plugin keys launch with
    | .ok (_, next) => next
    | .error _ => relay
  | .access index now access =>
    match relay.registrations[index]? with
    | some registration =>
      let trace : ReceiveBuffer.Trace := ⟨registration.buffer, [], []⟩
      relay.setRegistration index
        { registration with buffer := (trace.perform now access).buffer }
    | none => relay
  | .accept payload => (relay.accept payload).2

def run (relay : Relay) (actions : List ConcurrentAction) : Relay := actions.foldl perform relay

def stages (relay : Relay) : List ((String × String) × Nat) :=
  relay.registrations.map fun registration => (registration.key, registration.buffer.capacity)

theorem rearranged_access (now : Nanoseconds) (access : ReceiveBuffer.Access)
    (trace : ReceiveBuffer.Trace) :
    trace.buffer.Rearranged (trace.perform now access).buffer := by
  cases access with
  | write records timeout =>
    rw [ReceiveBuffer.Trace.perform]
    cases hwrite : trace.buffer.writeAll records timeout with
    | ok buffer =>
      rw [ReceiveBuffer.writeAll_ok hwrite]
      exact trace.buffer.rearranged_enqueue records
    | error cause => exact .refl _
  | redeliver => exact trace.buffer.rearranged_redeliver now
  | take => exact trace.buffer.rearranged_take now
  | checkpoint token => exact trace.buffer.rearranged_checkpoint token

theorem stages_setRegistration {next : Registration}
    (h : relay.registrations[index]? = some registration)
    (hkey : next.key = registration.key)
    (hcapacity : next.buffer.capacity = registration.buffer.capacity) :
    (relay.setRegistration index next).stages = relay.stages :=
  map_set_of_eq _ h (Prod.ext hkey hcapacity)

theorem registrations_openPool {launch : Except String Unit} {next : Relay}
    (h : relay.openPool launch = .ok (index, next)) :
    next.registrations = relay.registrations := by
  obtain ⟨-, rfl⟩ | ⟨-, rfl⟩ := openPool_cases h <;> rfl

theorem registrations_openRing (relay : Relay) :
    relay.openRing.registrations = relay.registrations := by
  rw [openRing]
  split <;> rfl

theorem stages_add (relay : Relay) (registration : Registration) :
    relay.stages <+: (relay.add registration).2.stages := by
  rw [add, stages, stages, List.map_append]
  exact List.prefix_append ..

section Registering

variable {pipeline plugin : String} {keys : List String} {launch : Except String Unit}
  {next : Relay}

/-- Registering adds a stage with an empty buffer, whose name is new. It sends records if there are
other nodes, with a pool and a ring that are made unless they are there already. -/
theorem register_cases (h : relay.register pipeline plugin keys launch = .ok (index, next)) :
    relay.find? pipeline plugin = none
      ∧ ((relay.settings.arePeersConfigured = false
          ∧ (index, next) = relay.add ⟨newBuffer relay.settings pipeline plugin, none⟩)
        ∨ (relay.settings.arePeersConfigured = true ∧ ∃ pool opened,
          relay.openPool launch = .ok (pool, opened)
            ∧ (index, next) = opened.openRing.add ⟨newBuffer relay.settings pipeline plugin,
              some ⟨.empty opened.settings pipeline plugin (sortedSet keys), pool⟩⟩)) := by
  rw [register] at h
  dsimp only at h
  split_ifs at h with _ hfind hconfigured
  all_goals
    refine ⟨Option.not_isSome_iff_eq_none.mp hfind, ?_⟩
  · exact .inl ⟨by simpa using hconfigured, (Except.ok.inj h).symm⟩
  · cases hopen : relay.openPool launch with
    | error cause =>
      rw [hopen] at h
      contradiction
    | ok result =>
      rw [hopen] at h
      exact .inr ⟨by simpa using hconfigured, result.1, result.2, rfl, (Except.ok.inj h).symm⟩

theorem exists_add_of_register
    (h : relay.register pipeline plugin keys launch = .ok (index, next)) :
    relay.find? pipeline plugin = none
      ∧ ∃ (opened : Relay) (sender : Option Sender),
          opened.registrations = relay.registrations
            ∧ next = (opened.add ⟨newBuffer relay.settings pipeline plugin, sender⟩).2 := by
  obtain ⟨hfind, ⟨-, heq⟩ | ⟨-, pool, opened, hopen, heq⟩⟩ := register_cases h
  · exact ⟨hfind, relay, none, rfl, congrArg Prod.snd heq⟩
  · have hsame : opened.openRing.registrations = relay.registrations :=
      (registrations_openRing opened).trans (registrations_openPool hopen)
    exact ⟨hfind, opened.openRing, _, hsame, congrArg Prod.snd heq⟩

theorem stages_register (h : relay.register pipeline plugin keys launch = .ok (index, next)) :
    relay.stages <+: next.stages := by
  obtain ⟨-, opened, sender, hsame, rfl⟩ := exists_add_of_register h
  rw [stages, ← hsame]
  exact opened.stages_add _

end Registering

theorem stages_accept (relay : Relay) (payload : List UInt8) :
    (relay.accept payload).2.stages = relay.stages := by
  rcases relay.accept_cases payload with ⟨status, -, heq⟩ |
    ⟨batch, index, registration, buffer, -, -, hget, hwrite, heq⟩
  · rw [heq]
    rfl
  · rw [heq]
    refine stages_setRegistration hget ?_ ?_
    · rw [ReceiveBuffer.writeAll_ok hwrite]
      rfl
    · rw [ReceiveBuffer.writeAll_ok hwrite]
      rfl

/-- Stages keep their places, their names and the capacities of their buffers. -/
theorem stages_perform (relay : Relay) (action : ConcurrentAction) :
    relay.stages <+: (relay.perform action).stages := by
  cases action with
  | register pipeline plugin keys launch =>
    rw [perform]
    cases hregister : relay.register pipeline plugin keys launch with
    | ok result => exact stages_register hregister
    | error cause => exact List.prefix_rfl
  | access index now access =>
    rw [perform]
    cases hget : relay.registrations[index]? with
    | some registration =>
      obtain ⟨hpipeline, hplugin, hcapacity⟩ :=
        (rearranged_access now access ⟨registration.buffer, [], []⟩).settings_eq
      refine ⟨[], (List.append_nil _).trans (stages_setRegistration hget ?_ hcapacity).symm⟩
      exact Prod.ext hpipeline hplugin
    | none => exact List.prefix_rfl
  | accept payload =>
    rw [perform, stages_accept]

theorem stages_run (relay : Relay) (actions : List ConcurrentAction) :
    relay.stages <+: (relay.run actions).stages := by
  induction actions generalizing relay with
  | nil => exact List.prefix_rfl
  | cons action actions ih => exact (relay.stages_perform action).trans (ih _)

/-- Every stage is registered once, and accesses lead to its buffer. -/
structure Orderly (relay : Relay) : Prop where
  distinct : (relay.registrations.map Registration.key).Nodup
  reached : ∀ registration ∈ relay.registrations, registration.buffer.Reached

theorem orderly_idle (settings : Settings) (hasClient : Bool) (source : PeerSource Follower)
    (isLocal? : String → Option Bool) : (idle settings hasClient source isLocal?).Orderly where
  distinct := .nil
  reached := nofun

theorem Orderly.setRegistration {next : Registration} (h : relay.Orderly)
    (hget : relay.registrations[index]? = some registration)
    (hkey : next.key = registration.key) (hreached : next.buffer.Reached) :
    (relay.setRegistration index next).Orderly where
  distinct := by
    rw [Relay.setRegistration, map_set_of_eq _ hget hkey]
    exact h.distinct
  reached other hother := by
    rcases List.mem_or_eq_of_mem_set hother with hother | rfl
    · exact h.reached other hother
    · exact hreached

theorem Orderly.add (h : relay.Orderly) (hnew : ∀ other ∈ relay.registrations,
    other.key ≠ registration.key) (hreached : registration.buffer.Reached) :
    (relay.add registration).2.Orderly where
  distinct := by
    rw [Relay.add, List.map_append, List.nodup_append]
    refine ⟨h.distinct, List.nodup_singleton _, fun key hkey other hother => ?_⟩
    obtain ⟨earlier, hearlier, rfl⟩ := List.mem_map.mp hkey
    rw [List.map_singleton, List.mem_singleton] at hother
    exact hother ▸ hnew earlier hearlier
  reached other hother := by
    rcases List.mem_append.mp hother with hother | hother
    · exact h.reached other hother
    · exact List.mem_singleton.mp hother ▸ hreached

theorem Orderly.of_registrations {next : Relay} (h : relay.Orderly)
    (hsame : next.registrations = relay.registrations) : next.Orderly :=
  ⟨hsame ▸ h.distinct, hsame ▸ h.reached⟩

theorem Orderly.register {pipeline plugin : String} {keys : List String}
    {launch : Except String Unit} {next : Relay} (h : relay.Orderly)
    (hregister : relay.register pipeline plugin keys launch = .ok (index, next)) :
    next.Orderly := by
  obtain ⟨hfind, opened, sender, hsame, rfl⟩ := exists_add_of_register hregister
  have hnew : ∀ other ∈ relay.registrations, other.key ≠ (pipeline, plugin) := by
    intro other hother hkey
    simpa [hkey] using List.findIdx?_eq_none_iff.mp hfind other hother
  exact (h.of_registrations hsame).add (hsame ▸ hnew) (ReceiveBuffer.reached_empty ..)

theorem Orderly.accept (h : relay.Orderly) (payload : List UInt8) :
    (relay.accept payload).2.Orderly := by
  rcases relay.accept_cases payload with ⟨status, -, heq⟩ |
    ⟨batch, index, registration, buffer, -, -, hget, hwrite, heq⟩
  · rw [heq]
    exact h.of_registrations rfl
  · have hreached := h.reached registration (List.mem_of_getElem? hget)
    have hkey : (Registration.mk buffer registration.sender).key = registration.key := by
      rw [ReceiveBuffer.writeAll_ok hwrite]
      rfl
    rw [heq]
    exact (h.setRegistration hget hkey (hreached.writeAll hwrite)).of_registrations rfl

theorem Orderly.perform (h : relay.Orderly) (action : ConcurrentAction) :
    (relay.perform action).Orderly := by
  cases action with
  | register pipeline plugin keys launch =>
    rw [Relay.perform]
    cases hregister : relay.register pipeline plugin keys launch with
    | ok result => exact h.register hregister
    | error cause => exact h
  | access index now access =>
    rw [Relay.perform]
    cases hget : relay.registrations[index]? with
    | some registration =>
      obtain ⟨hpipeline, hplugin, -⟩ :=
        (rearranged_access now access ⟨registration.buffer, [], []⟩).settings_eq
      have hreached := h.reached registration (List.mem_of_getElem? hget)
      exact h.setRegistration hget (Prod.ext hpipeline hplugin) (hreached.access now access)
    | none => exact h
  | accept payload => exact h.accept payload

theorem Orderly.run (h : relay.Orderly) (actions : List ConcurrentAction) :
    (relay.run actions).Orderly := by
  induction actions generalizing relay with
  | nil => exact h
  | cons action actions ih => exact ih (h.perform action)

end Relay

end RecordRelay
