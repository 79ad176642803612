import RecordRelay.Proofs.Forwarding.Batches
import RecordRelay.Proofs.Relay.Stranding
import RecordRelay.Relay.Limits

/-! A batching queue is made with room for as many batches as the settings ask for. Valid settings
bound the batches and their number from below only, so 64 bits need not be able to say how much room
that is; then the program stops at the first stage that is registered to send. As long as it runs,
every queue has just the room that the settings ask for. -/
namespace RecordRelay

namespace Settings

variable {settings : Settings} {depth : UInt64}

/-- The number of records that a queue should have room for. -/
def askedRoom (settings : Settings) : Nat :=
  settings.batchSize.toNat * settings.forwardingBatchQueueDepth.toNat

theorem batchingQueueCapacity?_eq_none_iff :
    settings.batchingQueueCapacity? = none ↔ UInt64.size ≤ settings.askedRoom := by
  rw [batchingQueueCapacity?, ← Nat.not_lt]
  split_ifs with hfits
  · exact iff_of_false (by simp) (not_not_intro hfits)
  · exact iff_of_true rfl hfits

theorem toNat_of_batchingQueueCapacity? {capacity : UInt64}
    (h : settings.batchingQueueCapacity? = some capacity) :
    capacity.toNat = settings.askedRoom := by
  rw [batchingQueueCapacity?] at h
  split_ifs at h with hfits
  rw [← Option.some.inj h, UInt64.toNat_mul]
  exact Nat.mod_eq_of_lt hfits

theorem batchSize_le_askedRoom (h : settings.validate = .ok ()) :
    settings.batchSize.toNat ≤ settings.askedRoom := by
  obtain ⟨hsizes, -⟩ := sizes_of_validate h
  have hdepth := hsizes ("forwarding_batch_queue_depth", settings.forwardingBatchQueueDepth)
    (.tail _ (.head _))
  refine Nat.le_mul_of_pos_right _ (Nat.pos_of_ne_zero fun heq => ?_)
  exact hdepth (UInt64.toNat_inj.mp heq)

/-- The settings with another number of batches for which a queue has room. -/
def withDepth (settings : Settings) (depth : UInt64) : Settings :=
  { settings with forwardingBatchQueueDepth := depth }

/-- No number of batches but zero is refused. -/
theorem validate_withDepth (h : settings.validate = .ok ()) (hdepth : depth ≠ 0) :
    (settings.withDepth depth).validate = .ok () := by
  obtain ⟨hsizes, -⟩ := sizes_of_validate h
  have hold : (settings.sizes.find? fun size => size.2 = 0) = none := by simpa using hsizes
  have hnew : ((settings.withDepth depth).sizes.find? fun size => size.2 = 0) = none := by
    simp only [sizes, List.forall_mem_cons] at hsizes
    obtain ⟨hbatch, -, hrest⟩ := hsizes
    refine List.find?_eq_none.mpr ?_
    simp only [sizes, List.forall_mem_cons, decide_eq_true_eq]
    exact ⟨hbatch, hdepth, hrest⟩
  rw [validate, hold] at h
  rw [validate, hnew]
  exact h

/-- The room that is asked for can grow too large for 64 bits unless every record is a batch. -/
theorem exists_size_le_askedRoom_iff (h : settings.validate = .ok ()) :
    (∃ depth, (settings.withDepth depth).validate = .ok ()
        ∧ UInt64.size ≤ (settings.withDepth depth).askedRoom) ↔ settings.batchSize ≠ 1 := by
  obtain ⟨hsizes, -⟩ := sizes_of_validate h
  have hbatch : settings.batchSize ≠ 0 := hsizes ("batch_size", settings.batchSize) (.head _)
  constructor
  · rintro ⟨depth, -, hlarge⟩ hsingle
    rw [askedRoom, withDepth, hsingle] at hlarge
    have hdepth := depth.toNat_lt_size
    simp at hlarge
    omega
  · intro hsingle
    refine ⟨0xFFFFFFFFFFFFFFFF, validate_withDepth h (by decide), ?_⟩
    have hmore : 2 ≤ settings.batchSize.toNat := by
      have hzero : settings.batchSize.toNat ≠ 0 := fun heq => hbatch (UInt64.toNat_inj.mp heq)
      have hone : settings.batchSize.toNat ≠ 1 := fun heq => hsingle (UInt64.toNat_inj.mp heq)
      omega
    calc UInt64.size ≤ 2 * 0xFFFFFFFFFFFFFFFF := by decide
      _ ≤ settings.batchSize.toNat * 0xFFFFFFFFFFFFFFFF := Nat.mul_le_mul_right _ hmore

end Settings

namespace Outbox

/-- The queues of an outbox are made as settings say. -/
structure MadeFor (settings : Settings) (outbox : Outbox) : Prop where
  batchSize : outbox.batchSize = settings.batchSize.toNat
  queueCapacity : outbox.queueCapacity = settings.batchingQueueCapacity?.map UInt64.toNat
  queues : ∀ entry ∈ outbox.queues,
    entry.2.capacity = max (outbox.queueCapacity.getD 0) outbox.batchSize

variable {settings : Settings} {outbox : Outbox}

theorem madeFor_empty (settings : Settings) (pipeline plugin : String) (keys : List String) :
    (empty settings pipeline plugin keys).MadeFor settings where
  batchSize := rfl
  queueCapacity := rfl
  queues _ hentry := absurd hentry List.not_mem_nil

theorem MadeFor.withCounters (h : outbox.MadeFor settings) (counters : ForwardingCounters) :
    MadeFor settings { outbox with counters } :=
  ⟨h.batchSize, h.queueCapacity, h.queues⟩

theorem MadeFor.capacity_queue (h : outbox.MadeFor settings) (destination : String) :
    (outbox.queue destination).capacity = max (outbox.queueCapacity.getD 0) outbox.batchSize := by
  rcases outbox.queue_eq_empty_or_mem destination with hempty | hmem
  · rw [hempty]
    rfl
  · exact h.queues _ hmem

theorem MadeFor.enqueue (h : outbox.MadeFor settings) (destination : String)
    (records : List Record) : (outbox.enqueue destination records).MadeFor settings := by
  refine ⟨h.batchSize, h.queueCapacity, fun entry hentry => ?_⟩
  rcases mem_setQueue hentry with rfl | hold
  · rw [BatchingQueue.capacity_offerAll]
    exact h.capacity_queue destination
  · exact h.queues entry hold

theorem MadeFor.cutAll (h : outbox.MadeFor settings) (groups : List (String × List Record)) :
    MadeFor settings { outbox with queues := (outbox.cutAll groups).2 } := by
  induction groups generalizing outbox with
  | nil => exact h
  | cons group rest ih => exact ih (h.enqueue group.1 group.2)

theorem MadeFor.forward (h : outbox.MadeFor settings) (routing : Routing) (index : Nat)
    (records : List Record) (pool : Pool) :
    (outbox.forward routing index records pool).2.1.MadeFor settings := by
  rw [(outbox.routed_forward routing index records pool).outbox_eq]
  exact (h.cutAll _).withCounters _

/-- Valid settings ask for at least a batch, so a queue has all the room they ask for. -/
theorem MadeFor.capacity_eq (h : outbox.MadeFor settings) (hvalid : settings.validate = .ok ())
    (hfits : settings.askedRoom < UInt64.size) {entry : String × BatchingQueue}
    (hentry : entry ∈ outbox.queues) : entry.2.capacity = settings.askedRoom := by
  have hsome : settings.batchingQueueCapacity? ≠ none := fun hnone =>
    hfits.not_ge (Settings.batchingQueueCapacity?_eq_none_iff.mp hnone)
  obtain ⟨capacity, hcapacity⟩ := Option.ne_none_iff_exists'.mp hsome
  have hroom := Settings.toNat_of_batchingQueueCapacity? hcapacity
  rw [h.queues entry hentry, h.queueCapacity, h.batchSize, hcapacity, Option.map_some,
    Option.getD_some, hroom]
  exact max_eq_left (Settings.batchSize_le_askedRoom hvalid)

theorem MadeFor.isWithin_eq_false_iff (h : outbox.MadeFor settings)
    (hvalid : settings.validate = .ok ()) {memory : Nat} :
    outbox.isWithin memory = false
      ↔ UInt64.size ≤ settings.askedRoom
        ∨ outbox.queues ≠ [] ∧ memory < settings.askedRoom := by
  have hnone : outbox.queueCapacity.isSome = false ↔ UInt64.size ≤ settings.askedRoom := by
    rw [h.queueCapacity, Option.isSome_map, Option.isSome_eq_false_iff, Option.isNone_iff_eq_none,
      Settings.batchingQueueCapacity?_eq_none_iff]
  rw [isWithin, Bool.and_eq_false_iff, hnone]
  refine or_congr_right' fun hfits => ?_
  rw [List.all_eq_false]
  constructor
  · rintro ⟨entry, hentry, hlarge⟩
    rw [h.capacity_eq hvalid (Nat.not_le.mp hfits) hentry] at hlarge
    exact ⟨List.ne_nil_of_mem hentry, by simpa using hlarge⟩
  · rintro ⟨hqueues, hlarge⟩
    obtain ⟨entry, hentry⟩ := List.exists_mem_of_ne_nil _ hqueues
    refine ⟨entry, hentry, ?_⟩
    rw [h.capacity_eq hvalid (Nat.not_le.mp hfits) hentry]
    simpa using hlarge

end Outbox

namespace Registration

/-- The buffer and the queues of a registration are made as settings say. -/
structure MadeFor (settings : Settings) (registration : Registration) : Prop where
  buffer : registration.buffer.capacity = settings.bufferSize.toNat
  outbox : ∀ sender ∈ registration.sender, sender.outbox.MadeFor settings

theorem MadeFor.changes {settings : Settings} {registration later : Registration}
    {routing : Routing} {written : List Record} {received : List (List Record)}
    (h : registration.MadeFor settings)
    (hchanges : Changes routing registration written received later) :
    later.MadeFor settings := by
  refine ⟨hchanges.rearranged.settings_eq.2.2.trans h.buffer, fun next hnext => ?_⟩
  obtain ⟨sender, hsender, -, ⟨counters, heq⟩ | ⟨index, records, pool, heq⟩⟩ :=
    hchanges.sender hnext
  · rw [heq]
    exact (h.outbox sender hsender).withCounters counters
  · rw [heq]
    exact (h.outbox sender hsender).forward routing index records pool

theorem MadeFor.isWithin_eq_false_iff {settings : Settings} {registration : Registration}
    (h : registration.MadeFor settings) (hvalid : settings.validate = .ok ()) {memory : Nat} :
    registration.isWithin memory = false
      ↔ memory < settings.bufferSize.toNat
        ∨ ∃ sender ∈ registration.sender, UInt64.size ≤ settings.askedRoom
          ∨ sender.outbox.queues ≠ [] ∧ memory < settings.askedRoom := by
  obtain ⟨buffer, sender⟩ := registration
  rw [isWithin, Bool.and_eq_false_iff, decide_eq_false_iff_not, Nat.not_le, h.buffer]
  cases sender with
  | none => simp
  | some sender =>
    simp only [Option.map_some, Option.getD_some, Option.mem_some_iff, exists_eq_left']
    rw [(h.outbox sender rfl).isWithin_eq_false_iff hvalid]

end Registration

namespace Relay

/-- Whatever happens at a node, its buffers and queues stay as they are made. -/
theorem madeFor_operateAll {settings : Settings} {hasClient : Bool} {source : PeerSource Follower}
    {isLocal? : String → Option Bool} {operations : List Operation} {registration : Registration}
    (hmem : registration ∈ ((idle settings hasClient source isLocal?).operateAll
      operations).registrations) :
    registration.MadeFor settings := by
  obtain ⟨index, hget⟩ := List.mem_iff_getElem?.mp hmem
  refine log_induction settings hasClient source isLocal?
    (P := fun registration _ _ => registration.MadeFor settings) ?_ ?_ operations hget
  · intro stage registration hnew
    refine ⟨by rw [hnew.buffer]; rfl, fun sender hsender => ?_⟩
    obtain ⟨keys, houtbox⟩ := hnew.outbox sender hsender
    rw [houtbox]
    exact Outbox.madeFor_empty settings stage.1 stage.2 keys
  · intro routing registration later written given records received hmade hchanges
    exact hmade.changes hchanges

/-- With valid settings there is a computed room unless what the settings ask for is too much for
64 bits, and then it is what they ask for, a number of full batches and at least one. Whatever
happens at a node, it has stopped just if a stage is registered whose buffer the memory has no room
for, or that sends although there is no computed room, or has made a queue that the memory has no
room for; until then every queue that was made has the room that is asked for. Settings that ask for
too much are valid for every size of batches but one. -/
theorem queues_have_asked_room_unless_stopped {settings : Settings}
    (h : settings.validate = .ok ()) :
    (settings.batchingQueueCapacity? = none ↔ UInt64.size ≤ settings.askedRoom)
      ∧ (∀ capacity ∈ settings.batchingQueueCapacity?,
        capacity.toNat = settings.askedRoom
          ∧ settings.batchSize.toNat ∣ capacity.toNat
          ∧ settings.batchSize ≤ capacity)
      ∧ (∀ memory hasClient source isLocal? operations,
        let node := (idle settings hasClient source isLocal?).operateAll operations
        (node.hasStopped memory = true
            ↔ ∃ registration ∈ node.registrations, memory < settings.bufferSize.toNat
              ∨ ∃ sender ∈ registration.sender, UInt64.size ≤ settings.askedRoom
                ∨ sender.outbox.queues ≠ [] ∧ memory < settings.askedRoom)
          ∧ (node.hasStopped memory = false →
            ∀ registration ∈ node.registrations, ∀ sender ∈ registration.sender,
              ∀ entry ∈ sender.outbox.queues, entry.2.capacity = settings.askedRoom))
      ∧ ((∃ depth, (settings.withDepth depth).validate = .ok ()
          ∧ UInt64.size ≤ (settings.withDepth depth).askedRoom) ↔ settings.batchSize ≠ 1) := by
  refine ⟨Settings.batchingQueueCapacity?_eq_none_iff, fun capacity hcapacity => ?_, ?_,
    Settings.exists_size_le_askedRoom_iff h⟩
  · have hroom := Settings.toNat_of_batchingQueueCapacity? hcapacity
    refine ⟨hroom, ?_, ?_⟩
    · rw [hroom]
      exact Nat.dvd_mul_right ..
    · rw [UInt64.le_iff_toNat_le, hroom]
      exact Settings.batchSize_le_askedRoom h
  · intro memory hasClient source isLocal? operations node
    have hmade : ∀ registration ∈ node.registrations, registration.MadeFor settings :=
      fun registration hmem => madeFor_operateAll hmem
    have hstopped : node.hasStopped memory = true
        ↔ ∃ registration ∈ node.registrations, memory < settings.bufferSize.toNat
          ∨ ∃ sender ∈ registration.sender, UInt64.size ≤ settings.askedRoom
            ∨ sender.outbox.queues ≠ [] ∧ memory < settings.askedRoom := by
      rw [hasStopped, Bool.not_eq_true', List.all_eq_false]
      refine exists_congr fun registration => and_congr_right fun hmem => ?_
      rw [Bool.not_eq_true, (hmade registration hmem).isWithin_eq_false_iff h]
    refine ⟨hstopped, fun hruns registration hmem sender hsender entry hentry => ?_⟩
    have hfits : settings.askedRoom < UInt64.size := by
      refine Nat.not_le.mp fun hlarge => ?_
      have hstops := hstopped.mpr ⟨registration, hmem, .inr ⟨sender, hsender, .inl hlarge⟩⟩
      rw [hruns] at hstops
      exact Bool.false_ne_true hstops
    exact ((hmade registration hmem).outbox sender hsender).capacity_eq h hfits hentry

/-- A node with another one that may send in batches of 48, a thousand of which may wait. -/
def roomySettings : Settings :=
  ({ pairedSettings with batchSize := 48, bufferSize := 512 } : Settings).withDepth 1000

/-- The queue of a peer is made when the first record is forwarded to it. It has all the room that
is asked for in a memory for a million records, and the node stops in one for fewer than that. -/
theorem queues_have_asked_room_unless_stopped_roomy :
    let node := (idle roomySettings true (.changing ["10.0.0.2"] []) fun _ => some false).operateAll
      [.register "p" "x" ["id"] (.ok ()), .forward 0 [testRecord "a"]]
    roomySettings.validate = .ok () ∧ roomySettings.batchingQueueCapacity? = some 48000
      ∧ node.hasStopped 1000000 = false ∧ node.hasStopped 47999 = true
      ∧ ∃ registration ∈ node.registrations, ∃ sender ∈ registration.sender,
        ∃ queue, ("10.0.0.2", queue) ∈ sender.outbox.queues
          ∧ queue.records = [testRecord "a"] ∧ queue.capacity = 48000 := by
  intro node
  have hvalid : roomySettings.validate = .ok () := rfl
  have hasked : roomySettings.askedRoom = 48000 := by decide
  obtain ⟨-, -, hruns, -⟩ := queues_have_asked_room_unless_stopped hvalid
  have hnode : node = ((ofOnePeer roomySettings).forward 0 [testRecord "a"]).2 := rfl
  have hfirst := ofOnePeer_eq (show roomySettings.arePeersConfigured = true from rfl)
  have howner (key : CompositeKey) :
      (ofOnePeer roomySettings).peerRing.owner? key = some "10.0.0.2" := by
    rw [hfirst]
    exact owner?_ringOfOne key
  have hbatch : roomySettings.batchSize ≠ 1 := by decide
  obtain ⟨-, sender, hqueue, hregistrations⟩ :=
    forward_first hbatch (by rw [hfirst]) howner (by rw [hfirst]; rfl) (testRecord "a")
  rw [← hnode] at hregistrations
  have hmade : ("10.0.0.2", sender.outbox.queue "10.0.0.2") ∈ sender.outbox.queues := by
    refine (sender.outbox.queue_eq_empty_or_mem "10.0.0.2").resolve_left fun hempty => ?_
    rw [hempty] at hqueue
    exact nomatch hqueue
  have hmem : (⟨newBuffer roomySettings "p" "x", some sender⟩ : Registration)
      ∈ node.registrations := by
    rw [hregistrations]
    exact .head _
  have hroomy : node.hasStopped 1000000 = false := by
    refine Bool.eq_false_iff.mpr fun hstops => ?_
    obtain ⟨registration, -, hbuffer | ⟨sender, -, hlarge | ⟨-, hmemory⟩⟩⟩ :=
      (hruns 1000000 _ _ _ _).1.mp hstops
    · exact absurd hbuffer (by decide)
    · exact absurd hlarge (by decide)
    · exact absurd hmemory (by decide)
  refine ⟨hvalid, by decide, hroomy, (hruns 47999 _ _ _ _).1.mpr ?_, _, hmem, sender, rfl, _, hmade,
    hqueue, ?_⟩
  · exact ⟨_, hmem, .inr ⟨sender, rfl, .inr ⟨List.ne_nil_of_mem hmade, by decide⟩⟩⟩
  · exact ((hruns 1000000 _ _ _ _).2 hroomy _ hmem sender rfl _ hmade).trans hasked

def boundlessSettings : Settings :=
  ({ pairedSettings with batchSize := 3 } : Settings).withDepth 6148914691236517206

/-- The settings are valid, but there is no computed room: however large the memory is, a node with
another one has stopped once a stage is registered. -/
theorem valid_settings_without_room :
    boundlessSettings.validate = .ok ()
      ∧ boundlessSettings.askedRoom = 18446744073709551618
      ∧ boundlessSettings.batchingQueueCapacity? = none
      ∧ (ofOnePeer boundlessSettings).registrations.length = 1
      ∧ ∀ memory, (ofOnePeer boundlessSettings).hasStopped memory = true := by
  have hfirst := ofOnePeer_eq (show boundlessSettings.arePeersConfigured = true from rfl)
  have hnone : boundlessSettings.batchingQueueCapacity? = none := by decide
  refine ⟨rfl, by decide, hnone, by rw [hfirst]; rfl, fun memory => ?_⟩
  rw [hasStopped, hfirst, List.all_cons, Registration.isWithin, Option.map_some, Option.getD_some,
    Outbox.isWithin, Outbox.empty, hnone]
  simp

end Relay

end RecordRelay
