import RecordRelay.Proofs.Relay.Consumption
import RecordRelay.Proofs.Ring.Rebuild

/-! A record waits in the queue of its owner until it fills a batch. As long as the peers stay and
the dispatch pool is not shut down, its owner is on the ring and its pool takes jobs: the queues
only change when records are forwarded, and these are owned by peers of the ring as it is. -/
namespace RecordRelay

namespace Registration

/-- Whatever happens to a registration, the queues of its outbox only change when it forwards
records. -/
theorem Changes.sender {routing : Routing} {registration later : Registration}
    {written : List Record} {received : List (List Record)}
    (h : Changes routing registration written received later) {next : Sender}
    (hnext : next ∈ later.sender) :
    ∃ sender ∈ registration.sender, next.pool = sender.pool
      ∧ ((∃ counters, next.outbox = { sender.outbox with counters })
        ∨ ∃ index records pool,
          next.outbox = (sender.outbox.forward routing index records pool).2.1) := by
  -- Everything else only counts.
  have hmapped {change : Outbox → Outbox}
      (hcounters : ∀ outbox, ∃ counters, change outbox = { outbox with counters })
      {registration : Registration} {next : Sender}
      (hnext : next ∈ (registration.mapOutbox change).sender) :
      ∃ sender ∈ registration.sender, next.pool = sender.pool
        ∧ ∃ counters, next.outbox = { sender.outbox with counters } := by
    obtain ⟨sender, hsender, rfl⟩ := Option.map_eq_some_iff.mp hnext
    exact ⟨sender, hsender, rfl, hcounters sender.outbox⟩
  cases h with
  | nothing => exact ⟨next, hnext, rfl, .inl ⟨_, rfl⟩⟩
  | stored records => exact ⟨next, hnext, rfl, .inl ⟨_, rfl⟩⟩
  | forwarded index records pool =>
    obtain rfl := Option.mem_some.mp hnext
    exact ⟨_, rfl, rfl, .inr ⟨index, records, pool, rfl⟩⟩
  | received now =>
    cases hsender : registration.sender with
    | none =>
      rw [receive_of_alone hsender, hsender] at hnext
      exact nomatch hnext
    | some sender =>
      rw [receive, hsender] at hnext
      obtain ⟨held, hheld, hpool, hcounted⟩ := hmapped (fun _ => ⟨_, rfl⟩) hnext
      exact ⟨held, hheld, hpool, .inl hcounted⟩
  | completed patience outcome records =>
    have hsettled (outbox : Outbox) :
        ∃ counters, Outbox.settle outcome records.length outbox = { outbox with counters } :=
      ⟨_, rfl⟩
    rw [complete, fallBack] at hnext
    split_ifs at hnext
    · obtain ⟨held, hheld, hpool, hcounted⟩ := hmapped hsettled hnext
      exact ⟨held, hheld, hpool, .inl hcounted⟩
    · split at hnext
      · obtain ⟨held, hheld, hpool, hcounted⟩ := hmapped hsettled hnext
        exact ⟨held, hheld, hpool, .inl hcounted⟩
      · obtain ⟨between, hbetween, hpool, counters, heq⟩ := hmapped (fun _ => ⟨_, rfl⟩) hnext
        obtain ⟨held, hheld, hpool', counters', heq'⟩ := hmapped hsettled hbetween
        exact ⟨held, hheld, hpool.trans hpool', .inl ⟨counters, by rw [heq, heq']⟩⟩

end Registration

namespace PeerRing

theorem mem_peers_of_owner? {virtualNodes : Nat} {peerRing : PeerRing} {key : CompositeKey}
    {address : String} (h : Orderly virtualNodes peerRing.ring)
    (howner : peerRing.owner? key = some address) : address ∈ peerRing.peers := by
  obtain ⟨-, hnode⟩ := (owner?_eq_some_iff h).mp howner
  exact (mem_peers h.settled).mpr ⟨_, _, hnode, Node.named_name address⟩

end PeerRing

namespace Outbox

/-- Records only join the queues of their owners. -/
theorem queues_forward {routing : Routing} {outbox : Outbox} {P : String → Prop}
    (hqueues : ∀ entry ∈ outbox.queues, ∀ record ∈ entry.2.records, P entry.1)
    (howners : ∀ record address, routing.ownerOf outbox.keys record = some address → P address)
    (index : Nat) (records : List Record) (pool : Pool) :
    ∀ entry ∈ (outbox.forward routing index records pool).2.1.queues,
      ∀ record ∈ entry.2.records, P entry.1 := by
  have hrouted := routed_forward routing index records outbox pool
  have hgroups : ∀ group ∈ leaving routing (groupByOwner (routing.ownerOf outbox.keys) records),
      ∀ record ∈ group.2, P group.1 := by
    intro group hgroup record hrecord
    obtain ⟨-, howner⟩ := owner_of_mem_groupByOwner _ (mem_leaving hgroup).1 hrecord
    exact howners record group.1 howner
  rw [hrouted.outbox_eq]
  exact (cutAll_forall (P := fun address _ => P address) hqueues hgroups).2

end Outbox

namespace Relay

/-- Some record waits to be sent to somebody who is not on the ring, or with a pool that takes no
jobs. -/
def Strands (relay : Relay) : Prop :=
  ∃ registration ∈ relay.registrations, ∃ sender ∈ registration.sender, ∃ destination,
    (sender.outbox.queue destination).records ≠ []
      ∧ ¬ (destination ∈ relay.peerRing.peers
        ∧ ∃ pool ∈ relay.pools[sender.pool]?, pool.accepting = true)

/-- An operation that changes the peers or shuts the dispatch pool down. -/
def Operation.Disturbs : Operation → Prop
  | .updatePeers _ | .shutDown => True
  | _ => False

variable {relay next : Relay} {operation : Operation}

/-- Which dispatch pools take jobs, and the one that new registrations get. -/
def dispatch (relay : Relay) : List Bool × Option Nat :=
  (relay.pools.map Pool.accepting, relay.currentPool)

theorem dispatch_openRing (relay : Relay) : relay.openRing.dispatch = relay.dispatch := by
  rw [openRing]
  split <;> rfl

theorem dispatch_accept (relay : Relay) (payload : List UInt8) :
    (relay.accept payload).2.dispatch = relay.dispatch := by
  rcases relay.accept_cases payload with ⟨status, -, heq⟩ | ⟨_, _, _, _, -, -, -, -, heq⟩ <;>
    rw [heq] <;> rfl

theorem dispatch_receive (relay : Relay) (index : Nat) (now : Nanoseconds) :
    (relay.receive index now).2.dispatch = relay.dispatch := by
  rw [receive]
  split <;> rfl

theorem dispatch_complete (relay : Relay) (job : Job) (outcome : Outcome) :
    (relay.complete job outcome).dispatch = relay.dispatch := by
  rw [complete]
  split <;> rfl

theorem dispatch_setPool {index : Nat} {pool after : Pool} (hget : relay.pools[index]? = some pool)
    (haccepting : after.accepting = pool.accepting) :
    dispatch { relay with pools := relay.pools.set index after } = relay.dispatch :=
  Prod.ext (map_set_of_eq _ hget haccepting) rfl

theorem dispatch_forward (relay : Relay) (index : Nat) (records : List Record) :
    (relay.forward index records).2.dispatch = relay.dispatch := by
  rw [Relay.forward]
  split
  next buffer sender hget =>
    cases hfound : relay.pools[sender.pool]? with
    | none =>
      have hsame (pool : Pool) : relay.pools.set sender.pool pool = relay.pools :=
        List.set_eq_of_length_le (List.getElem?_eq_none_iff.mp hfound)
      exact Prod.ext (congrArg (List.map Pool.accepting) (hsame _)) rfl
    | some pool =>
      obtain ⟨accepted, hpool, -⟩ := Outbox.exists_accepted_forward relay.routing index records
        sender.outbox pool
      exact dispatch_setPool hfound (by rw [Option.getD_some, hpool])
  next => rfl

theorem dispatch_takeJob {pool : Nat} {job : Job} (h : relay.takeJob pool = some (job, next)) :
    next.dispatch = relay.dispatch := by
  obtain ⟨found, after, hfound, htaken, rfl⟩ := takeJob_eq_some h
  obtain ⟨rest, -, rfl⟩ := Pool.take_eq_some htaken
  exact dispatch_setPool hfound rfl

theorem dispatch_finishJob {pool place : Nat} {job : Job}
    (h : relay.finishJob pool place = some (job, next)) : next.dispatch = relay.dispatch := by
  obtain ⟨found, after, hfound, hdone, rfl⟩ := finishJob_eq_some h
  obtain ⟨-, rfl⟩ := Pool.finish_eq_some hdone
  exact dispatch_setPool hfound rfl

/-- Every dispatch pool takes jobs, and the one for new registrations exists. -/
structure Dispatching (relay : Relay) : Prop where
  accepting : ∀ pool ∈ relay.pools, pool.accepting = true
  current : ∀ pool ∈ relay.currentPool, pool < relay.pools.length

theorem Dispatching.of_dispatch_eq (h : relay.Dispatching)
    (hsame : next.dispatch = relay.dispatch) :
    next.Dispatching ∧ relay.pools.length ≤ next.pools.length := by
  obtain ⟨hpools, hcurrent⟩ := Prod.mk.inj hsame
  have hlength : next.pools.length = relay.pools.length := by
    simpa using congrArg List.length hpools
  refine ⟨⟨fun pool hpool => ?_, fun pool hpool => ?_⟩, hlength.ge⟩
  · have haccepting := List.mem_map_of_mem (f := Pool.accepting) hpool
    rw [hpools] at haccepting
    obtain ⟨old, hold, heq⟩ := List.mem_map.mp haccepting
    rw [← heq]
    exact h.accepting old hold
  · rw [hlength]
    exact h.current pool (hcurrent ▸ hpool)

theorem Dispatching.openPool {launch : Except String Unit} {index : Nat} (h : relay.Dispatching)
    (hopen : relay.openPool launch = .ok (index, next)) :
    next.Dispatching ∧ relay.pools.length ≤ next.pools.length ∧ index < next.pools.length := by
  obtain ⟨hcurrent, rfl⟩ | ⟨rfl, rfl⟩ := openPool_cases hopen
  · exact ⟨h, le_rfl, h.current index hcurrent⟩
  · simp only [List.length_append, List.length_singleton]
    refine ⟨⟨fun pool hpool => ?_, ?_⟩, Nat.le_succ _, Nat.lt_succ_self _⟩
    · rcases List.mem_append.mp hpool with hold | hnew
      · exact h.accepting pool hold
      · rw [List.mem_singleton.mp hnew]
        rfl
    · rintro _ ⟨⟩
      simp

theorem Dispatching.register {pipeline plugin : String} {keys : List String}
    {launch : Except String Unit} {index : Nat} (h : relay.Dispatching)
    (hregister : relay.register pipeline plugin keys launch = .ok (index, next)) :
    next.Dispatching ∧ relay.pools.length ≤ next.pools.length := by
  obtain ⟨-, ⟨-, heq⟩ | ⟨-, pool, opened, hopen, heq⟩⟩ := register_cases hregister
  · obtain ⟨-, rfl⟩ := Prod.mk.inj heq
    exact h.of_dispatch_eq rfl
  · obtain ⟨-, rfl⟩ := Prod.mk.inj heq
    obtain ⟨hopened, hlength, -⟩ := h.openPool hopen
    obtain ⟨hdispatching, hmore⟩ := hopened.of_dispatch_eq opened.dispatch_openRing
    exact ⟨⟨hdispatching.accepting, hdispatching.current⟩, hlength.trans hmore⟩

/-- Unless a pool is shut down, a node keeps its pools and they take jobs. -/
theorem Dispatching.operate (h : relay.Dispatching) (hundisturbed : ¬ operation.Disturbs) :
    (relay.operate operation).Dispatching
      ∧ relay.pools.length ≤ (relay.operate operation).pools.length := by
  have hasked (hasks : operation.Asks) : (relay.operate operation).Dispatching
      ∧ relay.pools.length ≤ (relay.operate operation).pools.length := by
    rcases relay.operate_of_asks hasks with
      hsame | ⟨pipeline, plugin, keys, launch, index, hregister⟩
    · exact h.of_dispatch_eq (congrArg dispatch hsame)
    · exact h.register hregister
  cases operation with
  | register | registerInstances => exact hasked trivial
  | openRing => exact h.of_dispatch_eq relay.dispatch_openRing
  | updatePeers | shutDown => exact absurd trivial hundisturbed
  | accept payload => exact h.of_dispatch_eq (relay.dispatch_accept payload)
  | forward index records => exact h.of_dispatch_eq (relay.dispatch_forward index records)
  | receive index now => exact h.of_dispatch_eq (relay.dispatch_receive index now)
  | takeJob pool =>
    rw [Relay.operate]
    cases htake : relay.takeJob pool with
    | none => exact ⟨h, le_rfl⟩
    | some result => exact h.of_dispatch_eq (dispatch_takeJob htake)
  | finishJob pool place outcome =>
    rw [Relay.operate]
    cases hfinish : relay.finishJob pool place with
    | none => exact ⟨h, le_rfl⟩
    | some result =>
      exact h.of_dispatch_eq
        ((result.2.dispatch_complete result.1 outcome).trans (dispatch_finishJob hfinish))

theorem openRing_of_isSome (h : relay.ring.isSome = true) : relay.openRing = relay := by
  obtain ⟨index, hring⟩ := Option.isSome_iff_exists.mp h
  rw [openRing, hring]

theorem isSome_ring_openRing (relay : Relay) : relay.openRing.ring.isSome = true := by
  rw [openRing]
  split
  next index hring => rw [hring]; rfl
  next => rfl

/-- The own ring of a node is one of addresses. -/
def RingOrderly (relay : Relay) : Prop :=
  PeerRing.Orderly relay.peerRing.virtualNodes relay.peerRing.ring

theorem RingOrderly.openRing (h : relay.RingOrderly) : relay.openRing.RingOrderly := by
  rw [Relay.openRing]
  cases hring : relay.ring with
  | some index => exact h
  | none =>
    obtain ⟨ring, hfound, hor⟩ := relay.following.ring?_addRing PeerRing.defaultVirtualNodes
    have hmade := PeerRing.orderly_follow PeerRing.defaultVirtualNodes
      [relay.following.source.peers]
    simp only [RingOrderly, peerRing, Option.bind_some, hfound]
    rcases hor with rfl | rfl
    · exact hmade
    · exact hmade.update _

theorem peerRing_of_fleetView_eq (h : next.fleetView = relay.fleetView) :
    next.peerRing = relay.peerRing ∧ next.ring = relay.ring := by
  obtain ⟨-, hrest⟩ := Prod.mk.inj h
  obtain ⟨hfollowing, hrest⟩ := Prod.mk.inj hrest
  obtain ⟨hring, -⟩ := Prod.mk.inj hrest
  exact ⟨by rw [peerRing, peerRing, hring, hfollowing], hring⟩

theorem fleetView_openRing_congr (h : next.fleetView = relay.fleetView) :
    next.openRing.fleetView = relay.openRing.fleetView := by
  obtain ⟨hsettings, hrest⟩ := Prod.mk.inj h
  obtain ⟨hfollowing, hrest⟩ := Prod.mk.inj hrest
  obtain ⟨hring, hresolver⟩ := Prod.mk.inj hrest
  rw [openRing, openRing, hring]
  cases relay.ring with
  | some index => exact h
  | none => simp only [fleetView, hsettings, hfollowing, hresolver]

theorem fleetView_register {pipeline plugin : String} {keys : List String}
    {launch : Except String Unit} {index : Nat}
    (h : relay.register pipeline plugin keys launch = .ok (index, next)) :
    next.fleetView = relay.fleetView ∨ next.fleetView = relay.openRing.fleetView := by
  obtain ⟨-, ⟨-, heq⟩ | ⟨-, pool, opened, hopen, heq⟩⟩ := register_cases h
  · obtain ⟨-, rfl⟩ := Prod.mk.inj heq
    exact .inl rfl
  · obtain ⟨-, rfl⟩ := Prod.mk.inj heq
    exact .inr (fleetView_openRing_congr (fleetView_openPool hopen))

/-- Unless the peers change, a node learns no more of its fleet than by making its ring. -/
theorem fleetView_operate (h : ¬ operation.Disturbs) :
    (relay.operate operation).fleetView = relay.fleetView
      ∨ (relay.operate operation).fleetView = relay.openRing.fleetView := by
  have hasked (hasks : operation.Asks) : (relay.operate operation).fleetView = relay.fleetView
      ∨ (relay.operate operation).fleetView = relay.openRing.fleetView := by
    rcases relay.operate_of_asks hasks with
      hsame | ⟨pipeline, plugin, keys, launch, index, hregister⟩
    · exact .inl (congrArg fleetView hsame)
    · exact fleetView_register hregister
  cases operation with
  | register | registerInstances => exact hasked trivial
  | openRing => exact .inr rfl
  | updatePeers peers => exact absurd trivial h
  | accept payload => exact .inl (relay.fleetView_accept payload)
  | forward index records => exact .inl (relay.fleetView_forward index records)
  | receive index now => exact .inl (relay.fleetView_receive index now)
  | takeJob pool =>
    rw [operate]
    cases htake : relay.takeJob pool with
    | none => exact .inl rfl
    | some result => exact .inl (fleetView_takeJob htake)
  | finishJob pool place outcome =>
    rw [operate]
    cases hfinish : relay.finishJob pool place with
    | none => exact .inl rfl
    | some result =>
      exact .inl
        ((result.2.fleetView_complete result.1 outcome).trans (fleetView_finishJob hfinish))
  | shutDown => exact absurd trivial h

theorem RingOrderly.operate (h : relay.RingOrderly) (hundisturbed : ¬ operation.Disturbs) :
    (relay.operate operation).RingOrderly := by
  rw [RingOrderly]
  rcases relay.fleetView_operate hundisturbed with heq | heq
  · rw [(peerRing_of_fleetView_eq heq).1]
    exact h
  · rw [(peerRing_of_fleetView_eq heq).1]
    exact h.openRing

/-- Nothing that waits with a sender is left behind: the sender has a dispatch pool, and records
wait for peers of the ring only. -/
structure Serves (relay : Relay) (sender : Sender) : Prop where
  opened : relay.ring.isSome = true
  pool : sender.pool < relay.pools.length
  peers : ∀ entry ∈ sender.outbox.queues, ∀ record ∈ entry.2.records,
    entry.1 ∈ relay.peerRing.peers

variable {registration later : Registration} {sender : Sender}

/-- Where the ring and the dispatch pools stay, senders are served as before. -/
theorem Serves.of_fleetView_eq (h : relay.Serves sender)
    (hfleetView : next.fleetView = relay.fleetView)
    (hpools : relay.pools.length ≤ next.pools.length) : next.Serves sender := by
  obtain ⟨hpeerRing, hring⟩ := peerRing_of_fleetView_eq hfleetView
  exact ⟨hring ▸ h.opened, h.pool.trans_le hpools, hpeerRing ▸ h.peers⟩

theorem Serves.operate (h : relay.Serves sender) (hdispatching : relay.Dispatching)
    (hundisturbed : ¬ operation.Disturbs) : (relay.operate operation).Serves sender := by
  have hfleetView : (relay.operate operation).fleetView = relay.fleetView := by
    rcases relay.fleetView_operate hundisturbed with heq | heq
    · exact heq
    · rw [heq, openRing_of_isSome h.opened]
  exact h.of_fleetView_eq hfleetView (hdispatching.operate hundisturbed).2

/-- Whatever happens to a registration, its records wait for peers of the ring. -/
theorem Serves.changes {written : List Record} {received : List (List Record)}
    (h : ∀ sender ∈ registration.sender, relay.Serves sender) (hring : relay.RingOrderly)
    (hchanges : Registration.Changes relay.routing registration written received later)
    (hsender : sender ∈ later.sender) : relay.Serves sender := by
  obtain ⟨held, hheld, hpool, hchanged⟩ := hchanges.sender hsender
  have hserves := h held hheld
  refine ⟨hserves.opened, hpool ▸ hserves.pool, ?_⟩
  rcases hchanged with ⟨counters, heq⟩ | ⟨index, records, pool, heq⟩
  · rw [heq]
    exact hserves.peers
  · -- Records are given to owners on the ring as it is, whatever waited before.
    have howners (record : Record) (address : String)
        (howner : relay.routing.ownerOf held.outbox.keys record = some address) :
        address ∈ relay.peerRing.peers := PeerRing.mem_peers_of_owner? hring howner
    rw [heq]
    exact Outbox.queues_forward hserves.peers howners index records pool

/-- A new registration has the pool that was there or made, and the ring of the node. -/
theorem serves_of_register {pipeline plugin : String} {keys : List String}
    {launch : Except String Unit} {index : Nat} (hdispatching : relay.Dispatching)
    (hregister : relay.register pipeline plugin keys launch = .ok (index, next)) :
    ∃ registration, next.registrations = relay.registrations ++ [registration]
      ∧ ∀ sender ∈ registration.sender, next.Serves sender := by
  obtain ⟨-, ⟨-, heq⟩ | ⟨-, pool, opened, hopen, heq⟩⟩ := register_cases hregister
  · obtain ⟨-, rfl⟩ := Prod.mk.inj heq
    exact ⟨_, rfl, fun _ hnone => nomatch hnone⟩
  · obtain ⟨-, rfl⟩ := Prod.mk.inj heq
    obtain ⟨hopened, -, hpool⟩ := hdispatching.openPool hopen
    have hsame : opened.openRing.registrations = relay.registrations :=
      (registrations_openRing opened).trans (registrations_openPool hopen)
    refine ⟨_, congrArg (· ++ [_]) hsame, ?_⟩
    rintro sender ⟨⟩
    exact ⟨opened.isSome_ring_openRing,
      hpool.trans_le (hopened.of_dispatch_eq opened.dispatch_openRing).2,
      fun _ hentry => nomatch hentry⟩

/-- A node at which no record is left behind. -/
structure Served (relay : Relay) : Prop where
  dispatching : relay.Dispatching
  ring : relay.RingOrderly
  serves : ∀ registration ∈ relay.registrations, ∀ sender ∈ registration.sender,
    relay.Serves sender

theorem Served.operate (h : relay.Served) (hdistinct : relay.keys.Nodup)
    (hundisturbed : ¬ operation.Disturbs) : (relay.operate operation).Served where
  dispatching := (h.dispatching.operate hundisturbed).1
  ring := h.ring.operate hundisturbed
  serves := by
    intro later hlater sender hsender
    by_cases hasked : ∃ result, relay.ask operation = .ok (some result)
    · obtain ⟨⟨index, next⟩, hask⟩ := hasked
      obtain ⟨pipeline, plugin, keys, launch, -, hregister⟩ := register_of_ask hask
      obtain ⟨registration, hsame, hserves⟩ := serves_of_register h.dispatching hregister
      rw [operate_of_ask hask, hsame] at hlater
      rcases List.mem_append.mp hlater with hold | hnew
      · exact (h.serves later hold sender hsender).operate h.dispatching hundisturbed
      · rw [operate_of_ask hask]
        exact hserves sender (List.mem_singleton.mp hnew ▸ hsender)
    · -- Without a new registration, every one comes from the one in its place.
      obtain ⟨index, hget⟩ := List.mem_iff_getElem?.mp hlater
      have hlt := (List.getElem?_eq_some_iff.mp hget).1
      rw [length_operate (not_exists.mp hasked)] at hlt
      obtain ⟨found, hfound, hchanges⟩ :=
        exists_changes hdistinct (List.getElem?_eq_getElem hlt) operation
      obtain rfl := Option.some.inj (hfound.symm.trans hget)
      have hserves := Serves.changes (h.serves _ (List.getElem_mem hlt)) h.ring hchanges hsender
      exact hserves.operate h.dispatching hundisturbed

section Idle

variable (settings : Settings) (hasClient : Bool) (source : PeerSource Follower)
  (isLocal? : String → Option Bool) {operations : List Operation}

theorem served_idle : (idle settings hasClient source isLocal?).Served where
  dispatching := ⟨nofun, nofun⟩
  ring := PeerRing.orderly_follow PeerRing.defaultVirtualNodes [source.peers]
  serves := nofun

theorem served_operateAll (h : ∀ operation ∈ operations, ¬ operation.Disturbs) :
    ((idle settings hasClient source isLocal?).operateAll operations).Served := by
  induction operations using List.reverseRecOn with
  | nil => exact served_idle settings hasClient source isLocal?
  | append_singleton operations last ih =>
    rw [List.forall_mem_append, List.forall_mem_singleton] at h
    rw [operateAll_concat]
    exact (ih h.1).operate (nodup_keys_operateAll settings hasClient source isLocal? operations) h.2

end Idle

/-- Where every sender is served, no record is left behind. -/
theorem Served.not_strands (h : relay.Served) : ¬ relay.Strands := by
  rintro ⟨registration, hmem, sender, hsender, destination, hrecords, hstranded⟩
  have hserves := h.serves registration hmem sender hsender
  refine hstranded ⟨?_, _, List.getElem?_eq_getElem hserves.pool,
    h.dispatching.accepting _ (List.getElem_mem hserves.pool)⟩
  rcases sender.outbox.queue_eq_empty_or_mem destination with hempty | hentry
  · exact absurd (congrArg BatchingQueue.records hempty) hrecords
  · obtain ⟨record, hrecord⟩ := List.exists_mem_of_ne_nil _ hrecords
    exact hserves.peers _ hentry record hrecord

end Relay
end RecordRelay
