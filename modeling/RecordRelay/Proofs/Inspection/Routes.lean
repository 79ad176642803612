import RecordRelay.Inspection.Route
import RecordRelay.Proofs.Forwarding.Batches
import RecordRelay.Proofs.Inspection.KeyArguments
import RecordRelay.Proofs.Relay.Undisturbed

/-! A route is asked for with arguments, and a stage sorts its records by their identification keys.
Both come to the same owner, and the route is local exactly if the stage does not send the record. A
route that is asked for before anything is registered is that of the stage to come. -/
namespace RecordRelay

/-- Whatever comes of the records, the outbox sorts by the same keys as before. -/
theorem Outbox.keys_forward (outbox : Outbox) (routing : Routing) (index : Nat)
    (records : List Record) (pool : Pool) :
    (outbox.forward routing index records pool).2.1.keys = outbox.keys := by
  obtain ⟨turns, htakes, -⟩ := Outbox.takes_routeAll routing index
    (groupByOwner (routing.ownerOf outbox.keys) records) outbox pool
  obtain ⟨queues, counters, hkind⟩ := htakes.sameKind
  rw [Outbox.forward, hkind]

theorem Routing.isLocal_iff (routing : Routing) (owner : Option String) :
    routing.isLocal owner = true ↔ owner = none ∨ ∃ address, owner = some address
      ∧ (routing.isLocal? address = some true ∨ routing.isLocal? address = none) := by
  cases owner with
  | none => simp [isLocal]
  | some address =>
    rw [isLocal, staysAt]
    cases hresolved : routing.isLocal? address <;> simp [hresolved]

namespace Registration

/-- The keys by which the records of a stage are sorted, if any are sent. -/
def sortedBy (registration : Registration) : Option (List String) :=
  registration.sender.map fun sender => sender.outbox.keys

theorem sortedBy_mapOutbox (change : Outbox → Outbox) (registration : Registration)
    (hchange : ∀ outbox, (change outbox).keys = outbox.keys) :
    (registration.mapOutbox change).sortedBy = registration.sortedBy := by
  rw [sortedBy, mapOutbox, Option.map_map]
  exact congrArg (registration.sender.map ·) (funext fun sender => hchange sender.outbox)

theorem Changes.sortedBy_eq {routing : Routing} {registration later : Registration}
    {written : List Record} {received : List (List Record)}
    (h : Changes routing registration written received later) :
    later.sortedBy = registration.sortedBy := by
  cases h with
  | nothing | stored => rfl
  | received now =>
    rw [receive]
    split
    · rfl
    · exact sortedBy_mapOutbox (Outbox.countReceived _) _ fun _ => rfl
  | forwarded index records pool => exact congrArg some (Outbox.keys_forward ..)
  | completed patience outcome records =>
    have hsettled := sortedBy_mapOutbox (Outbox.settle outcome records.length) registration
      fun _ => rfl
    rw [complete, fallBack]
    split_ifs
    · exact hsettled
    · split
      · exact hsettled
      · exact (sortedBy_mapOutbox (Outbox.countDropped records.length) _ fun _ => rfl).trans
          hsettled

end Registration

namespace Relay

variable {relay next : Relay} {index : Nat} {registration : Registration}

/-- Whatever happens at a node, a stage sorts its records by the keys that it was registered
with. -/
theorem exists_sortedBy_operateAll (hdistinct : relay.keys.Nodup)
    (h : relay.registrations[index]? = some registration) (operations : List Operation) :
    (relay.operateAll operations).keys.Nodup
      ∧ ∃ later, (relay.operateAll operations).registrations[index]? = some later
        ∧ later.sortedBy = registration.sortedBy := by
  induction operations using List.reverseRecOn with
  | nil => exact ⟨hdistinct, registration, h, rfl⟩
  | append_singleton operations last ih =>
    obtain ⟨hkeys, between, hbetween, hsorted⟩ := ih
    obtain ⟨later, hlater, hchanges⟩ := exists_changes hkeys hbetween last
    rw [operateAll_concat]
    exact ⟨nodup_keys_operate hkeys last, later, hlater, hchanges.sortedBy_eq.trans hsorted⟩

end Relay

/-- A ring that hears again of the list that it was made of stays as it is. -/
theorem PeerRing.alike_update_ofPeers (virtualNodes : Nat) (peers : List String) :
    ((ofPeers virtualNodes peers).update peers).Alike (ofPeers virtualNodes peers) := by
  have horderly := orderly_follow virtualNodes [peers]
  refine alike_of_node?_eq (orderly_follow virtualNodes [peers, peers]) horderly fun id => ?_
  have hnode : ((ofPeers virtualNodes peers).update peers).ring.node? id
      = if ∃ address ∈ addresses peers, NodeId.ofName address = id then
          ((ofPeers virtualNodes peers).ring.node? id).or
            (((addresses peers).map Node.named).find? fun node => node.id = id)
        else none := node?_update horderly peers id
  rw [hnode, ofPeers, node?_update (orderly_empty virtualNodes)]
  split_ifs
  · rw [Option.or_assoc, Option.or_self]
  · rfl

namespace Relay

variable {relay next : Relay}

theorem owner?_openRing (relay : Relay) (key : CompositeKey) :
    relay.openRing.peerRing.owner? key = relay.peerRing.owner? key := by
  rw [openRing]
  cases hring : relay.ring with
  | some index => rfl
  | none =>
    obtain ⟨ring, hfound, hor⟩ := relay.following.ring?_addRing PeerRing.defaultVirtualNodes
    simp only [peerRing, hring, Option.bind_some, hfound, Option.bind_none]
    rcases hor with rfl | rfl
    · rfl
    · exact (PeerRing.alike_update_ofPeers _ _).owner key

/-- Where a record belongs whose stage sorts it by some keys. -/
def routeOf (relay : Relay) (keys : List String) (record : Record) : Route :=
  let peer := relay.routing.ownerOf keys record
  ⟨peer, relay.routing.isLocal peer, peer.map relay.settings.peerUri⟩

theorem route_eq_routeOf {keys arguments : List String} {record : Record}
    (hwritable : ∀ key ∈ keys, KeyArguments.Writable key)
    (harguments : arguments.Perm ((sortedSet keys).map (KeyArguments.ofRecord record)))
    (relay : Relay) : relay.route arguments = .ok (relay.routeOf (sortedSet keys) record) := by
  rw [route, KeyArguments.compositeKey_eq hwritable record harguments]
  rfl

theorem routeOf_congr (howner : ∀ key, next.peerRing.owner? key = relay.peerRing.owner? key)
    (hresolver : next.isLocal? = relay.isLocal?) (hsettings : next.settings = relay.settings)
    (keys : List String) (record : Record) :
    next.routeOf keys record = relay.routeOf keys record := by
  have hrouting : next.routing = relay.routing := by
    rw [routing, routing, Routing.ofRing, Routing.ofRing, funext howner, hresolver]
  rw [routeOf, routeOf, hrouting, hsettings]

theorem routeOf_of_fleetView_eq (h : next.fleetView = relay.fleetView) (keys : List String)
    (record : Record) : next.routeOf keys record = relay.routeOf keys record := by
  have hring := (peerRing_of_fleetView_eq h).1
  obtain ⟨hsettings, hrest⟩ := Prod.mk.inj h
  obtain ⟨-, hrest⟩ := Prod.mk.inj hrest
  exact routeOf_congr (fun key => by rw [hring]) (Prod.mk.inj hrest).2 hsettings keys record

theorem routeOf_openRing (relay : Relay) (keys : List String) (record : Record) :
    relay.openRing.routeOf keys record = relay.routeOf keys record := by
  refine routeOf_congr relay.owner?_openRing ?_ relay.settings_openRing keys record
  rw [openRing]
  split <;> rfl

/-- A registration changes no route. -/
theorem routeOf_register {pipeline plugin : String} {asked : List String}
    {launch : Except String Unit} {index : Nat}
    (h : relay.register pipeline plugin asked launch = .ok (index, next)) (keys : List String)
    (record : Record) : next.routeOf keys record = relay.routeOf keys record := by
  rcases fleetView_register h with hsame | hopened
  · exact routeOf_of_fleetView_eq hsame keys record
  · rw [routeOf_of_fleetView_eq hopened, routeOf_openRing]

/-- A stage that sends records does with a record what its route says, whatever other records come
with it. -/
structure BearsOut (relay : Relay) (index : Nat) (outbox : Outbox) (record : Record)
    (route : Route) : Prop where
  grouped : ∀ records, record ∈ records →
    ∃ group ∈ groupByOwner (relay.routing.ownerOf outbox.keys) records,
      group.1 = route.peer ∧ record ∈ group.2
  /-- No other group has the record. -/
  alone : ∀ records, ∀ group ∈ groupByOwner (relay.routing.ownerOf outbox.keys) records,
    record ∈ group.2 → group.1 = route.peer
  isLocal_iff : route.isLocal = true ↔ route.peer = none ∨ ∃ address, route.peer = some address
    ∧ (relay.isLocal? address = some true ∨ relay.isLocal? address = none)
  /-- The stage keeps the record, when it forwards records, or queues it for its owner. -/
  forwarded : ∀ records, record ∈ records → ∃ turns next,
    Outbox.Takes relay.routing index
        (groupByOwner (relay.routing.ownerOf outbox.keys) records) outbox turns next
      ∧ (relay.forward index records).1 = turns.flatMap Outbox.Turn.returned
      ∧ (relay.forward index records).2.outbox? index = some next
      ∧ (route.isLocal = true ↔ record ∈ turns.flatMap Outbox.Turn.kept)

theorem mem_kept_iff {routing : Routing} {index : Nat} {owner : Record → Option String}
    {records : List Record} {outbox next : Outbox} {turns : List Outbox.Turn} {record : Record}
    (htakes : Outbox.Takes routing index (groupByOwner owner records) outbox turns next)
    (hmem : record ∈ records) :
    record ∈ turns.flatMap Outbox.Turn.kept ↔ routing.isLocal (owner record) = true := by
  have hperm : (Outbox.staying routing (groupByOwner owner records)).Perm
      (records.filter fun r => routing.isLocal (owner r)) :=
    Outbox.staying_perm (grouped_groupByOwner owner records) (groupByOwner_perm owner records)
  rw [htakes.kept_eq, hperm.mem_iff, List.mem_filter]
  exact and_iff_right hmem

theorem bearsOut_routeOf {buffer : ReceiveBuffer} {sender : Sender} {index : Nat}
    (h : relay.registrations[index]? = some ⟨buffer, some sender⟩) (record : Record) :
    relay.BearsOut index sender.outbox record (relay.routeOf sender.outbox.keys record) where
  grouped records hmem := by
    obtain ⟨group, hgroup, howner⟩ :=
      List.mem_map.mp ((grouped_groupByOwner _ records).covered record hmem)
    refine ⟨group, hgroup, howner, ?_⟩
    rw [(grouped_groupByOwner _ records).of_mem group hgroup]
    exact List.mem_filter.mpr ⟨hmem, decide_eq_true howner.symm⟩
  alone records group hgroup hmem := (owner_of_mem_groupByOwner _ hgroup hmem).2.symm
  isLocal_iff := relay.routing.isLocal_iff _
  forwarded records hmem := by
    obtain ⟨turns, htakes, hreturned, -⟩ := Outbox.takes_routeAll relay.routing index
      (groupByOwner (relay.routing.ownerOf sender.outbox.keys) records) sender.outbox
      (relay.pools[sender.pool]?.getD (.start 0 0))
    refine ⟨turns, _, htakes, ?_, ?_, (mem_kept_iff htakes hmem).symm⟩
    · rw [forward, h]
      exact hreturned
    · have hplace := (List.getElem?_eq_some_iff.mp h).1
      rw [forward, h, outbox?]
      simp only [List.getElem?_set_self hplace]
      rfl

/-- A registration that is made on a node with peers sorts records by its keys. -/
theorem sortedBy_of_register {pipeline plugin : String} {keys : List String}
    {launch : Except String Unit} {index : Nat} (hpeers : relay.settings.arePeersConfigured = true)
    (h : relay.register pipeline plugin keys launch = .ok (index, next)) :
    ∃ registration, next.registrations[index]? = some registration
      ∧ registration.sortedBy = some (sortedSet keys) := by
  obtain ⟨rfl, sender, hregistrations, hsends, hnew⟩ := registrations_register h
  rw [hpeers, Option.isSome_iff_exists] at hsends
  obtain ⟨held, rfl⟩ := hsends
  refine ⟨⟨newBuffer relay.settings pipeline plugin, some held⟩, ?_, ?_⟩
  · rw [hregistrations, List.getElem?_concat_length]
  · rw [Registration.sortedBy, Option.map_some, hnew held rfl]
    rfl

/-- Arguments with the values that a record has under the keys of a stage, in any order, tell what
the stage does with the record. They have a route, which is the same before the stage is registered.
Whatever happens at the node afterwards, the route at any time names the owner of the group that the
record is put in then, and is local exactly if the stage keeps the record: because nobody owns it,
or because the address of its owner leads here or nowhere. -/
theorem routes_agree_with_forwarding {settings : Settings} {hasClient : Bool}
    {source : Option (PeerSource Follower)} {isLocal? : String → Option Bool}
    {node registered : Relay} {before : List Operation} {pipeline plugin : String}
    {keys arguments : List String} {launch : Except String Unit} {index : Nat} {record : Record}
    (hstart : start settings hasClient source isLocal? = .ok node)
    (hpeers : settings.arePeersConfigured = true)
    (hregister : (node.operateAll before).register pipeline plugin keys launch
      = .ok (index, registered))
    (hwritable : ∀ key ∈ keys, KeyArguments.Writable key)
    (harguments : arguments.Perm ((sortedSet keys).map (KeyArguments.ofRecord record))) :
    (node.operateAll before).route arguments = registered.route arguments
      ∧ ∀ after, ∃ outbox route,
        (registered.operateAll after).outbox? index = some outbox
          ∧ outbox.keys = sortedSet keys
          ∧ (registered.operateAll after).route arguments = .ok route
          ∧ (registered.operateAll after).BearsOut index outbox record route := by
  obtain ⟨chosen, -, rfl⟩ := eq_idle_of_start hstart
  have hsettings := settings_operateAll settings hasClient chosen isLocal? before
  have hasked : ((idle settings hasClient chosen isLocal?).operateAll before).ask
      (.register pipeline plugin keys launch) = .ok (some (index, registered)) := by
    rw [ask, hregister]
    rfl
  have hdistinct : registered.keys.Nodup := by
    rw [← operate_of_ask hasked, ← operateAll_concat]
    exact nodup_keys_operateAll settings hasClient chosen isLocal? _
  refine ⟨?_, fun after => ?_⟩
  · rw [route_eq_routeOf hwritable harguments, route_eq_routeOf hwritable harguments,
      routeOf_register hregister]
  · rw [← hsettings] at hpeers
    obtain ⟨registration, hregistration, hkeys⟩ := sortedBy_of_register hpeers hregister
    obtain ⟨-, ⟨buffer, sender⟩, hlater, hsorted⟩ :=
      exists_sortedBy_operateAll hdistinct hregistration after
    obtain ⟨held, rfl, hheld⟩ := Option.map_eq_some_iff.mp (hsorted.trans hkeys)
    refine ⟨held.outbox, _, ?_, hheld, route_eq_routeOf hwritable harguments _, ?_⟩
    · rw [outbox?, hlater]
      rfl
    · rw [← hheld]
      exact bearsOut_routeOf hlater record

/-- A node with another one and a stage with two keys. The record has no value for the second key
and one with an equals sign and a blank for the first; the arguments come in the other order. -/
theorem routes_agree_with_forwarding_paired :
    let isLocal? : String → Option Bool := fun address => some (address = "10.0.0.1")
    let node := idle pairedSettings true (.fixed ["10.0.0.1", "10.0.0.2"]) isLocal?
    let registered := node.operate (.register "p" "x" ["user", "id"] (.ok ()))
    let arguments := ["user", "id=a=b "]
    let record := testRecord "a=b "
    start pairedSettings true none isLocal? = .ok node
      ∧ pairedSettings.arePeersConfigured = true
      ∧ (node.operateAll []).register "p" "x" ["user", "id"] (.ok ()) = .ok (0, registered)
      ∧ (∀ key ∈ ["user", "id"], KeyArguments.Writable key)
      ∧ arguments.Perm ((sortedSet ["user", "id"]).map (KeyArguments.ofRecord record))
      ∧ (node.operateAll []).route arguments = registered.route arguments
      ∧ ∀ after, ∃ outbox route,
        (registered.operateAll after).outbox? 0 = some outbox
          ∧ outbox.keys = sortedSet ["user", "id"]
          ∧ (registered.operateAll after).route arguments = .ok route
          ∧ (registered.operateAll after).BearsOut 0 outbox record route := by
  intro isLocal? node registered arguments record
  have hstart : start pairedSettings true none isLocal? = .ok node := rfl
  have hpeers : pairedSettings.arePeersConfigured = true := rfl
  have hregister : (node.operateAll []).register "p" "x" ["user", "id"] (.ok ())
      = .ok (0, registered) := rfl
  have hwritable : ∀ key ∈ ["user", "id"], KeyArguments.Writable key := by
    refine List.forall_mem_cons.mpr ⟨⟨by decide, by decide, ?_, ?_⟩,
      List.forall_mem_singleton.mpr ⟨by decide, by decide, ?_, ?_⟩⟩
    all_goals
      rintro _ ⟨⟩
      rfl
  have harguments : arguments.Perm
      ((sortedSet ["user", "id"]).map (KeyArguments.ofRecord record)) := by
    have hsorted : (sortedSet ["user", "id"]).map (KeyArguments.ofRecord record)
        = ["id=a=b ", "user"] := by decide
    rw [hsorted]
    exact List.Perm.swap _ _ _
  exact ⟨hstart, hpeers, hregister, hwritable, harguments,
    routes_agree_with_forwarding hstart hpeers hregister hwritable harguments⟩

end Relay

end RecordRelay
