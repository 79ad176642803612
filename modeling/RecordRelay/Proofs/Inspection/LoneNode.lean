import RecordRelay.Proofs.Inspection.Routes

/-! A node without other nodes around it keeps every record. Its route still names the peer that
owns the record on the ring and says whether the address of that peer leads here. The two agree
where a static list holds this node only. A list of one endpoint is taken to do so, but nobody asks
where its endpoint leads. -/
namespace RecordRelay

namespace Relay

variable {relay next : Relay}

theorem following_of_fleetView_eq (h : next.fleetView = relay.fleetView) :
    next.following = relay.following := congrArg (fun fleetView => fleetView.2.1) h

theorem resolver_of_fleetView_eq (h : next.fleetView = relay.fleetView) :
    next.isLocal? = relay.isLocal? := congrArg (fun fleetView => fleetView.2.2.2) h

/-- Whatever happens at a node, addresses lead where they led. -/
theorem resolver_operate (relay : Relay) (operation : Operation) :
    (relay.operate operation).isLocal? = relay.isLocal? := by
  by_cases hdisturbs : operation.Disturbs
  · cases operation with
    | updatePeers peers => rfl
    | shutDown => exact resolver_of_fleetView_eq relay.fleetView_shutDown
    | _ => exact absurd hdisturbs id
  · rcases relay.fleetView_operate hdisturbs with heq | heq
    · exact resolver_of_fleetView_eq heq
    · rw [resolver_of_fleetView_eq heq, openRing]
      split <;> rfl

theorem resolver_operateAll (relay : Relay) (operations : List Operation) :
    (relay.operateAll operations).isLocal? = relay.isLocal? := by
  induction operations using List.reverseRecOn with
  | nil => rfl
  | append_singleton operations last ih => rw [operateAll_concat, resolver_operate, ih]

/-- A fixed list has nothing to replace. -/
theorem updatePeers_of_fixed {peers : List String} (h : relay.following.source = .fixed peers)
    (next : List String) : (relay.updatePeers next).2 = relay := by
  obtain ⟨_, _, ⟨source, followers⟩, _⟩ := relay
  obtain rfl : source = .fixed peers := h
  rfl

theorem source_addRing_of_fixed {following : Following} {peers : List String}
    (h : following.source = .fixed peers) (virtualNodes : Nat) :
    (following.addRing virtualNodes).2.source = .fixed peers := by
  obtain ⟨source, followers⟩ := following
  obtain rfl : source = .fixed peers := h
  rfl

theorem source_openRing_of_fixed {peers : List String}
    (h : relay.following.source = .fixed peers) :
    relay.openRing.following.source = .fixed peers := by
  rw [openRing]
  split
  · exact h
  · exact source_addRing_of_fixed h PeerRing.defaultVirtualNodes

section Fixed

variable {settings : Settings} {hasClient : Bool} {peers : List String}
  {isLocal? : String → Option Bool}

/-- A node with a fixed list of peers learns nothing of its fleet but by making its ring. -/
theorem fleetView_operateAll_of_fixed (operations : List Operation) :
    let node := idle settings hasClient (.fixed peers) isLocal?
    (node.operateAll operations).following.source = .fixed peers
      ∧ ((node.operateAll operations).fleetView = node.fleetView
        ∨ (node.operateAll operations).fleetView = node.openRing.fleetView) := by
  intro node
  induction operations using List.reverseRecOn with
  | nil => exact ⟨rfl, .inl rfl⟩
  | append_singleton operations last ih =>
    obtain ⟨hsource, hnode⟩ := ih
    rw [operateAll_concat]
    generalize node.operateAll operations = relay at hsource hnode ⊢
    -- What changes the peers of other nodes changes nothing here, where the list is fixed.
    have hstep : (relay.operate last).fleetView = relay.fleetView
        ∨ (relay.operate last).fleetView = relay.openRing.fleetView := by
      by_cases hdisturbs : last.Disturbs
      · cases last with
        | updatePeers next => exact .inl (congrArg fleetView (updatePeers_of_fixed hsource next))
        | shutDown => exact .inl relay.fleetView_shutDown
        | _ => exact absurd hdisturbs id
      · exact relay.fleetView_operate hdisturbs
    rcases hstep with hsame | hopened
    · rw [following_of_fleetView_eq hsame, hsame]
      exact ⟨hsource, hnode⟩
    · rw [following_of_fleetView_eq hopened, hopened]
      refine ⟨source_openRing_of_fixed hsource, .inr ?_⟩
      rcases hnode with hclosed | hmade
      · exact fleetView_openRing_congr hclosed
      · rw [fleetView_openRing_congr hmade, openRing_of_isSome node.isSome_ring_openRing]

/-- Whatever happens at the node, and whether its ring is made or not, the owners are those of a
ring of the list. -/
theorem owner?_operateAll_of_fixed (operations : List Operation) (key : CompositeKey) :
    ((idle settings hasClient (.fixed peers) isLocal?).operateAll operations).peerRing.owner? key
      = (PeerRing.ofPeers PeerRing.defaultVirtualNodes peers).owner? key := by
  obtain ⟨-, hclosed | hmade⟩ := fleetView_operateAll_of_fixed operations
  · rw [(peerRing_of_fleetView_eq hclosed).1]
    rfl
  · rw [(peerRing_of_fleetView_eq hmade).1, owner?_openRing]
    rfl

end Fixed

theorem forward_of_lone (h : ∀ registration ∈ relay.registrations, registration.sender = none)
    (index : Nat) (records : List Record) : relay.forward index records = (records, relay) := by
  rw [forward]
  split
  next buffer sender hget => exact absurd (h _ (List.mem_of_getElem? hget)) (Option.some_ne_none _)
  next => rfl

end Relay

/-- The peers that settings list themselves. -/
def Settings.listedPeers (settings : Settings) : List String :=
  match settings.discoveryMode with
  | .static => settings.staticEndpoints
  | _ => []

theorem PeerSource.ofSettings_eq {Listener : Type} {settings : Settings}
    {source : PeerSource Listener} (h : ofSettings settings = .ok source) :
    source = .fixed settings.listedPeers := by
  rw [ofSettings] at h
  rw [Settings.listedPeers]
  cases hmode : settings.discoveryMode with
  | localNode | static =>
    rw [hmode] at h
    exact (Except.ok.inj h).symm
  | dns | awsCloudMap =>
    rw [hmode] at h
    contradiction

theorem Settings.length_listedPeers {settings : Settings}
    (h : settings.arePeersConfigured = false) : settings.listedPeers.length ≤ 1 := by
  rw [arePeersConfigured] at h
  rw [listedPeers]
  cases hmode : settings.discoveryMode with
  | localNode => exact Nat.zero_le 1
  | static =>
    rw [hmode] at h
    simpa using h
  | dns | awsCloudMap =>
    rw [hmode] at h
    contradiction

namespace PeerRing

theorem length_addresses_le (peers : List String) : (addresses peers).length ≤ peers.length := by
  rw [addresses]
  exact (List.length_filter_le ..).trans_eq (List.length_map _)

/-- A list of at most one peer makes a ring that gives every key to it. -/
theorem owner?_ofPeers_of_short {peers : List String} (hshort : peers.length ≤ 1)
    (key : CompositeKey) :
    (ofPeers defaultVirtualNodes peers).owner? key = (addresses peers).head? := by
  have haddresses := (length_addresses_le peers).trans hshort
  exact (lists_ofPeers (distinguished_of_short haddresses) fun _ => Iff.rfl).owner?_eq_head?
    haddresses key

end PeerRing

namespace Relay

/-- A node that is alone keeps every record, whatever it is told to forward. Its routes name the
owner of the key on its ring and the place where that peer takes batches, and they are local exactly
if nobody owns the key or the address of its owner leads here or nowhere. Unless a peer source was
supplied, the owner is the one peer that the settings may list. -/
theorem lone_routes_name_the_owner {settings : Settings} {hasClient : Bool}
    {source : Option (PeerSource Follower)} {isLocal? : String → Option Bool} {node : Relay}
    (hstart : start settings hasClient source isLocal? = .ok node)
    (halone : settings.arePeersConfigured = false) (operations : List Operation) :
    (∀ registration ∈ (node.operateAll operations).registrations, registration.sender = none)
      ∧ (∀ index records, (node.operateAll operations).forward index records
          = (records, node.operateAll operations))
      ∧ ∀ arguments key, KeyArguments.compositeKey arguments = .ok key →
          ∃ route, (node.operateAll operations).route arguments = .ok route
            ∧ route.peer = (node.operateAll operations).peerRing.owner? key
            ∧ route.uri = route.peer.map settings.peerUri
            ∧ (route.isLocal = true ↔ route.peer = none ∨ ∃ address, route.peer = some address
                ∧ (isLocal? address = some true ∨ isLocal? address = none))
            ∧ (source = none → settings.listedPeers.length ≤ 1
                ∧ route.peer = (PeerRing.addresses settings.listedPeers).head?) := by
  obtain ⟨chosen, hchosen, rfl⟩ := eq_idle_of_start hstart
  have hlone : ∀ registration
      ∈ ((idle settings hasClient chosen isLocal?).operateAll operations).registrations,
      registration.sender = none := fun registration hmem => by
    rw [← Option.not_isSome_iff_eq_none, sends_operateAll hmem, halone]
    exact Bool.false_ne_true
  refine ⟨hlone, fun index records => forward_of_lone hlone index records, ?_⟩
  intro arguments key hkey
  refine ⟨_, by rw [route, hkey]; rfl, rfl, ?_, ?_, ?_⟩
  · rw [settings_operateAll]
  · have hresolver : ((idle settings hasClient chosen isLocal?).operateAll
        operations).routing.isLocal? = isLocal? := resolver_operateAll _ operations
    rw [Routing.isLocal_iff, hresolver]
  · rintro rfl
    have hlength := Settings.length_listedPeers halone
    obtain rfl := PeerSource.ofSettings_eq hchosen
    exact ⟨hlength, (owner?_operateAll_of_fixed operations key).trans
      (PeerRing.owner?_ofPeers_of_short hlength key)⟩

def singleSettings : Settings :=
  { loneSettings with discoveryMode := .static, staticEndpoints := ["10.0.0.2"] }

/-- Here the one endpoint is this node. -/
theorem lone_routes_name_the_owner_here :
    let isLocal? : String → Option Bool := fun address => some (address = "10.0.0.2")
    let node := idle singleSettings false (.fixed ["10.0.0.2"]) isLocal?
    let operations : List Operation := [.register "p" "x" ["id"] (.ok ())]
    start singleSettings false none isLocal? = .ok node
      ∧ singleSettings.arePeersConfigured = false
      ∧ (node.operateAll operations).forward 0 [testRecord "a"]
        = ([testRecord "a"], node.operateAll operations)
      ∧ ∃ route, (node.operateAll operations).route ["id=a"] = .ok route
        ∧ route.peer = some "10.0.0.2" ∧ route.isLocal = true := by
  intro isLocal? node operations
  have hstart : start singleSettings false none isLocal? = .ok node := rfl
  obtain ⟨-, hforward, hroutes⟩ := lone_routes_name_the_owner hstart rfl operations
  have hkey : KeyArguments.compositeKey ["id=a"] = .ok [some "a"] := by decide
  obtain ⟨route, hroute, -, -, hlocal, hpeer⟩ := hroutes ["id=a"] _ hkey
  have howner : route.peer = some "10.0.0.2" := (hpeer rfl).2
  refine ⟨hstart, rfl, hforward 0 _, route, hroute, howner, hlocal.mpr (.inr ⟨_, howner, ?_⟩)⟩
  exact .inl rfl

/-- A node whose one endpoint is another node shows a way that its records never take. -/
theorem route_without_forwarding :
    let isLocal? : String → Option Bool := fun address => some (address = "10.0.0.1")
    let node := idle singleSettings false (.fixed ["10.0.0.2"]) isLocal?
    let registered := node.operateAll [.register "p" "x" ["id"] (.ok ())]
    start singleSettings false none isLocal? = .ok node
      ∧ singleSettings.arePeersConfigured = false
      ∧ (registered.forward 0 [testRecord "a"]).1 = [testRecord "a"]
      ∧ registered.route ["id=a"] = .ok
        ⟨some "10.0.0.2", false, some "http://10.0.0.2:4994/event/forward"⟩ := by
  intro isLocal? node registered
  have hkey : KeyArguments.compositeKey ["id=a"] = .ok [some "a"] := by decide
  have howner : registered.peerRing.owner? [some "a"] = some "10.0.0.2" := by
    rw [owner?_operateAll_of_fixed, PeerRing.owner?_ofPeers_of_short (by decide)]
    decide
  have hplace : singleSettings.peerUri "10.0.0.2" = "http://10.0.0.2:4994/event/forward" := by
    decide +kernel
  have hroute : registered.route ["id=a"]
      = .ok ⟨some "10.0.0.2", false, some (singleSettings.peerUri "10.0.0.2")⟩ := by
    rw [route, hkey, Except.map, routing, Routing.ofRing]
    simp only [howner]
    rfl
  rw [hplace] at hroute
  exact ⟨rfl, rfl, rfl, hroute⟩

end Relay
end RecordRelay
