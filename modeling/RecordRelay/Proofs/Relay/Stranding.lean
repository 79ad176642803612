import RecordRelay.Proofs.Discovery.Followers
import RecordRelay.Proofs.Relay.Sizes
import RecordRelay.Proofs.Relay.Undisturbed

/-! A record waits in the queue of its owner until it fills a batch. Should its owner leave the ring
or the dispatch pool be shut down meanwhile, nobody looks at the queue: the record is neither sent
nor handed back for as long as no further record for the same owner comes. -/
namespace RecordRelay

/-- The first record of a queue stays there, unless it is a batch by itself. -/
theorem BatchingQueue.offer_empty {batchSize : Nat} (h : batchSize ≠ 1) (capacity : Nat)
    (record : Record) : ((empty batchSize capacity).offer record).2.records = [record] := by
  rcases Nat.lt_or_gt_of_ne h with hzero | hmore
  · rw [Nat.lt_one_iff.mp hzero]
    rfl
  · rw [offer, if_neg (by simpa [empty] using hmore)]
    rfl

namespace Outbox

variable {routing : Routing} {outbox : Outbox} {address : String} {record : Record}

/-- A record that belongs elsewhere joins the queue of its owner. -/
theorem forwardCuts_singleton (howner : routing.ownerOf outbox.keys record = some address)
    (hleaves : routing.isLocal (some address) = false) :
    (outbox.forwardCuts routing [record]).2
      = setQueue address ((outbox.queue address).offerAll [record]).2 outbox.queues := by
  have hgroups : groupByOwner (routing.ownerOf outbox.keys) [record]
      = [(some address, [record])] := by
    rw [← howner]
    rfl
  have hleaving : leaving routing [(some address, [record])] = [(address, [record])] := by
    simp [leaving, hleaves]
  rw [forwardCuts, hgroups, hleaving]
  rfl

/-- Unless one record is a batch, the first record for an owner waits and is not handed back. -/
theorem forward_singleton {settings : Settings} (pipeline plugin : String) {keys : List String}
    (hbatch : settings.batchSize ≠ 1)
    (howner : routing.ownerOf keys record = some address)
    (hleaves : routing.isLocal (some address) = false) (index : Nat) (pool : Pool) :
    ((empty settings pipeline plugin keys).forward routing index [record] pool).1 = []
      ∧ (((empty settings pipeline plugin keys).forward routing index [record] pool).2.1.queue
          address).records = [record] := by
  have hsize : settings.batchSize.toNat ≠ 1 := fun h => hbatch (UInt64.toNat_inj.mp h)
  have hqueued : (((empty settings pipeline plugin keys).queue address).offerAll
      [record]).2.records = [record] := by
    show (BatchingQueue.offer (.empty settings.batchSize.toNat _) record).2.records = [record]
    exact BatchingQueue.offer_empty hsize _ record
  have hcuts : ((empty settings pipeline plugin keys).forwardCuts routing [record]).2
      = [(address, (((empty settings pipeline plugin keys).queue address).offerAll [record]).2)] :=
    forwardCuts_singleton howner hleaves
  constructor
  · obtain ⟨accepted, -, -, hreturned⟩ := exists_accepted_forward routing index [record]
      (empty settings pipeline plugin keys) pool
    have hmoved := forward_perm routing [record] (empty settings pipeline plugin keys)
    rw [hcuts] at hmoved
    -- The one record waits, so none is left to come back.
    have hmoved := hmoved.length_eq
    have hreturned := hreturned.length_eq
    simp only [waiting, List.flatMap_singleton, hqueued, List.length_append,
      List.length_singleton] at hmoved hreturned
    have hnone : (empty settings pipeline plugin keys).queues.flatMap (·.2.records) = [] := rfl
    rw [hnone, List.length_nil] at hmoved
    exact List.eq_nil_of_length_eq_zero (by omega)
  · have hrouted := routed_forward routing index [record] (empty settings pipeline plugin keys) pool
    rw [hrouted.outbox_eq, hcuts]
    show (queueOr _ address [(address, _)]).records = [record]
    rw [queueOr, List.find?_cons_of_pos (by simp)]
    exact hqueued

end Outbox

namespace Relay

section Idle

variable {settings : Settings} {hasClient : Bool} {source : PeerSource Follower}
  {isLocal? : String → Option Bool} {operations : List Operation} {registration : Registration}
  {sender : Sender}

/-- Less than a batch waits in every queue. -/
theorem unfilled_operateAll (hbatch : 0 < settings.batchSize)
    (hmem : registration ∈ ((idle settings hasClient source isLocal?).operateAll
      operations).registrations) (hsender : sender ∈ registration.sender) :
    sender.outbox.Unfilled ∧ sender.outbox.batchSize = settings.batchSize.toNat := by
  have hregular : ((idle settings hasClient source isLocal?).operateAll operations).Regular
      (fun _ => True) settings :=
    (regular_idle settings hasClient source isLocal?).operateAll hbatch fun _ _ _ _ => trivial
  have houtbox := (hregular.registrations registration hmem).outbox sender hsender
  exact ⟨houtbox.unfilled, houtbox.batchSize⟩

/-- If every record is a batch, none waits. -/
theorem not_strands_of_single
    (h : settings.arePeersConfigured = true → settings.batchSize = 1) :
    ¬ ((idle settings hasClient source isLocal?).operateAll operations).Strands := by
  rintro ⟨registration, hmem, sender, hsender, destination, hrecords, -⟩
  have hpeers : settings.arePeersConfigured = true := by
    rw [← sends_operateAll hmem, hsender]
    rfl
  have hbatch := h hpeers
  obtain ⟨hunfilled, hsize⟩ := unfilled_operateAll (by rw [hbatch]; decide) hmem hsender
  have hshort := hunfilled.short destination
  rw [hsize, hbatch] at hshort
  exact hrecords (List.eq_nil_of_length_eq_zero (Nat.lt_one_iff.mp hshort))

end Idle

/-- A ring of one address after it was made and heard of the same list again. -/
def ringOfOne : PeerRing :=
  (PeerRing.ofPeers PeerRing.defaultVirtualNodes ["10.0.0.2"]).update ["10.0.0.2"]

theorem addresses_one : PeerRing.addresses ["10.0.0.2"] = ["10.0.0.2"] := by decide

theorem distinguished_one : PeerRing.Distinguished ["10.0.0.2"] :=
  PeerRing.distinguished_of_short le_rfl

/-- A ring of one address gives every key to it. -/
theorem owner?_ringOfOne (key : CompositeKey) : ringOfOne.owner? key = some "10.0.0.2" := by
  have hdenotes : PeerRing.Denotes ["10.0.0.2"] ["10.0.0.2"] := fun address => by
    rw [addresses_one]
  have hlists := (PeerRing.lists_ofPeers distinguished_one hdenotes).update distinguished_one
    hdenotes
  exact hlists.owner?_eq_head? le_rfl key

/-- Without addresses a ring has no peers any more. -/
theorem peers_update_ringOfOne : (ringOfOne.update []).peers = [] := by
  have hknown : ∀ address ∈ PeerRing.addresses ["10.0.0.2"], address ∈ ["10.0.0.2"] := by
    rw [addresses_one]
    exact fun _ => id
  have htracks : (ringOfOne.update []).Tracks [] :=
    ((PeerRing.tracks_ofPeers _ distinguished_one hknown).update distinguished_one hknown
      hknown).update distinguished_one hknown nofun
  rw [htracks.peers_eq]
  rfl

/-- The first record that a registration forwards to another node waits for more. -/
theorem forward_first {relay : Relay} {settings : Settings} {buffer : ReceiveBuffer}
    {pipeline plugin address : String} {keys : List String} {place : Nat}
    (hbatch : settings.batchSize ≠ 1)
    (hget : relay.registrations
      = [⟨buffer, some ⟨.empty settings pipeline plugin keys, place⟩⟩])
    (howner : ∀ key, relay.peerRing.owner? key = some address)
    (hleaves : relay.isLocal? address = some false) (record : Record) :
    (relay.forward 0 [record]).1 = []
      ∧ ∃ sender, (sender.outbox.queue address).records = [record]
        ∧ (relay.forward 0 [record]).2.registrations = [⟨buffer, some sender⟩] := by
  have howns : relay.routing.ownerOf keys record = some address := howner _
  have hforeign : relay.routing.isLocal (some address) = false :=
    congrArg (Option.getD · true) hleaves
  let pool := relay.pools[place]?.getD (.start 0 0)
  obtain ⟨hreturned, hqueue⟩ :=
    Outbox.forward_singleton pipeline plugin hbatch howns hforeign 0 pool
  let forwarded :=
    (Outbox.empty settings pipeline plugin keys).forward relay.routing 0 [record] pool
  have hforward : relay.forward 0 [record]
      = (forwarded.1, { relay with
          registrations := [⟨buffer, some ⟨forwarded.2.1, place⟩⟩]
          pools := relay.pools.set place forwarded.2.2 }) := by
    rw [forward, hget]
    rfl
  rw [hforward]
  exact ⟨hreturned, ⟨forwarded.2.1, place⟩, hqueue, rfl⟩

theorem strands_of_queue {relay : Relay} {buffer : ReceiveBuffer} {sender : Sender}
    {address : String} {record : Record}
    (hget : relay.registrations = [⟨buffer, some sender⟩])
    (hqueue : (sender.outbox.queue address).records = [record])
    (hleft : address ∉ relay.peerRing.peers ∨ ∀ pool ∈ relay.pools, pool.accepting = false) :
    relay.Strands := by
  refine ⟨⟨buffer, some sender⟩, hget ▸ .head _, sender, rfl, address, ?_, ?_⟩
  · rw [hqueue]
    exact List.cons_ne_nil _ _
  · rintro ⟨hpeer, pool, hpool, haccepting⟩
    rcases hleft with hgone | hclosed
    · exact hgone hpeer
    · rw [hclosed pool (List.mem_of_getElem? hpool)] at haccepting
      contradiction

/-- A node that has one peer and one registered stage. -/
def ofOnePeer (settings : Settings) : Relay :=
  (idle settings true (.changing ["10.0.0.2"] []) fun _ => some false).operate
    (.register "p" "x" ["id"] (.ok ()))

theorem ofOnePeer_eq {settings : Settings} (hpeers : settings.arePeersConfigured = true) :
    ofOnePeer settings
      = { idle settings true (.changing ["10.0.0.2"] []) fun _ => some false with
          following := ⟨.changing ["10.0.0.2"] [.ring 0], ⟨[some ringOfOne], [], []⟩⟩
          ring := some 0
          registrations := [⟨newBuffer settings "p" "x",
            some ⟨.empty settings "p" "x" (sortedSet ["id"]), 0⟩⟩]
          pools :=
            [.start settings.clientThreadCount.toNat settings.maxPendingRequests.toNat]
          currentPool := some 0 } := by
  have hsettings : (idle settings true (.changing ["10.0.0.2"] [])
      fun _ => some false).settings = settings := rfl
  rw [ofOnePeer, operate, asked, ask, register, hsettings, hpeers]
  rfl

section OnePeer

variable {settings : Settings} (hpeers : settings.arePeersConfigured = true)
  (hbatch : settings.batchSize ≠ 1) (record : Record)
include hpeers hbatch

/-- After the dispatch pool is shut down, a record for the peer waits for a pool that takes no
jobs. -/
theorem strands_of_shutDown :
    ((ofOnePeer settings).shutDown.forward 0 [record]).1 = []
      ∧ ((ofOnePeer settings).shutDown.forward 0 [record]).2.Strands := by
  have hnode := ofOnePeer_eq hpeers
  have howner (key : CompositeKey) :
      (ofOnePeer settings).shutDown.peerRing.owner? key = some "10.0.0.2" := by
    rw [hnode]
    exact owner?_ringOfOne key
  obtain ⟨hreturned, sender, hqueue, hregistrations⟩ :=
    forward_first hbatch (by rw [hnode]; rfl) howner (by rw [hnode]; rfl) record
  have hdispatch := (ofOnePeer settings).shutDown.dispatch_forward 0 [record]
  have hclosed : ((ofOnePeer settings).shutDown.forward 0 [record]).2.pools.map Pool.accepting
      = [false] := by
    rw [(Prod.mk.inj hdispatch).1, hnode]
    rfl
  refine ⟨hreturned, strands_of_queue hregistrations hqueue (.inr fun pool hmem => ?_)⟩
  have haccepting := List.mem_map_of_mem (f := Pool.accepting) hmem
  rw [hclosed] at haccepting
  exact List.mem_singleton.mp haccepting

/-- A record that waits for the peer is not looked at when the peer leaves. -/
theorem strands_of_departure :
    ((ofOnePeer settings).forward 0 [record]).1 = []
      ∧ (((ofOnePeer settings).forward 0 [record]).2.updatePeers []).2.Strands := by
  have hnode := ofOnePeer_eq hpeers
  have howner (key : CompositeKey) :
      (ofOnePeer settings).peerRing.owner? key = some "10.0.0.2" := by
    rw [hnode]
    exact owner?_ringOfOne key
  obtain ⟨hreturned, sender, hqueue, hregistrations⟩ :=
    forward_first hbatch (by rw [hnode]) howner (by rw [hnode]; rfl) record
  have hfleetView := (ofOnePeer settings).fleetView_forward 0 [record]
  generalize (ofOnePeer settings).forward 0 [record] = forwarded at *
  have hgone : (forwarded.2.updatePeers []).2.peerRing.peers = [] := by
    have hring : (forwarded.2.updatePeers []).2.peerRing = ringOfOne.update [] := by
      obtain ⟨-, hrest⟩ := Prod.mk.inj hfleetView
      obtain ⟨hfollowing, hrest⟩ := Prod.mk.inj hrest
      obtain ⟨hring, -⟩ := Prod.mk.inj hrest
      rw [peerRing, updatePeers, hfollowing, hring, hnode]
      rfl
    rw [hring, peers_update_ringOfOne]
  refine ⟨hreturned, strands_of_queue hregistrations hqueue (.inl ?_)⟩
  rw [hgone]
  exact List.not_mem_nil

end OnePeer

/-- Never more than a part of a batch waits for a peer. It is left behind only if the peers change
or the dispatch pool is shut down, and only where it takes more than one record to fill a batch;
there each of the two can leave a record behind, which is neither sent nor handed back. -/
theorem only_partial_batches_are_left_behind (settings : Settings) :
    (∀ hasClient source isLocal? operations,
        let node := (idle settings hasClient source isLocal?).operateAll operations
        (0 < settings.batchSize → ∀ registration ∈ node.registrations,
            ∀ sender ∈ registration.sender, ∀ destination,
              (sender.outbox.queue destination).records.length < settings.batchSize.toNat)
          ∧ (node.Strands → settings.arePeersConfigured = true ∧ settings.batchSize ≠ 1
            ∧ ∃ operation ∈ operations, operation.Disturbs))
      ∧ (settings.arePeersConfigured = true → settings.batchSize ≠ 1 → ∀ record,
          let node := ofOnePeer settings
          ((node.shutDown.forward 0 [record]).1 = []
              ∧ (node.shutDown.forward 0 [record]).2.Strands)
            ∧ ((node.forward 0 [record]).1 = []
              ∧ ((node.forward 0 [record]).2.updatePeers []).2.Strands)) := by
  refine ⟨fun hasClient source isLocal? operations => ⟨?_, fun hstrands => ?_⟩, ?_⟩
  · intro hbatch registration hmem sender hsender destination
    obtain ⟨hunfilled, hsize⟩ := unfilled_operateAll hbatch hmem hsender
    exact (hunfilled.short destination).trans_eq hsize
  · by_cases hsingle : settings.arePeersConfigured = true → settings.batchSize = 1
    · exact absurd hstrands (not_strands_of_single hsingle)
    · rw [Classical.not_imp] at hsingle
      refine ⟨hsingle.1, hsingle.2, ?_⟩
      by_contra hnone
      have hundisturbed : ∀ operation ∈ operations, ¬ operation.Disturbs :=
        fun operation hmem hdisturbs => hnone ⟨operation, hmem, hdisturbs⟩
      exact (served_operateAll settings hasClient source isLocal? hundisturbed).not_strands hstrands
  · intro hpeers hbatch record
    exact ⟨strands_of_shutDown hpeers hbatch record, strands_of_departure hpeers hbatch record⟩

/-- With batches of two records, a record that comes after the dispatch pool was shut down is left
behind. -/
theorem record_left_behind_after_shutDown :
    let settings : Settings := { pairedSettings with batchSize := 2 }
    let source : PeerSource Follower := .changing ["10.0.0.2"] []
    let node := (idle settings true source fun _ => some false).operateAll
      [.register "p" "x" ["id"] (.ok ()), .shutDown]
    start settings true (some source) (fun _ => some false)
        = .ok (idle settings true source fun _ => some false)
      ∧ (node.forward 0 [testRecord "a"]).1 = []
      ∧ (node.operate (.forward 0 [testRecord "a"])).Strands := by
  intro settings source node
  have hpeers : settings.arePeersConfigured = true := rfl
  have hstart : start settings true (some source) (fun _ => some false)
      = .ok (idle settings true source fun _ => some false) := rfl
  have hnode : node = (ofOnePeer settings).shutDown := rfl
  rw [hnode, operate]
  exact ⟨hstart, strands_of_shutDown hpeers (by decide) (testRecord "a")⟩

end Relay
end RecordRelay
