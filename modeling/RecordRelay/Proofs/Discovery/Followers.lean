import RecordRelay.Discovery.Following
import RecordRelay.Proofs.Discovery.PeerLists
import RecordRelay.Proofs.Ring.Rebuild

/-! A changing source calls its listeners only when its set changes, and forgets those that do not
answer. A ring that is in use nevertheless always has the peers of the source: it is made from them,
it is subscribed from then on, and it hears of every change until it is dropped. -/
namespace RecordRelay

namespace PeerRing
open HashRing

theorem mem_addresses_sortedSet {peers : List String} {address : String} :
    address ∈ addresses (sortedSet peers) ↔ address ∈ addresses peers := by
  simp only [addresses, List.mem_filter, List.mem_map, mem_sortedSet]

/-- The nodes of a ring are those of the addresses of a peer list. -/
structure Tracks (peers : List String) (peerRing : PeerRing) : Prop where
  orderly : Orderly peerRing.virtualNodes peerRing.ring
  node?_iff : ∀ id node, peerRing.ring.node? id = some node ↔
    ∃ address ∈ addresses peers, NodeId.ofName address = id ∧ node = Node.named address

variable {known peers next : List String} {a b peerRing : PeerRing}

theorem tracks_empty (virtualNodes : Nat) : (empty virtualNodes).Tracks [] where
  orderly := orderly_empty virtualNodes
  node?_iff id node := by
    have hnone : (empty virtualNodes).ring.node? id = none := rfl
    simp [hnone, addresses]

theorem Tracks.update (h : peerRing.Tracks peers) (hdistinct : Distinguished known)
    (hpeers : ∀ address ∈ addresses peers, address ∈ known)
    (hnext : ∀ address ∈ addresses next, address ∈ known) : (peerRing.update next).Tracks next where
  orderly := h.orderly.update next
  node?_iff id node := by
    refine node?_update_eq_some_iff h.orderly hdistinct (fun id node hnode => ?_) hnext
    obtain ⟨address, haddress, -, heq⟩ := (h.node?_iff id node).mp hnode
    exact ⟨address, hpeers address haddress, heq⟩

theorem tracks_ofPeers (virtualNodes : Nat) (hdistinct : Distinguished known)
    (hpeers : ∀ address ∈ addresses peers, address ∈ known) :
    (ofPeers virtualNodes peers).Tracks peers :=
  (tracks_empty virtualNodes).update hdistinct (fun _ hnone => absurd hnone List.not_mem_nil) hpeers

/-- Rings of one list with the same number of virtual nodes are alike. -/
theorem Tracks.alike (ha : a.Tracks peers) (hb : b.Tracks peers)
    (hvirtual : b.virtualNodes = a.virtualNodes) : a.Alike b := by
  refine alike_of_node?_eq ha.orderly (hvirtual ▸ hb.orderly) fun id => Option.ext fun node => ?_
  rw [ha.node?_iff, hb.node?_iff]

theorem Tracks.peers_eq (h : peerRing.Tracks peers) :
    peerRing.peers = sortedSet (addresses peers) := by
  refine eq_of_pairwise_of_mem_iff (pairwise_peers h.orderly) (pairwise_sortedSet _)
    fun address => ?_
  rw [mem_peers h.orderly.settled, mem_sortedSet]
  constructor
  · rintro ⟨id, node, hnode, rfl⟩
    obtain ⟨address, haddress, -, rfl⟩ := (h.node?_iff id node).mp hnode
    exact haddress
  · intro haddress
    exact ⟨_, Node.named address, (h.node?_iff _ _).mpr ⟨address, haddress, rfl, rfl⟩, rfl⟩

end PeerRing

namespace Followers

variable {peers : List String} {followers : Followers} {index other : Nat} {ring : PeerRing}

def counts (followers : Followers) : List (Option Nat) :=
  followers.rings.map (Option.map PeerRing.virtualNodes)

theorem ring?_setRing_self (h : (followers.ring? index).isSome) (ring : Option PeerRing) :
    (followers.setRing index ring).ring? index = ring := by
  have hlt : index < followers.rings.length := by
    by_contra hge
    rw [ring?, List.getElem?_eq_none (not_lt.mp hge)] at h
    contradiction
  rw [ring?, setRing, List.getElem?_set_self hlt]
  rfl

theorem ring?_setRing_ne (h : index ≠ other) (ring : Option PeerRing) :
    (followers.setRing index ring).ring? other = followers.ring? other := by
  rw [ring?, setRing, List.getElem?_set_ne h]
  rfl

theorem ring?_setRing_none (followers : Followers) (index : Nat) :
    (followers.setRing index Option.none).ring? index = Option.none := by
  rw [ring?, setRing, List.getElem?_set, if_pos rfl]
  split_ifs <;> rfl

theorem counts_getElem? (followers : Followers) (index : Nat) :
    followers.counts[index]?.join = (followers.ring? index).map PeerRing.virtualNodes := by
  rw [counts, List.getElem?_map, ring?]
  cases followers.rings[index]? <;> rfl

theorem exists_ring?_iff : (∃ virtualNodes, followers.counts[index]? = some (some virtualNodes)) ↔
    (followers.ring? index).isSome := by
  rw [← Option.isSome_map (f := PeerRing.virtualNodes), ← counts_getElem?]
  rcases followers.counts[index]? with _ | _ | _ <;> simp

/-- A ring agrees to be called again as long as it is in use. -/
theorem notify_ring (index : Nat) (peers : List String) (followers : Followers) :
    (notify (.ring index) peers followers).1 = (followers.ring? index).isSome := by
  rw [notify]
  cases followers.ring? index <;> rfl

/-- A call of a ring updates that ring and no other; a call of an observer updates none. -/
theorem ring?_notify (follower : Follower) (peers : List String) (followers : Followers)
    (index : Nat) :
    (notify follower peers followers).2.ring? index =
      if follower = .ring index then (followers.ring? index).map (·.update peers)
      else followers.ring? index := by
  cases follower with
  | observer place =>
    rw [if_neg (by simp), notify]
    cases followers.observers[place]? <;> rfl
  | ring place =>
    rw [notify]
    split_ifs with heq
    · obtain rfl := Follower.ring.inj heq
      cases hring : followers.ring? place with
      | none => exact hring
      | some ring => exact ring?_setRing_self (by rw [hring]; rfl) _
    · have hne : place ≠ index := fun h => heq (congrArg Follower.ring h)
      cases followers.ring? place with
      | none => rfl
      | some ring => exact ring?_setRing_ne hne _

theorem counts_notify (follower : Follower) (peers : List String) (followers : Followers) :
    (notify follower peers followers).2.counts = followers.counts := by
  cases follower with
  | observer place =>
    rw [notify]
    cases followers.observers[place]? <;> rfl
  | ring place =>
    rw [notify]
    cases hring : followers.ring? place with
    | none => rfl
    | some ring =>
      have hplace : followers.rings[place]? = some (some ring) := Option.join_eq_some_iff.mp hring
      exact map_set_of_eq _ hplace rfl

theorem counts_call (peers : List String) (listeners : List Follower) (followers : Followers) :
    (PeerSource.call notify peers listeners followers).2.counts = followers.counts := by
  induction listeners generalizing followers with
  | nil => rfl
  | cons listener rest ih =>
    rw [PeerSource.call]
    exact (ih _).trans (counts_notify listener peers followers)

/-- The rings that are called again are those in use. -/
theorem mem_call_ring (peers : List String) (listeners : List Follower) (followers : Followers) :
    .ring index ∈ (PeerSource.call notify peers listeners followers).1 ↔
      .ring index ∈ listeners ∧ (followers.ring? index).isSome := by
  induction listeners generalizing followers with
  | nil => simp [PeerSource.call]
  | cons listener rest ih =>
    have hlive : ((notify listener peers followers).2.ring? index).isSome =
        (followers.ring? index).isSome := by
      rw [ring?_notify]
      split_ifs
      · exact Option.isSome_map
      · rfl
    have hrest := ih (notify listener peers followers).2
    rw [hlive] at hrest
    rw [PeerSource.call]
    by_cases heq : listener = .ring index
    · subst heq
      cases hring : (followers.ring? index).isSome with
      | false => simpa [notify_ring, hring] using hrest
      | true => simp [notify_ring, hring]
    · have hne : Follower.ring index ≠ listener := Ne.symm heq
      cases hstays : (notify listener peers followers).1 <;> simpa [hstays, hne] using hrest

/-- After all listeners are called, every ring has the new peers that is among the listeners. -/
theorem tracks_call {known prior next : List String} (hdistinct : PeerRing.Distinguished known)
    (hprior : ∀ address ∈ PeerRing.addresses prior, address ∈ known)
    (hnext : ∀ address ∈ PeerRing.addresses next, address ∈ known)
    (listeners : List Follower) (followers : Followers)
    (h : ∀ index ring, followers.ring? index = some ring →
      ring.Tracks next ∨ (ring.Tracks prior ∧ .ring index ∈ listeners)) :
    ∀ index ring, (PeerSource.call notify next listeners followers).2.ring? index = some ring →
      ring.Tracks next := by
  induction listeners generalizing followers with
  | nil =>
    intro index ring hring
    exact (h index ring hring).resolve_right fun hboth => List.not_mem_nil hboth.2
  | cons listener rest ih =>
    rw [PeerSource.call]
    refine ih _ fun index ring hring => ?_
    rw [ring?_notify] at hring
    split_ifs at hring with hcalled
    · obtain ⟨old, hold, rfl⟩ := Option.map_eq_some_iff.mp hring
      rcases h index old hold with htracks | ⟨htracks, -⟩
      · exact .inl (htracks.update hdistinct hnext hnext)
      · exact .inl (htracks.update hdistinct hprior hnext)
    · refine (h index ring hring).imp_right fun ⟨htracks, hmem⟩ => ⟨htracks, ?_⟩
      exact (List.mem_cons.mp hmem).resolve_left (Ne.symm hcalled)

end Followers
end RecordRelay
