import RecordRelay.Proofs.Ring.Peers

/-! Rings that follow lists of the same addresses give every key to the same peer, whatever else is
in the lists and whatever lists the rings followed before, as long as no two addresses share an
identifier. -/
namespace RecordRelay.PeerRing
open HashRing

/-- A peer list denotes some addresses, in any order and any number of times. -/
def Denotes (peers addresses : List String) : Prop :=
  ∀ address, address ∈ PeerRing.addresses peers ↔ address ∈ addresses

/-- No two addresses share an identifier. -/
def Distinguished (addresses : List String) : Prop :=
  ∀ a ∈ addresses, ∀ b ∈ addresses, NodeId.ofName a = NodeId.ofName b → a = b

/-- The nodes of a ring are those of some addresses, with the usual number of virtual nodes. -/
structure Lists (addresses : List String) (peerRing : PeerRing) : Prop where
  virtualNodes : peerRing.virtualNodes = defaultVirtualNodes
  orderly : Orderly peerRing.virtualNodes peerRing.ring
  names : ∀ address ∈ addresses,
    peerRing.ring.node? (NodeId.ofName address) = some (Node.named address)
  only : ∀ id node, peerRing.ring.node? id = some node →
    ∃ address ∈ addresses, node = Node.named address

variable {addresses : List String}

theorem Lists.contains_iff {peerRing : PeerRing} (h : peerRing.Lists addresses) {id : NodeId} :
    peerRing.ring.contains id = true ↔ ∃ address ∈ addresses, NodeId.ofName address = id := by
  rw [contains_eq, Option.isSome_iff_exists]
  constructor
  · rintro ⟨node, hnode⟩
    obtain ⟨address, haddress, rfl⟩ := h.only id node hnode
    exact ⟨address, haddress, node?_id hnode⟩
  · rintro ⟨address, haddress, rfl⟩
    exact ⟨_, h.names address haddress⟩

/-- A ring of known addresses that follows another list has the nodes of its addresses. -/
theorem node?_update_eq_some_iff {peerRing : PeerRing} {known peers : List String}
    (horderly : Orderly peerRing.virtualNodes peerRing.ring) (hdistinct : Distinguished known)
    (honly : ∀ id node, peerRing.ring.node? id = some node →
      ∃ address ∈ known, node = Node.named address)
    (hpeers : ∀ address ∈ PeerRing.addresses peers, address ∈ known) {id : NodeId} {node : Node} :
    (peerRing.update peers).ring.node? id = some node ↔
      ∃ address ∈ PeerRing.addresses peers, NodeId.ofName address = id ∧
        node = Node.named address := by
  rw [node?_update horderly]
  constructor
  · intro hnode
    split_ifs at hnode with hwanted
    obtain ⟨address, haddress, rfl⟩ := hwanted
    refine ⟨address, haddress, rfl, ?_⟩
    -- A node that is there already is that of some address, and only this one has its identifier.
    rcases Option.or_eq_some_iff.mp hnode with hold | ⟨-, hfound⟩
    · obtain ⟨other, hother, rfl⟩ := honly _ node hold
      rw [hdistinct other hother address (hpeers address haddress) (node?_id hold)]
    · obtain ⟨other, hother, hid, rfl⟩ := exists_name_of_find? hfound
      rw [hdistinct other (hpeers other hother) address (hpeers address haddress) hid]
  · rintro ⟨address, haddress, rfl, rfl⟩
    rw [if_pos ⟨address, haddress, rfl⟩]
    cases hnode : peerRing.ring.node? (NodeId.ofName address) with
    | some node =>
      obtain ⟨other, hother, rfl⟩ := honly _ node hnode
      rw [hdistinct other hother address (hpeers address haddress) (node?_id hnode)]
      rfl
    | none =>
      obtain ⟨other, hother, hid, hfound⟩ := exists_find?_named haddress
      rw [Option.none_or, hfound,
        hdistinct other (hpeers other hother) address (hpeers address haddress) hid]

/-- A ring that lists some of the addresses lists all of them after an update with them. -/
theorem lists_update {peerRing : PeerRing} (hvirtual : peerRing.virtualNodes = defaultVirtualNodes)
    (horderly : Orderly peerRing.virtualNodes peerRing.ring)
    (honly : ∀ id node, peerRing.ring.node? id = some node →
      ∃ address ∈ addresses, node = Node.named address)
    (hdistinct : Distinguished addresses) {peers : List String} (hpeers : Denotes peers addresses) :
    (peerRing.update peers).Lists addresses := by
  have hnode {id : NodeId} {node : Node} :
      (peerRing.update peers).ring.node? id = some node ↔
        ∃ address ∈ addresses, NodeId.ofName address = id ∧ node = Node.named address := by
    rw [node?_update_eq_some_iff horderly hdistinct honly fun address => (hpeers address).mp]
    simp only [hpeers _]
  refine ⟨hvirtual, horderly.update peers, fun address haddress => ?_, fun id node hfound => ?_⟩
  · exact hnode.mpr ⟨address, haddress, rfl, rfl⟩
  · obtain ⟨address, haddress, -, heq⟩ := hnode.mp hfound
    exact ⟨address, haddress, heq⟩

theorem lists_ofPeers (hdistinct : Distinguished addresses) {peers : List String}
    (hpeers : Denotes peers addresses) :
    (ofPeers defaultVirtualNodes peers).Lists addresses := by
  refine lists_update rfl (orderly_empty _) (fun id node hnode => ?_) hdistinct hpeers
  have hnone : (empty defaultVirtualNodes).ring.node? id = none := rfl
  rw [hnone] at hnode
  contradiction

theorem Lists.update {peerRing : PeerRing} (h : peerRing.Lists addresses)
    (hdistinct : Distinguished addresses) {peers : List String} (hpeers : Denotes peers addresses) :
    (peerRing.update peers).Lists addresses :=
  lists_update h.virtualNodes h.orderly h.only hdistinct hpeers

/-- Two rings have the same positions, give every key to the same peer, and every peer the same
share. -/
structure Alike (a b : PeerRing) : Prop where
  tokens : a.ring.tokens = b.ring.tokens
  owner : ∀ key, a.owner? key = b.owner? key
  ownership : a.ownership = b.ownership

/-- Rings with the same nodes are alike. -/
theorem alike_of_node?_eq {virtualNodes : Nat} {a b : PeerRing} (ha : Orderly virtualNodes a.ring)
    (hb : Orderly virtualNodes b.ring) (h : ∀ id, a.ring.node? id = b.ring.node? id) :
    a.Alike b := by
  have htokens : a.ring.tokens = b.ring.tokens :=
    tokens_eq_of_contains ha hb fun id => by rw [contains_eq, contains_eq, h]
  have hpartitioner : a.ring.partitioner = b.ring.partitioner :=
    ha.partitioner.trans hb.partitioner.symm
  refine ⟨htokens, fun key => ?_, ?_⟩
  · rw [owner?, owner?, lookupNode, lookupNode, lookup_eq_of_tokens_eq hpartitioner htokens]
    cases b.ring.lookup key.encode with
    | none => rfl
    | some id => rw [Option.bind_some, Option.bind_some, h]
  · rw [ownership, ownership, ownership_eq_of_tokens_eq htokens]
    simp only [h]

/-- Every key has an owner as soon as there is an address. -/
theorem Lists.exists_owner? {peerRing : PeerRing} (h : peerRing.Lists addresses)
    (hsome : addresses ≠ []) (key : CompositeKey) :
    ∃ address ∈ addresses, peerRing.owner? key = some address := by
  have hheld : peerRing.ring.tokens ≠ [] := by
    intro hempty
    obtain ⟨address, haddress⟩ := List.exists_mem_of_ne_nil addresses hsome
    obtain ⟨m, hm, -⟩ := Option.map_eq_some_iff.mp (h.names address haddress)
    have hclaims := (h.orderly.member _ m hm).2
    obtain ⟨t, ht⟩ : ∃ t, t ∈ m.claims := by
      rw [hclaims, h.virtualNodes]
      exact ⟨_, List.mem_map_of_mem (List.mem_range.mpr (Nat.zero_lt_succ 127))⟩
    have hnobody := h.orderly.settled.prevails t
    rw [hempty] at hnobody
    exact hnobody _ ⟨m, hm, ht⟩
  obtain ⟨id, hid⟩ : ∃ id, peerRing.ring.lookup key.encode = some id :=
    Option.ne_none_iff_exists'.mp fun hnone => hheld (ownerAt_eq_none_iff.mp hnone)
  obtain ⟨address, haddress, rfl⟩ := h.contains_iff.mp (contains_of_lookup h.orderly.settled hid)
  exact ⟨address, haddress,
    (owner?_eq_some_iff h.orderly).mpr ⟨hid, h.names address haddress⟩⟩

/-- Only the addresses of a ring own keys. -/
theorem Lists.mem_of_owner? {peerRing : PeerRing} (h : peerRing.Lists addresses)
    {key : CompositeKey} {address : String} (howner : peerRing.owner? key = some address) :
    address ∈ addresses := by
  obtain ⟨-, hnode⟩ := (owner?_eq_some_iff h.orderly).mp howner
  obtain ⟨other, hother, heq⟩ := h.only _ _ hnode
  have hsame : address = other := congrArg Node.name heq
  exact hsame ▸ hother

theorem distinguished_of_short (hshort : addresses.length ≤ 1) : Distinguished addresses := by
  intro a ha b hb _
  cases addresses with
  | nil => exact nomatch ha
  | cons first rest =>
    obtain rfl : rest = [] := List.eq_nil_of_length_eq_zero (by simpa using hshort)
    rw [List.mem_singleton.mp ha, List.mem_singleton.mp hb]

/-- A ring of at most one address gives every key to it. -/
theorem Lists.owner?_eq_head? {peerRing : PeerRing} (h : peerRing.Lists addresses)
    (hshort : addresses.length ≤ 1) (key : CompositeKey) :
    peerRing.owner? key = addresses.head? := by
  cases addresses with
  | nil =>
    refine Option.eq_none_iff_forall_ne_some.mpr fun address howner => ?_
    exact nomatch h.mem_of_owner? howner
  | cons first rest =>
    obtain rfl : rest = [] := List.eq_nil_of_length_eq_zero (by simpa using hshort)
    obtain ⟨address, hmem, howner⟩ := h.exists_owner? (List.cons_ne_nil _ _) key
    rw [howner, List.mem_singleton.mp hmem, List.head?_cons]

end RecordRelay.PeerRing
