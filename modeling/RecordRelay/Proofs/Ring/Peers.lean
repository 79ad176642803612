import Mathlib
import RecordRelay.PeerRing
import RecordRelay.Proofs.Ring.Lookup

/-! Whatever lists a ring of peers has followed, its nodes are those that the last list names, each
described by its address and claiming the same number of positions as any other. So the ring is the
same for every list that denotes the same set of addresses. -/
namespace RecordRelay

/-- The node of an address. -/
def Node.named (name : String) : Node := ⟨NodeId.ofName name, name⟩

@[simp] theorem Node.named_id (name : String) : (Node.named name).id = NodeId.ofName name := rfl

@[simp] theorem Node.named_name (name : String) : (Node.named name).name = name := rfl

namespace PeerRing
open HashRing

/-- The addresses that a peer list denotes: its entries without blanks around them, except for
those that are nothing but blank. -/
def addresses (peers : List String) : List String :=
  (peers.map Text.trim).filter fun address => !address.isEmpty

theorem ofAddress_toOption (address : String) :
    (Node.ofAddress address).toOption =
      if (Text.trim address).isEmpty then none else some (Node.named (Text.trim address)) := by
  unfold Node.ofAddress
  by_cases h : (Text.trim address).isEmpty
  · simp only [h, if_true, Except.toOption]
  · simp only [h, Except.toOption]
    rfl

theorem nodesOf_eq (peers : List String) : nodesOf peers = (addresses peers).map Node.named := by
  unfold nodesOf addresses
  induction peers with
  | nil => rfl
  | cons peer peers ih =>
    rw [List.filterMap_cons, ofAddress_toOption, ih]
    by_cases h : (Text.trim peer).isEmpty <;> simp [h]

theorem exists_name_of_find? {names : List String} {id : NodeId} {node : Node}
    (h : (names.map Node.named).find? (fun node => node.id = id) = some node) :
    ∃ name ∈ names, NodeId.ofName name = id ∧ node = Node.named name := by
  obtain ⟨name, hname, rfl⟩ := List.mem_map.mp (List.mem_of_find?_eq_some h)
  have hmatch := List.find?_some h
  exact ⟨name, hname, of_decide_eq_true hmatch, rfl⟩

theorem exists_find?_named {names : List String} {name : String} (h : name ∈ names) :
    ∃ first ∈ names, NodeId.ofName first = NodeId.ofName name ∧
      (names.map Node.named).find? (fun node => node.id = NodeId.ofName name) =
        some (Node.named first) := by
  obtain ⟨node, hfound⟩ : ∃ node, (names.map Node.named).find?
      (fun node => node.id = NodeId.ofName name) = some node := by
    apply Option.isSome_iff_exists.mp
    rw [List.find?_isSome]
    exact ⟨Node.named name, List.mem_map_of_mem h, by simp⟩
  obtain ⟨first, hfirst, hid, rfl⟩ := exists_name_of_find? hfound
  exact ⟨first, hfirst, hid, hfound⟩

/-- Every member is described by its address and claims the same number of positions. -/
structure Orderly (virtualNodes : Nat) (ring : HashRing) : Prop where
  settled : Settled ring
  partitioner : ring.partitioner = .sipHash
  member : ∀ id m, ring.member? id = some m →
    m.node = Node.named m.node.name ∧ m.claims = placements .sipHash id virtualNodes

theorem orderly_empty (virtualNodes : Nat) : Orderly virtualNodes (empty virtualNodes).ring where
  settled := settled_empty _
  partitioner := rfl
  member id m h := by simp [empty, HashRing.empty, member?] at h

theorem claimsOf_of_not_contains {ring : HashRing} {id : NodeId} (h : ring.contains id = false) :
    ring.claimsOf id = [] := by
  rw [HashRing.contains, Option.isSome_eq_false_iff, Option.isNone_iff_eq_none] at h
  rw [claimsOf, h]
  rfl

theorem Orderly.insert {virtualNodes : Nat} {ring : HashRing} (h : Orderly virtualNodes ring)
    {name : String} (hnew : ring.contains (Node.named name).id = false) :
    Orderly virtualNodes (ring.insert (Node.named name) virtualNodes) where
  settled := h.settled.insert _ _
  partitioner := h.partitioner
  member id m hm := by
    rw [member?_insert] at hm
    split_ifs at hm with he
    · subst he
      obtain rfl := Option.some.inj hm
      refine ⟨rfl, ?_⟩
      have hnone := claimsOf_of_not_contains hnew
      have hplace := placements_add .sipHash (Node.named name).id 0 virtualNodes
      rw [Nat.zero_add] at hplace
      rw [virtualNodeCount_eq, hnone, h.partitioner, hplace]
      rfl
    · exact h.member id m hm

theorem Orderly.erase {virtualNodes : Nat} {ring : HashRing} (h : Orderly virtualNodes ring)
    (id : NodeId) : Orderly virtualNodes (ring.erase id) where
  settled := h.settled.erase id
  partitioner := (partitioner_erase ring id).trans h.partitioner
  member other m hm := by
    rw [member?_erase] at hm
    split_ifs at hm with he
    exact h.member other m hm

theorem contains_eq (ring : HashRing) (id : NodeId) :
    ring.contains id = (ring.node? id).isSome := by
  rw [HashRing.contains, node?, Option.isSome_map]

theorem node?_insert (ring : HashRing) (node : Node) (virtualNodes : Nat) (id : NodeId) :
    (ring.insert node virtualNodes).node? id =
      if node.id = id then some node else ring.node? id := by
  rw [node?, member?_insert]
  split_ifs <;> rfl

theorem node?_erase (ring : HashRing) (id other : NodeId) :
    (ring.erase id).node? other = if other = id then none else ring.node? other := by
  rw [node?, member?_erase]
  split_ifs <;> rfl

theorem enroll_cons (virtualNodes : Nat) (ring : HashRing) (node : Node) (nodes : List Node) :
    enroll virtualNodes ring (node :: nodes) =
      enroll virtualNodes
        (if ring.contains node.id then ring else ring.insert node virtualNodes) nodes := rfl

/-- A node that is already there stays as it is, and of several new ones with one identifier the
first joins. -/
theorem node?_enroll (virtualNodes : Nat) (ring : HashRing) (nodes : List Node) (id : NodeId) :
    (enroll virtualNodes ring nodes).node? id =
      (ring.node? id).or (nodes.find? fun node => node.id = id) := by
  induction nodes generalizing ring with
  | nil => simp [enroll]
  | cons node nodes ih =>
    rw [enroll_cons, ih]
    by_cases hid : node.id = id
    · subst hid
      rw [List.find?_cons_of_pos (by simp)]
      cases hn : ring.node? node.id with
      | some held => simp [contains_eq, hn]
      | none => simp [contains_eq, hn, node?_insert]
    · rw [List.find?_cons_of_neg (by simpa using hid)]
      congr 1
      split_ifs
      · rfl
      · rw [node?_insert, if_neg hid]

theorem Orderly.enroll {virtualNodes : Nat} {ring : HashRing} (h : Orderly virtualNodes ring)
    (names : List String) :
    Orderly virtualNodes (enroll virtualNodes ring (names.map Node.named)) := by
  induction names generalizing ring with
  | nil => exact h
  | cons name names ih =>
    rw [List.map_cons, enroll_cons]
    apply ih
    cases hc : ring.contains (Node.named name).id with
    | true => exact h
    | false => exact h.insert hc

/-- The ring after several nodes have left. -/
def eraseAll (ring : HashRing) (nodes : List Node) : HashRing :=
  nodes.foldl (fun ring node => ring.erase node.id) ring

theorem node?_eraseAll (ring : HashRing) (nodes : List Node) (id : NodeId) :
    (eraseAll ring nodes).node? id =
      if ∃ node ∈ nodes, node.id = id then none else ring.node? id := by
  induction nodes generalizing ring with
  | nil => simp [eraseAll]
  | cons node nodes ih =>
    rw [eraseAll, List.foldl_cons, ← eraseAll, ih, node?_erase]
    simp only [List.mem_cons, exists_eq_or_imp]
    by_cases he : id = node.id
    · simp [he]
    · simp [he, Ne.symm he]

theorem Orderly.eraseAll {virtualNodes : Nat} {ring : HashRing} (h : Orderly virtualNodes ring)
    (nodes : List Node) : Orderly virtualNodes (eraseAll ring nodes) := by
  induction nodes generalizing ring with
  | nil => exact h
  | cons node nodes ih => exact ih (h.erase node.id)

theorem mem_nodes {ring : HashRing} (h : Settled ring) {node : Node} :
    node ∈ ring.nodes ↔ ring.node? node.id = some node := by
  rw [nodes, List.mem_mergeSort, node?, Option.map_eq_some_iff, List.mem_map]
  constructor
  · rintro ⟨m, hm, rfl⟩
    exact ⟨m, (member?_eq_some_iff h.distinct).mpr ⟨hm, rfl⟩, rfl⟩
  · rintro ⟨m, hm, hnode⟩
    exact ⟨m, ((member?_eq_some_iff h.distinct).mp hm).1, hnode⟩

theorem node?_id {ring : HashRing} {id : NodeId} {node : Node} (h : ring.node? id = some node) :
    node.id = id := by
  obtain ⟨m, hm, rfl⟩ := Option.map_eq_some_iff.mp h
  exact member?_id hm

theorem node?_dismiss {ring : HashRing} (h : Settled ring) (wanted : List Node) (id : NodeId) :
    (dismiss wanted ring).node? id =
      if ∃ node ∈ wanted, node.id = id then ring.node? id else none := by
  rw [dismiss, ← eraseAll, node?_eraseAll]
  cases hn : ring.node? id with
  | none => simp
  | some held =>
    have hid := node?_id hn
    by_cases hw : ∃ node ∈ wanted, node.id = id
    · rw [if_pos hw, if_neg]
      rintro ⟨node, hnode, rfl⟩
      have hout := (List.mem_filter.mp hnode).2
      simp only [Bool.not_eq_true', List.any_eq_false, decide_eq_true_eq] at hout
      obtain ⟨other, ho, heq⟩ := hw
      exact hout other ho heq
    · rw [if_neg hw, if_pos]
      refine ⟨held, List.mem_filter.mpr ⟨(mem_nodes h).mpr (hid ▸ hn), ?_⟩, hid⟩
      simpa [hid] using hw

theorem Orderly.dismiss {virtualNodes : Nat} {ring : HashRing} (h : Orderly virtualNodes ring)
    (wanted : List Node) : Orderly virtualNodes (dismiss wanted ring) := h.eraseAll _

theorem Orderly.update {peerRing : PeerRing} (h : Orderly peerRing.virtualNodes peerRing.ring)
    (peers : List String) :
    Orderly (peerRing.update peers).virtualNodes (peerRing.update peers).ring := by
  simp only [PeerRing.update, nodesOf_eq]
  exact (h.enroll _).dismiss _

/-- A node of the ring stays as it is for as long as the lists name it; the others on the ring are
the first ones in the list with their identifiers. -/
theorem node?_update {peerRing : PeerRing} (h : Orderly peerRing.virtualNodes peerRing.ring)
    (peers : List String) (id : NodeId) :
    (peerRing.update peers).ring.node? id =
      if ∃ address ∈ addresses peers, NodeId.ofName address = id then
        (peerRing.ring.node? id).or
          (((addresses peers).map Node.named).find? fun node => node.id = id)
      else none := by
  simp only [PeerRing.update, nodesOf_eq]
  rw [node?_dismiss (h.enroll _).settled, node?_enroll]
  congr 1
  simp [Node.named]

/-- The nodes of a ring that follows a list are those that the list names. -/
theorem contains_update {peerRing : PeerRing} (h : Orderly peerRing.virtualNodes peerRing.ring)
    (peers : List String) (id : NodeId) :
    (peerRing.update peers).ring.contains id = true ↔
      ∃ address ∈ addresses peers, NodeId.ofName address = id := by
  rw [contains_eq, node?_update h]
  by_cases hn : ∃ address ∈ addresses peers, NodeId.ofName address = id
  · obtain ⟨address, ha, rfl⟩ := hn
    have hex : ∃ address' ∈ addresses peers, NodeId.ofName address' = NodeId.ofName address :=
      ⟨address, ha, rfl⟩
    rw [if_pos hex, Option.isSome_or]
    simp only [hex, iff_true, Bool.or_eq_true]
    right
    rw [List.find?_isSome]
    exact ⟨Node.named address, List.mem_map_of_mem ha, by simp [Node.named]⟩
  · simp [hn]

/-- A ring that has followed lists one after the other, from the time when it was empty. -/
def follow (virtualNodes : Nat) (lists : List (List String)) : PeerRing :=
  lists.foldl PeerRing.update (empty virtualNodes)

theorem follow_concat (virtualNodes : Nat) (lists : List (List String)) (peers : List String) :
    follow virtualNodes (lists ++ [peers]) = (follow virtualNodes lists).update peers := by
  simp [follow]

theorem orderly_follow (virtualNodes : Nat) (lists : List (List String)) :
    Orderly (follow virtualNodes lists).virtualNodes (follow virtualNodes lists).ring := by
  induction lists using List.reverseRecOn with
  | nil => exact orderly_empty virtualNodes
  | append_singleton lists peers ih =>
    rw [follow_concat]
    exact ih.update peers

theorem owner?_eq_some_iff {virtualNodes : Nat} {peerRing : PeerRing}
    (h : Orderly virtualNodes peerRing.ring) {key : CompositeKey} {address : String} :
    peerRing.owner? key = some address ↔
      peerRing.ring.lookup key.encode = some (NodeId.ofName address) ∧
        peerRing.ring.node? (NodeId.ofName address) = some (Node.named address) := by
  rw [owner?, lookupNode, Option.map_eq_some_iff]
  constructor
  · rintro ⟨node, hnode, rfl⟩
    obtain ⟨id, hid, hfound⟩ := Option.bind_eq_some_iff.mp hnode
    obtain ⟨m, hm, rfl⟩ := Option.map_eq_some_iff.mp hfound
    have hnamed := (h.member id m hm).1
    have hname : NodeId.ofName m.node.name = id :=
      (congrArg Node.id hnamed).symm.trans (member?_id hm)
    rw [hname]
    exact ⟨hid, hfound.trans (congrArg some hnamed)⟩
  · rintro ⟨hid, hfound⟩
    refine ⟨Node.named address, ?_, Node.named_name address⟩
    rw [hid, Option.bind_some, hfound]

/-- Rings with the same nodes have the same positions. -/
theorem tokens_eq_of_contains {virtualNodes : Nat} {a b : HashRing} (ha : Orderly virtualNodes a)
    (hb : Orderly virtualNodes b) (h : ∀ id, a.contains id = b.contains id) :
    a.tokens = b.tokens := by
  have hclaims {ring : HashRing} (hr : Orderly virtualNodes ring) (t : Token) (id : NodeId) :
      ring.Claims t id ↔
        ring.contains id = true ∧ t ∈ placements .sipHash id virtualNodes := by
    unfold Claims HashRing.contains
    cases hm : ring.member? id with
    | none => simp
    | some m => simp [(hr.member id m hm).2]
  refine eq_of_holder_eq ha.settled.ascending hb.settled.ascending fun t =>
    (ha.settled.prevails t).unique ?_
  refine (prevails_congr (fun id => ?_) _).mp (hb.settled.prevails t)
  rw [hclaims ha, hclaims hb, h]

end PeerRing

end RecordRelay
