import RecordRelay.Proofs.Ring.Agreement

/-! A ring of peers is changed by the differences between the lists that it follows. It is
nevertheless the same as a ring that is made from the last list alone, in any order and with any
spelling of its addresses, as long as no two addresses that were ever listed share an identifier. -/
namespace RecordRelay.PeerRing
open HashRing

theorem listedBefore_trans (a b c : Node) (hab : listedBefore a b = true)
    (hbc : listedBefore b c = true) : listedBefore a c = true := by
  simp only [listedBefore, Bool.or_eq_true, Bool.and_eq_true, Bool.not_eq_true', decide_eq_true_eq,
    decide_eq_false_iff_not] at *
  rcases hab with hab | ⟨hab, hle⟩
  · rcases hbc with hbc | ⟨hbc, -⟩
    · exact .inl (lt_trans hab hbc)
    · exact .inl (hbc ▸ hab)
  · rcases hbc with hbc | ⟨hbc, hle'⟩
    · exact .inl (hab ▸ hbc)
    · refine .inr ⟨hab.trans hbc, ?_⟩
      rw [NodeId.lt_iff] at *
      omega

theorem listedBefore_total (a b : Node) : (listedBefore a b || listedBefore b a) = true := by
  simp only [listedBefore, Bool.or_eq_true, Bool.and_eq_true, Bool.not_eq_true', decide_eq_true_eq,
    decide_eq_false_iff_not]
  rcases lt_trichotomy a.name b.name with hlt | heq | hlt
  · exact .inl (.inl hlt)
  · by_cases hid : b.id < a.id
    · refine .inr (.inr ⟨heq.symm, ?_⟩)
      rw [NodeId.lt_iff] at *
      omega
    · exact .inl (.inr ⟨heq, hid⟩)
  · exact .inr (.inl hlt)

theorem mem_peers {peerRing : PeerRing} (h : Settled peerRing.ring) {address : String} :
    address ∈ peerRing.peers ↔ ∃ id node, peerRing.ring.node? id = some node ∧
      node.name = address := by
  rw [peers, List.mem_map]
  constructor
  · rintro ⟨node, hnode, rfl⟩
    exact ⟨node.id, node, (mem_nodes h).mp hnode, rfl⟩
  · rintro ⟨id, node, hnode, rfl⟩
    refine ⟨node, (mem_nodes h).mpr ?_, rfl⟩
    rwa [node?_id hnode]

/-- The addresses of the peers come in order, each of them once. -/
theorem pairwise_peers {virtualNodes : Nat} {peerRing : PeerRing}
    (h : Orderly virtualNodes peerRing.ring) : peerRing.peers.Pairwise (· < ·) := by
  have hsorted : peerRing.ring.nodes.Pairwise fun a b => listedBefore a b = true :=
    List.pairwise_mergeSort listedBefore_trans listedBefore_total _
  have hids : (peerRing.ring.members.map Member.node).Pairwise fun a b => a.id ≠ b.id :=
    List.pairwise_map.mpr (List.pairwise_map.mp h.settled.distinct)
  have hdistinct : peerRing.ring.nodes.Pairwise fun a b => a.id ≠ b.id :=
    (List.Perm.pairwise_iff (fun hne => Ne.symm hne) (List.mergeSort_perm _ listedBefore)).mpr hids
  rw [peers, List.pairwise_map]
  refine List.Pairwise.imp_of_mem (fun {a b} ha hb hboth => ?_) (hsorted.and hdistinct)
  obtain ⟨hle, hne⟩ := hboth
  -- Nodes of one name would have the identifier of that name.
  have hnamed {node : Node} (hnode : node ∈ peerRing.ring.nodes) :
      node.id = NodeId.ofName node.name := by
    obtain ⟨m, hm, rfl⟩ := Option.map_eq_some_iff.mp ((mem_nodes h.settled).mp hnode)
    exact congrArg Node.id (h.member _ m hm).1
  simp only [listedBefore, Bool.or_eq_true, Bool.and_eq_true, decide_eq_true_eq] at hle
  rcases hle with hlt | ⟨heq, -⟩
  · exact hlt
  · exact absurd (by rw [hnamed ha, hnamed hb, heq]) hne

/-- The nodes of a ring are those of addresses that were listed. -/
theorem listed_of_node?_follow (virtualNodes : Nat) (lists : List (List String)) {id : NodeId}
    {node : Node} (h : (follow virtualNodes lists).ring.node? id = some node) :
    ∃ address ∈ lists.flatMap addresses, node = Node.named address := by
  induction lists using List.reverseRecOn with
  | nil =>
    have hnone : (follow virtualNodes []).ring.node? id = none := rfl
    rw [hnone] at h
    contradiction
  | append_singleton lists peers ih =>
    rw [follow_concat, node?_update (orderly_follow virtualNodes lists)] at h
    simp only [List.flatMap_append, List.flatMap_singleton, List.mem_append]
    split_ifs at h
    rcases Option.or_eq_some_iff.mp h with hold | ⟨-, hfound⟩
    · obtain ⟨address, haddress, rfl⟩ := ih hold
      exact ⟨address, .inl haddress, rfl⟩
    · obtain ⟨address, haddress, -, rfl⟩ := exists_name_of_find? hfound
      exact ⟨address, .inr haddress, rfl⟩

/-- The nodes of a ring are those of the addresses of the last list. -/
theorem node?_follow_eq_some_iff {virtualNodes : Nat} {lists : List (List String)}
    {peers : List String} (hdistinct : Distinguished ((lists ++ [peers]).flatMap addresses))
    {id : NodeId} {node : Node} :
    (follow virtualNodes (lists ++ [peers])).ring.node? id = some node ↔
      ∃ address ∈ addresses peers, NodeId.ofName address = id ∧ node = Node.named address := by
  rw [List.flatMap_append, List.flatMap_singleton] at hdistinct
  rw [follow_concat]
  refine node?_update_eq_some_iff (orderly_follow virtualNodes lists) hdistinct
    (fun id node hnode => ?_) fun address haddress => List.mem_append_right _ haddress
  obtain ⟨address, haddress, heq⟩ := listed_of_node?_follow virtualNodes lists hnode
  exact ⟨address, List.mem_append_left _ haddress, heq⟩

theorem virtualNodes_follow (virtualNodes : Nat) (lists : List (List String)) :
    (follow virtualNodes lists).virtualNodes = virtualNodes := by
  induction lists using List.reverseRecOn with
  | nil => rfl
  | append_singleton lists peers ih =>
    rw [follow_concat]
    exact ih

theorem denotes_of_perm {peers other : List String} (h : other.Perm peers) :
    Denotes other (addresses peers) := by
  intro address
  exact ((h.map Text.trim).filter _).mem_iff

/-- A ring that has followed lists is the ring of the last one, in any order: the positions, the
owners of all keys and the shares are the same, and its peers are the addresses of that list. -/
theorem follow_alike_rebuilt {virtualNodes : Nat} {lists : List (List String)}
    {peers rebuilt : List String}
    (hdistinct : Distinguished ((lists ++ [peers]).flatMap addresses))
    (hsame : Denotes rebuilt (addresses peers)) :
    (follow virtualNodes (lists ++ [peers])).Alike (ofPeers virtualNodes rebuilt) ∧
      (follow virtualNodes (lists ++ [peers])).peers.Pairwise (· < ·) ∧
      ∀ address, address ∈ (follow virtualNodes (lists ++ [peers])).peers ↔
        address ∈ addresses peers := by
  have horderly (lists : List (List String)) :
      Orderly virtualNodes (follow virtualNodes lists).ring := by
    have hlists := orderly_follow virtualNodes lists
    rwa [virtualNodes_follow] at hlists
  have hfollowed := horderly (lists ++ [peers])
  have hrebuilt : Orderly virtualNodes (ofPeers virtualNodes rebuilt).ring := horderly [rebuilt]
  have hnode (id : NodeId) : (follow virtualNodes (lists ++ [peers])).ring.node? id =
      (ofPeers virtualNodes rebuilt).ring.node? id := by
    have hfresh : Distinguished (([] ++ [rebuilt]).flatMap addresses) := by
      intro a ha b hb
      simp only [List.nil_append, List.flatMap_singleton, hsame _] at ha hb
      apply hdistinct
      · exact List.mem_flatMap.mpr ⟨peers, by simp, ha⟩
      · exact List.mem_flatMap.mpr ⟨peers, by simp, hb⟩
    refine Option.ext fun node => ?_
    have hnew : (ofPeers virtualNodes rebuilt).ring.node? id = some node ↔
        ∃ address ∈ addresses rebuilt, NodeId.ofName address = id ∧ node = Node.named address :=
      node?_follow_eq_some_iff hfresh
    simp only [hsame _] at hnew
    exact (node?_follow_eq_some_iff hdistinct).trans hnew.symm
  refine ⟨alike_of_node?_eq hfollowed hrebuilt hnode, pairwise_peers hfollowed,
    fun address => ?_⟩
  rw [mem_peers hfollowed.settled]
  constructor
  · rintro ⟨id, node, hfound, rfl⟩
    obtain ⟨address, haddress, -, rfl⟩ := (node?_follow_eq_some_iff hdistinct).mp hfound
    exact haddress
  · intro haddress
    exact ⟨NodeId.ofName address, Node.named address,
      (node?_follow_eq_some_iff hdistinct).mpr ⟨address, haddress, rfl, rfl⟩, rfl⟩

/-- A peer that leaves and one that leaves and returns, blanks and repetitions leave no trace. -/
theorem follow_alike_rebuilt_returning :
    Distinguished (([["a", " b"], ["b", "", "c"]] ++ [["c ", "a", " ", "c"]]).flatMap addresses) ∧
      Denotes ["c", " ", "c ", "a"] (addresses ["c ", "a", " ", "c"]) ∧
      (follow 3 ([["a", " b"], ["b", "", "c"]] ++ [["c ", "a", " ", "c"]])).Alike
        (ofPeers 3 ["c", " ", "c ", "a"]) ∧
      (follow 3 ([["a", " b"], ["b", "", "c"]] ++ [["c ", "a", " ", "c"]])).peers.Pairwise
        (· < ·) ∧
      ∀ address, address ∈
          (follow 3 ([["a", " b"], ["b", "", "c"]] ++ [["c ", "a", " ", "c"]])).peers ↔
        address ∈ addresses ["c ", "a", " ", "c"] := by
  have hdistinct : Distinguished
      (([["a", " b"], ["b", "", "c"]] ++ [["c ", "a", " ", "c"]]).flatMap addresses) := by
    rw [Distinguished]
    decide +kernel
  have hsame : Denotes ["c", " ", "c ", "a"] (addresses ["c ", "a", " ", "c"]) :=
    denotes_of_perm (by decide)
  exact ⟨hdistinct, hsame, follow_alike_rebuilt hdistinct hsame⟩

end RecordRelay.PeerRing
