import Mathlib
import RecordRelay.Proofs.Ring.Peers

/-! A change of the ring moves keys only to a node that joins or grows, or away from one that
leaves. So when a ring of peers goes from one list to the next, a key whose owner stays a peer
either keeps it or goes to a new peer. -/
namespace RecordRelay
open HashRing

namespace PeerRing

theorem contains_of_insert {ring : HashRing} {node : Node} {virtualNodes : Nat} {id : NodeId}
    (h : (ring.insert node virtualNodes).contains id = false) : ring.contains id = false := by
  rw [contains_eq, node?_insert] at h
  split_ifs at h
  · simp at h
  · rwa [contains_eq]

/-- Peers that join take keys only to themselves. -/
theorem lookup_enroll {virtualNodes : Nat} {ring : HashRing} (h : Orderly virtualNodes ring)
    (names : List String) (key : List UInt8) :
    (enroll virtualNodes ring (names.map Node.named)).lookup key = ring.lookup key ∨
      ∃ name ∈ names, ring.contains (NodeId.ofName name) = false ∧
        (enroll virtualNodes ring (names.map Node.named)).lookup key =
          some (NodeId.ofName name) := by
  induction names generalizing ring with
  | nil => exact .inl rfl
  | cons name names ih =>
    rw [List.map_cons, enroll_cons]
    cases hc : ring.contains (Node.named name).id with
    | true =>
      rcases ih h with hsame | ⟨other, ho, hnew, hto⟩
      · exact .inl hsame
      · exact .inr ⟨other, List.mem_cons_of_mem _ ho, hnew, hto⟩
    | false =>
      rcases ih (h.insert hc) with hsame | ⟨other, ho, hnew, hto⟩
      · rcases lookup_insert h.settled (Node.named name) virtualNodes key with hstay | hmove
        · exact .inl (hsame.trans hstay)
        · exact .inr ⟨name, List.mem_cons_self, hc, hsame.trans hmove⟩
      · exact .inr ⟨other, List.mem_cons_of_mem _ ho, contains_of_insert hnew, hto⟩

/-- Peers that leave take no key with them that was not theirs. -/
theorem lookup_eraseAll {virtualNodes : Nat} {ring : HashRing} (h : Orderly virtualNodes ring)
    (nodes : List Node) {key : List UInt8}
    (hkey : ∀ node ∈ nodes, ring.lookup key ≠ some node.id) :
    (eraseAll ring nodes).lookup key = ring.lookup key := by
  induction nodes generalizing ring with
  | nil => rfl
  | cons node nodes ih =>
    have hfirst := lookup_erase h.settled (hkey node List.mem_cons_self)
    rw [eraseAll, List.foldl_cons, ← eraseAll, ih (h.erase node.id), hfirst]
    intro other ho
    rw [hfirst]
    exact hkey other (List.mem_cons_of_mem _ ho)

theorem lookup_ne_some_of_erased {ring : HashRing} {wanted : List Node} {id : NodeId}
    (hw : ∃ node ∈ wanted, node.id = id) :
    ∀ node ∈ ring.nodes.filter (fun node => !wanted.any (·.id = node.id)), id ≠ node.id := by
  rintro node hnode rfl
  have hout := (List.mem_filter.mp hnode).2
  simp only [Bool.not_eq_true', List.any_eq_false, decide_eq_true_eq] at hout
  obtain ⟨other, ho, heq⟩ := hw
  exact hout other ho heq

/-- A key of a peer that stays on the list keeps its owner or goes to a peer that was not on the
ring. -/
theorem owner?_update {peerRing : PeerRing} (h : Orderly peerRing.virtualNodes peerRing.ring)
    {peers : List String} {key : CompositeKey} {address : String}
    (howner : peerRing.owner? key = some address) (hstays : address ∈ addresses peers) :
    ∃ next, (peerRing.update peers).owner? key = some next ∧
      (next = address ∨
        (next ∈ addresses peers ∧ peerRing.ring.contains (NodeId.ofName next) = false)) := by
  obtain ⟨hlookup, hfound⟩ := (owner?_eq_some_iff h).mp howner
  have henrolled := h.enroll (addresses peers)
  -- both the old owner and a new one are wanted, so whoever owns the key after joining keeps it
  have hkeep {name : String} (hname : name ∈ addresses peers)
      (hto : (enroll peerRing.virtualNodes peerRing.ring
        ((addresses peers).map Node.named)).lookup key.encode = some (NodeId.ofName name)) :
      (peerRing.update peers).ring.lookup key.encode = some (NodeId.ofName name) := by
    have hwanted : ∃ node ∈ (addresses peers).map Node.named, node.id = NodeId.ofName name :=
      ⟨Node.named name, List.mem_map_of_mem hname, rfl⟩
    simp only [PeerRing.update, nodesOf_eq, dismiss]
    rw [← eraseAll, lookup_eraseAll henrolled, hto]
    intro node hnode
    rw [hto, ne_eq, Option.some.injEq]
    exact lookup_ne_some_of_erased hwanted node hnode
  have hnode {name : String} (hname : name ∈ addresses peers) :
      (peerRing.update peers).ring.node? (NodeId.ofName name) =
        (peerRing.ring.node? (NodeId.ofName name)).or
          (((addresses peers).map Node.named).find? fun node => node.id = NodeId.ofName name) := by
    rw [node?_update h, if_pos ⟨name, hname, rfl⟩]
  rcases lookup_enroll h (addresses peers) key.encode with hsame | ⟨name, hname, hnew, hto⟩
  · refine ⟨address, (owner?_eq_some_iff (h.update peers)).mpr ⟨?_, ?_⟩, .inl rfl⟩
    · exact hkeep hstays (hsame.trans hlookup)
    · rw [hnode hstays, hfound]
      rfl
  · obtain ⟨next, hnext, hid, hfirst⟩ := exists_find?_named hname
    have habsent : peerRing.ring.node? (NodeId.ofName name) = none := by
      rwa [contains_eq, Option.isSome_eq_false_iff, Option.isNone_iff_eq_none] at hnew
    refine ⟨next, (owner?_eq_some_iff (h.update peers)).mpr ⟨?_, ?_⟩, .inr ⟨hnext, ?_⟩⟩
    · rw [hid]
      exact hkeep hname hto
    · rw [hid, hnode hname, habsent, hfirst]
      rfl
    · rw [hid]
      exact hnew

end PeerRing

/-- Keys move no more than they must: an added node takes keys only to itself, a removed one gives
away only its own, and between two peer lists a key whose owner is on both either stays or goes to
a peer that is on the second list only. -/
theorem keys_move_only_where_needed (partitioner : Partitioner) (history : List Change)
    (key : List UInt8) :
    (∀ node virtualNodes,
      ((run partitioner history).insert node virtualNodes).lookup key =
          (run partitioner history).lookup key ∨
        ((run partitioner history).insert node virtualNodes).lookup key = some node.id) ∧
    (∀ id, (run partitioner history).lookup key ≠ some id →
      ((run partitioner history).erase id).lookup key = (run partitioner history).lookup key) ∧
    (∀ virtualNodes lists peers next (values : CompositeKey) owner,
      (PeerRing.follow virtualNodes (lists ++ [peers])).owner? values = some owner →
      owner ∈ PeerRing.addresses next →
      ∃ owner', ((PeerRing.follow virtualNodes (lists ++ [peers])).update next).owner? values =
          some owner' ∧
        (owner' = owner ∨
          (owner' ∈ PeerRing.addresses next ∧ owner' ∉ PeerRing.addresses peers))) := by
  have hsettled := settled_run partitioner history
  refine ⟨fun node virtualNodes => lookup_insert hsettled node virtualNodes key,
    fun id hid => lookup_erase hsettled hid, ?_⟩
  intro virtualNodes lists peers next values owner howner hstays
  have horderly := PeerRing.orderly_follow virtualNodes (lists ++ [peers])
  obtain ⟨owner', howner', hor⟩ := PeerRing.owner?_update horderly howner hstays
  refine ⟨owner', howner', hor.imp_right fun ⟨hnext, hnew⟩ => ⟨hnext, fun hold => ?_⟩⟩
  have hcontains := (PeerRing.contains_update (PeerRing.orderly_follow virtualNodes lists) peers
    (NodeId.ofName owner')).mpr ⟨owner', hold, rfl⟩
  rw [← PeerRing.follow_concat, hnew] at hcontains
  cases hcontains

end RecordRelay
