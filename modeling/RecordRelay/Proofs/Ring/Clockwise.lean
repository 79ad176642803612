import RecordRelay.Proofs.Ring.Lookup

/-! A key belongs to the holder of the claimed position that is nearest clockwise. Which one that is
depends on the distances alone, which go round past the end of the ring, and its holder is a node of
the ring. -/
namespace RecordRelay

theorem Token.eq_of_distanceTo_eq_zero {a b : Token} (h : a.distanceTo b = .zero) : b = a := by
  have hself : a.gap b = a.gap a := by rw [gap, gap, h, distanceTo_self]
  exact eq_of_gap_eq hself

namespace HashRing

variable {ring : HashRing} {t x : Token} {id : NodeId}

/-- The claimed position to which the way clockwise from `t` is shorter than to all others. -/
structure Nearest (ring : HashRing) (t x : Token) : Prop where
  claimed : ∃ id, (x, id) ∈ ring.tokens
  shorter : ∀ entry ∈ ring.tokens, entry.1 ≠ x → t.distanceTo x < t.distanceTo entry.1

theorem Nearest.unique {y : Token} (hx : ring.Nearest t x) (hy : ring.Nearest t y) : x = y := by
  by_contra hne
  obtain ⟨id, hid⟩ := hx.claimed
  obtain ⟨other, hother⟩ := hy.claimed
  have hforth := hy.shorter _ hid hne
  have hback := hx.shorter _ hother (Ne.symm hne)
  exact Token.lt_irrefl _ (Token.lt_trans hforth hback)

theorem nearest_of_nearest? (ha : Ascending ring.tokens) {entry : Token × NodeId}
    (h : nearest? ring.tokens t = some entry) : ring.Nearest t entry.1 where
  claimed := ⟨entry.2, nearest?_mem h⟩
  shorter other hother hne :=
    lt_of_le_of_ne (nearest?_le ha h other hother) fun heq => hne (Token.eq_of_gap_eq heq.symm)

theorem exists_nearest (ha : Ascending ring.tokens) (hsome : ring.tokens ≠ []) (t : Token) :
    ∃ x, ring.Nearest t x := by
  cases hn : nearest? ring.tokens t with
  | none => exact absurd (nearest?_eq_none_iff.mp hn) hsome
  | some entry => exact ⟨entry.1, nearest_of_nearest? ha hn⟩

/-- A claimed position is nearest to itself. -/
theorem nearest_self (hclaimed : ∃ id, (t, id) ∈ ring.tokens) : ring.Nearest t t where
  claimed := hclaimed
  shorter entry _ hne := by
    have hzero : (Token.zero).position.toNat = 0 := rfl
    rw [Token.distanceTo_self, Token.lt_iff, hzero, Nat.pos_iff_ne_zero]
    exact fun heq => hne (Token.eq_of_distanceTo_eq_zero (Token.eq_of_toNat_eq heq))

/-- The nearest position is at no distance exactly if the position itself is claimed. -/
theorem Nearest.distanceTo_eq_zero_iff (h : ring.Nearest t x) :
    t.distanceTo x = .zero ↔ ∃ id, (t, id) ∈ ring.tokens := by
  constructor
  · intro hzero
    rw [← Token.eq_of_distanceTo_eq_zero hzero]
    exact h.claimed
  · intro hclaimed
    rw [h.unique (nearest_self hclaimed), Token.distanceTo_self]

theorem ownerAt_eq_some_iff_nearest (ha : Ascending ring.tokens) :
    ring.ownerAt t = some id ↔ ∃ x, ring.Nearest t x ∧ (x, id) ∈ ring.tokens := by
  rw [ownerAt_eq, Option.map_eq_some_iff]
  constructor
  · rintro ⟨entry, hentry, rfl⟩
    exact ⟨entry.1, nearest_of_nearest? ha hentry, nearest?_mem hentry⟩
  · rintro ⟨x, hx, hid⟩
    cases hn : nearest? ring.tokens t with
    | none => simp [nearest?_eq_none_iff.mp hn] at hid
    | some entry =>
      obtain rfl := (nearest_of_nearest? ha hn).unique hx
      -- a position stands in the list once, so its holder is the one that was found
      have hheld := (mem_iff_holder ha entry.1 entry.2).mp (nearest?_mem hn)
      rw [(mem_iff_holder ha entry.1 id).mp hid] at hheld
      exact ⟨entry, rfl, (Option.some.inj hheld).symm⟩

theorem node?_run (partitioner : Partitioner) (history : List Change) (id : NodeId) :
    (run partitioner history).node? id = (additions history id).getLast?.map Prod.fst := by
  rw [node?, member?_run, Option.map_map]
  rfl

/-- On any ring that nodes joined and left: nobody is found for a key only where nothing is
claimed. Otherwise one claimed position is nearest clockwise to where the key is placed, at no
distance if the key is placed on it; its holder owns the key and is a node of the ring, which is
found as it was last described. -/
theorem lookup_nearest_clockwise (partitioner : Partitioner) (history : List Change)
    (key : List UInt8) :
    let ring := run partitioner history
    let t := partitioner.place key
    (ring.lookup key = none ↔ ring.tokens = [])
      ∧ (ring.lookupNode key = none ↔ ring.tokens = [])
      ∧ (ring.tokens ≠ [] → ∃ x id node,
        (ring.Nearest t x ∧ ∀ y, ring.Nearest t y → y = x)
          ∧ (t.distanceTo x = .zero ↔ ∃ other, (t, other) ∈ ring.tokens)
          ∧ (x, id) ∈ ring.tokens ∧ ring.lookup key = some id
          ∧ ring.lookupNode key = some node ∧ node.id = id
          ∧ ring.contains id = true ∧ ring.node? id = some node
          ∧ (additions history id).getLast?.map Prod.fst = some node) := by
  intro ring t
  have hsettled : Settled ring := settled_run partitioner history
  have hlookup : ring.lookup key = ring.ownerAt t := by
    rw [lookup, partitioner_run]
  have hnode (id : NodeId) (hid : ring.lookup key = some id) :
      ∃ node, ring.node? id = some node ∧ node.id = id := by
    have hcontains := contains_of_lookup hsettled hid
    obtain ⟨m, hm⟩ := Option.isSome_iff_exists.mp hcontains
    exact ⟨m.node, by rw [node?, hm]; rfl, member?_id hm⟩
  have hnone : ring.lookup key = none ↔ ring.tokens = [] := by
    rw [hlookup, ownerAt_eq_none_iff]
  refine ⟨hnone, ?_, fun hsome => ?_⟩
  · rw [← hnone, lookupNode, Option.bind_eq_none_iff]
    constructor
    · intro hfails
      refine Option.eq_none_iff_forall_ne_some.mpr fun id hid => ?_
      obtain ⟨node, hfound, -⟩ := hnode id hid
      simp [hfails id hid] at hfound
    · intro hnobody id hid
      simp [hnobody] at hid
  · obtain ⟨x, hx⟩ := exists_nearest hsettled.ascending hsome t
    obtain ⟨id, hid⟩ := hx.claimed
    have howner : ring.lookup key = some id := by
      rw [hlookup]
      exact (ownerAt_eq_some_iff_nearest hsettled.ascending).mpr ⟨x, hx, hid⟩
    obtain ⟨node, hfound, hsame⟩ := hnode id howner
    have hfirst : ring.lookupNode key = some node := by
      rw [lookupNode, howner, Option.bind_some, hfound]
    exact ⟨x, id, node, ⟨hx, fun y hy => hy.unique hx⟩, hx.distanceTo_eq_zero_iff, hid, howner,
      hfirst, hsame, contains_of_lookup hsettled howner, hfound,
      (node?_run partitioner history id).symm.trans hfound⟩

end HashRing

end RecordRelay
