import RecordRelay.Proofs.Keys
import RecordRelay.Proofs.Ring.Claims
import RecordRelay.Ring.Ownership

/-! A ring is made from an empty one by nodes that join and leave. What its members claim and who
holds each position depends only on the additions of each identifier since it was last taken off:
two histories that leave the same additions leave the same positions, however they went. -/
namespace RecordRelay.HashRing

inductive Change where
  | insert (node : Node) (virtualNodes : Nat)
  | erase (id : NodeId)

def Change.apply (ring : HashRing) : Change → HashRing
  | .insert node virtualNodes => ring.insert node virtualNodes
  | .erase id => ring.erase id

/-- The ring that a history makes of an empty one. -/
def run (partitioner : Partitioner) (history : List Change) : HashRing :=
  history.foldl Change.apply (empty partitioner)

/-- The additions of an identifier that are left after one more change. -/
def Change.amend (id : NodeId) (made : List (Node × Nat)) : Change → List (Node × Nat)
  | .insert node virtualNodes => if node.id = id then made ++ [(node, virtualNodes)] else made
  | .erase other => if other = id then [] else made

/-- The additions of an identifier since it was last taken off the ring. -/
def additions (history : List Change) (id : NodeId) : List (Node × Nat) :=
  history.foldl (Change.amend id) []

/-- The number of virtual nodes that an identifier was given since it last joined. -/
def given (history : List Change) (id : NodeId) : Nat := ((additions history id).map (·.2)).sum

/-- The positions where a partitioner places the texts `id:0`, `id:1` and so on. -/
def placements (partitioner : Partitioner) (id : NodeId) (count : Nat) : List Token :=
  (List.range count).map fun index =>
    partitioner.place (Text.bytes (Text.hexadecimal 32 id.value.toNat ++ ":" ++ index.repr))

/-- A node of the ring claims a position. -/
def Claims (ring : HashRing) (t : Token) (id : NodeId) : Prop :=
  ∃ m, ring.member? id = some m ∧ t ∈ m.claims

/-- Each identifier stands on the ring once, and each position is held by the smallest identifier
that claims it. -/
structure Settled (ring : HashRing) : Prop where
  distinct : (ring.members.map fun m => m.node.id).Nodup
  ascending : Ascending ring.tokens
  prevails : ∀ t, Prevails (ring.Claims t) (holder ring.tokens t)

theorem member?_id {ring : HashRing} {id : NodeId} {m : Member} (h : ring.member? id = some m) :
    m.node.id = id := by simpa using List.find?_some h

theorem member?_eq_some_iff {ring : HashRing}
    (hd : (ring.members.map fun m => m.node.id).Nodup) {id : NodeId} {m : Member} :
    ring.member? id = some m ↔ m ∈ ring.members ∧ m.node.id = id := by
  constructor
  · intro h
    exact ⟨List.mem_of_find?_eq_some h, member?_id h⟩
  · rintro ⟨hm, rfl⟩
    exact find?_key_eq_some hd hm

theorem find?_join (node : Node) (claims : List Token) (members : List Member) (id : NodeId) :
    (join node claims members).find? (fun m => m.node.id = id) =
      if node.id = id then
        some ⟨node, ((members.find? fun m => m.node.id = id).elim [] Member.claims) ++ claims⟩
      else members.find? fun m => m.node.id = id := by
  induction members with
  | nil => by_cases h : node.id = id <;> simp [join, h]
  | cons m members ih => grind [join]

theorem mem_join_id {node : Node} {claims : List Token} {members : List Member} {id : NodeId} :
    id ∈ (join node claims members).map (fun m => m.node.id) ↔
      id = node.id ∨ id ∈ members.map fun m => m.node.id := by
  induction members with
  | nil => simp [join]
  | cons m members ih => grind [join]

theorem join_distinct (node : Node) (claims : List Token) {members : List Member}
    (h : (members.map fun m => m.node.id).Nodup) :
    ((join node claims members).map fun m => m.node.id).Nodup := by
  induction members with
  | nil => simp [join]
  | cons m members ih =>
    rw [List.map_cons, List.nodup_cons] at h
    by_cases he : m.node.id = node.id
    · simpa [join, he] using ⟨by simpa [he] using h.1, h.2⟩
    · rw [join, if_neg he, List.map_cons, List.nodup_cons, mem_join_id]
      exact ⟨not_or.mpr ⟨he, h.1⟩, ih h.2⟩

/-- The positions that a node claims, none if it is not on the ring. -/
def claimsOf (ring : HashRing) (id : NodeId) : List Token :=
  (ring.member? id).elim [] Member.claims

theorem claims_iff {ring : HashRing} {t : Token} {id : NodeId} :
    ring.Claims t id ↔ t ∈ ring.claimsOf id := by
  unfold Claims claimsOf
  cases ring.member? id <;> simp

theorem virtualNodeCount_eq (ring : HashRing) (id : NodeId) :
    ring.virtualNodeCount id = (ring.claimsOf id).length := by
  unfold virtualNodeCount claimsOf
  cases ring.member? id <;> rfl

theorem member?_insert (ring : HashRing) (node : Node) (virtualNodes : Nat) (id : NodeId) :
    (ring.insert node virtualNodes).member? id =
      if node.id = id then
        some ⟨node, ring.claimsOf id ++ positions ring.partitioner id
          (ring.virtualNodeCount id) virtualNodes⟩
      else ring.member? id := by
  rw [member?, insert, find?_join]
  split_ifs with h
  · subst h
    rfl
  · rfl

theorem claimsOf_insert (ring : HashRing) (node : Node) (virtualNodes : Nat) (id : NodeId) :
    (ring.insert node virtualNodes).claimsOf id =
      if node.id = id then
        ring.claimsOf id ++ positions ring.partitioner id (ring.virtualNodeCount id) virtualNodes
      else ring.claimsOf id := by
  rw [claimsOf, member?_insert]
  split_ifs <;> rfl

theorem member?_erase (ring : HashRing) (id other : NodeId) :
    (ring.erase id).member? other = if other = id then none else ring.member? other := by
  unfold erase
  cases h : ring.member? id with
  | none =>
    split_ifs with he
    · exact he ▸ h
    · rfl
  | some leaving =>
    simp only [member?, List.find?_filter]
    split_ifs with he
    · subst he
      simp
    · congr 1
      funext m
      by_cases hm : m.node.id = other <;> simp [hm, he]

theorem claimsOf_erase (ring : HashRing) (id other : NodeId) :
    (ring.erase id).claimsOf other = if other = id then [] else ring.claimsOf other := by
  rw [claimsOf, member?_erase]
  split_ifs <;> rfl

theorem claims_erase_iff {ring : HashRing} {id other : NodeId} {t : Token} :
    (ring.erase id).Claims t other ↔ other ≠ id ∧ ring.Claims t other := by
  rw [claims_iff, claims_iff, claimsOf_erase]
  split_ifs with h <;> simp [h]

@[simp] theorem partitioner_insert (ring : HashRing) (node : Node) (virtualNodes : Nat) :
    (ring.insert node virtualNodes).partitioner = ring.partitioner := rfl

@[simp] theorem partitioner_erase (ring : HashRing) (id : NodeId) :
    (ring.erase id).partitioner = ring.partitioner := by
  unfold erase
  cases ring.member? id <;> rfl

theorem settled_empty (partitioner : Partitioner) : Settled (empty partitioner) where
  distinct := List.nodup_nil
  ascending := List.Pairwise.nil
  prevails t := fun id ⟨_, hm, _⟩ => by simp [member?, empty] at hm

theorem Settled.insert {ring : HashRing} (h : Settled ring) (node : Node) (virtualNodes : Nat) :
    Settled (ring.insert node virtualNodes) where
  distinct := join_distinct _ _ h.distinct
  ascending := claimAll_ascending _ _ h.ascending
  prevails t := by
    refine (prevails_congr (fun other => ?_) _).mp
      (prevails_claimAll h.ascending node.id
        (positions ring.partitioner node.id (ring.virtualNodeCount node.id) virtualNodes)
        (h.prevails t))
    rw [claims_iff, claims_iff, claimsOf_insert]
    split_ifs with he
    · subst he
      simp
    · simp [Ne.symm he]

theorem Settled.erase {ring : HashRing} (h : Settled ring) (id : NodeId) :
    Settled (ring.erase id) := by
  cases hleave : ring.member? id with
  | none => simpa [HashRing.erase, hleave] using h
  | some leaving =>
    have hkept : Ascending (ring.tokens.filter fun entry => entry.2 ≠ id) :=
      h.ascending.filter _
    have hmembers : (ring.erase id).members = ring.members.filter fun m => m.node.id ≠ id := by
      simp [HashRing.erase, hleave]
    have htokens : (ring.erase id).tokens =
        reclaim leaving.claims (ring.members.filter fun m => m.node.id ≠ id)
          (ring.tokens.filter fun entry => entry.2 ≠ id) := by
      simp [HashRing.erase, hleave]
    refine ⟨?_, ?_, fun t => ?_⟩
    · rw [hmembers]
      exact h.distinct.sublist (List.filter_sublist.map _)
    · rw [htokens]
      exact reclaim_ascending _ _ hkept
    · rw [htokens]
      refine (prevails_reclaim hkept leaving.claims _ (prevails_self _)).extend ?_ ?_
      · rintro other (hheld | ⟨-, m, hm, rfl, ht⟩)
        · obtain ⟨hmem, hne⟩ := List.mem_filter.mp ((mem_iff_holder hkept t other).mpr hheld)
          have hwin := h.prevails t
          rw [(mem_iff_holder h.ascending t other).mp hmem] at hwin
          exact claims_erase_iff.mpr ⟨by simpa using hne, hwin.1⟩
        · obtain ⟨hm, hne⟩ := List.mem_filter.mp hm
          exact claims_erase_iff.mpr
            ⟨by simpa using hne, m, (member?_eq_some_iff h.distinct).mpr ⟨hm, rfl⟩, ht⟩
      · intro other ho
        obtain ⟨hne, hclaim⟩ := claims_erase_iff.mp ho
        have hwin := h.prevails t
        cases hw : holder ring.tokens t with
        | none => exact absurd hclaim (by rw [hw] at hwin; exact hwin other)
        | some winner =>
          rw [hw] at hwin
          by_cases he : winner = id
          · -- the leaving node held the position, so the others claim it again
            obtain ⟨m, hm, ht⟩ := hclaim
            obtain ⟨leaving', hl, htl⟩ := hwin.1
            obtain rfl : leaving = leaving' := Option.some.inj (hleave.symm.trans (he ▸ hl))
            obtain ⟨hmem, rfl⟩ := (member?_eq_some_iff h.distinct).mp hm
            refine ⟨m.node.id, .inr ⟨htl, m, ?_, rfl, ht⟩, .inl rfl⟩
            exact List.mem_filter.mpr ⟨hmem, by simpa using hne⟩
          · refine ⟨winner, .inl ?_, hwin.2 other hclaim⟩
            refine (mem_iff_holder hkept t winner).mp (List.mem_filter.mpr ⟨?_, by simpa using he⟩)
            exact (mem_iff_holder h.ascending t winner).mpr hw

theorem run_concat (partitioner : Partitioner) (history : List Change) (change : Change) :
    run partitioner (history ++ [change]) = change.apply (run partitioner history) := by
  simp [run]

theorem settled_run (partitioner : Partitioner) (history : List Change) :
    Settled (run partitioner history) := by
  induction history using List.reverseRecOn with
  | nil => exact settled_empty partitioner
  | append_singleton history change ih =>
    rw [run_concat]
    cases change with
    | insert node virtualNodes => exact ih.insert node virtualNodes
    | erase id => exact ih.erase id

@[simp] theorem partitioner_run (partitioner : Partitioner) (history : List Change) :
    (run partitioner history).partitioner = partitioner := by
  induction history using List.reverseRecOn with
  | nil => rfl
  | append_singleton history change ih =>
    rw [run_concat]
    cases change <;> simpa [Change.apply] using ih

theorem additions_concat (history : List Change) (change : Change) (id : NodeId) :
    additions (history ++ [change]) id = change.amend id (additions history id) := by
  simp [additions]

theorem placements_add (partitioner : Partitioner) (id : NodeId) (m n : Nat) :
    placements partitioner id (m + n) =
      placements partitioner id m ++ positions partitioner id m n := by
  simp only [placements, positions, List.range_eq_range']
  rw [← List.range'_append_1, Nat.zero_add]
  simp only [List.map_append]
  rfl

@[simp] theorem length_placements (partitioner : Partitioner) (id : NodeId) (count : Nat) :
    (placements partitioner id count).length = count := by simp [placements]

/-- The member of an identifier has the description of its last addition and claims as many
positions as all its additions together gave it. -/
theorem member?_run (partitioner : Partitioner) (history : List Change) (id : NodeId) :
    (run partitioner history).member? id = (additions history id).getLast?.map fun last =>
      ⟨last.1, placements partitioner id (given history id)⟩ := by
  induction history using List.reverseRecOn with
  | nil => rfl
  | append_singleton history change ih =>
    have hclaims : (run partitioner history).claimsOf id =
        placements partitioner id (given history id) := by
      rw [claimsOf, ih]
      cases hl : (additions history id).getLast? with
      | none => simp [given, List.getLast?_eq_none_iff.mp hl, placements]
      | some last => rfl
    rw [run_concat, given, additions_concat]
    cases change with
    | insert node virtualNodes =>
      rw [Change.apply, member?_insert, Change.amend]
      split_ifs with he
      · rw [hclaims, virtualNodeCount_eq, hclaims, length_placements, partitioner_run,
          ← placements_add]
        simp [given]
      · exact ih
    | erase other =>
      rw [Change.apply, member?_erase, Change.amend]
      by_cases he : other = id
      · simp [he]
      · rw [if_neg (Ne.symm he), if_neg he]
        exact ih

theorem claimsOf_run (partitioner : Partitioner) (history : List Change) (id : NodeId) :
    (run partitioner history).claimsOf id = placements partitioner id (given history id) := by
  rw [claimsOf, member?_run]
  cases hl : (additions history id).getLast? with
  | none => simp [given, List.getLast?_eq_none_iff.mp hl, placements]
  | some last => rfl

/-- The positions and their owners depend on no more than the numbers of virtual nodes. -/
theorem tokens_run_eq (partitioner : Partitioner) {history other : List Change}
    (h : ∀ id, given history id = given other id) :
    (run partitioner history).tokens = (run partitioner other).tokens := by
  have hx := settled_run partitioner history
  have hy := settled_run partitioner other
  refine eq_of_holder_eq hx.ascending hy.ascending fun t => (hx.prevails t).unique ?_
  refine (prevails_congr (fun id => ?_) _).mp (hy.prevails t)
  rw [claims_iff, claims_iff, claimsOf_run, claimsOf_run, h]

theorem lookup_eq_of_tokens_eq {a b : HashRing} (hp : a.partitioner = b.partitioner)
    (ht : a.tokens = b.tokens) (key : List UInt8) : a.lookup key = b.lookup key := by
  simp only [lookup, ownerAt, hp, ht]

theorem ownership_eq_of_tokens_eq {a b : HashRing} (ht : a.tokens = b.tokens) :
    a.ownership = b.ownership := by simp only [ownership, arcs, ht]

theorem given_insert_erase (history : List Change) (node : Node) (virtualNodes : Nat)
    (h : additions history node.id = []) (id : NodeId) :
    given (history ++ [.insert node virtualNodes] ++ [.erase node.id]) id = given history id := by
  simp only [given, additions_concat, Change.amend]
  split_ifs with he
  · subst he
    rw [h]
  · rfl

/-- What stands on a ring is a function of its history, and the positions with their owners are a
function of the identifiers on it and the numbers of virtual nodes they were given: every position
that a present node claims belongs to the smallest identifier that claims it. -/
theorem run_determined (partitioner : Partitioner) (history : List Change) :
    (∀ id, (run partitioner history).contains id = true ↔ additions history id ≠ []) ∧
    (∀ id, (run partitioner history).node? id = (additions history id).getLast?.map (·.1)) ∧
    (∀ id m, (run partitioner history).member? id = some m →
      m.claims = placements partitioner id (given history id)) ∧
    (∀ id, (run partitioner history).virtualNodeCount id = given history id) ∧
    Ascending (run partitioner history).tokens ∧
    (∀ t, (∃ id, (t, id) ∈ (run partitioner history).tokens) ↔
      ∃ id, t ∈ placements partitioner id (given history id)) ∧
    (∀ t id, (t, id) ∈ (run partitioner history).tokens ↔
      t ∈ placements partitioner id (given history id) ∧
        ∀ other, t ∈ placements partitioner other (given history other) →
          other = id ∨ id < other) ∧
    (∀ other, (∀ id, given history id = given other id) →
      (run partitioner history).tokens = (run partitioner other).tokens ∧
      (∀ key, (run partitioner history).lookup key = (run partitioner other).lookup key) ∧
      (run partitioner history).ownership = (run partitioner other).ownership) ∧
    (∀ node virtualNodes, (run partitioner history).contains node.id = false →
      (((run partitioner history).insert node virtualNodes).erase node.id).tokens =
        (run partitioner history).tokens) := by
  have hsettled := settled_run partitioner history
  have hcontains (id : NodeId) :
      (run partitioner history).contains id = true ↔ additions history id ≠ [] := by
    rw [contains, member?_run, Option.isSome_map, Option.isSome_iff_ne_none, ne_eq,
      List.getLast?_eq_none_iff]
  have hclaims (t : Token) (id : NodeId) : (run partitioner history).Claims t id ↔
      t ∈ placements partitioner id (given history id) := by rw [claims_iff, claimsOf_run]
  refine ⟨hcontains, fun id => ?_, fun id m hm => ?_, fun id => ?_, hsettled.ascending,
    fun t => ?_, fun t id => ?_, fun other h => ?_, fun node virtualNodes h => ?_⟩
  · rw [node?, member?_run, Option.map_map]
    rfl
  · rw [← claimsOf_run, claimsOf, hm]
    rfl
  · rw [virtualNodeCount_eq, claimsOf_run, length_placements]
  · have hwin := hsettled.prevails t
    simp only [mem_iff_holder hsettled.ascending, ← hclaims]
    cases hheld : holder (run partitioner history).tokens t with
    | none => simpa using (show ∀ id, _ by rw [hheld] at hwin; exact hwin)
    | some winner =>
      rw [hheld] at hwin
      exact ⟨fun _ => ⟨winner, hwin.1⟩, fun _ => ⟨winner, rfl⟩⟩
  · have hwin := hsettled.prevails t
    simp only [mem_iff_holder hsettled.ascending, ← hclaims]
    constructor
    · intro hheld
      rw [hheld] at hwin
      exact hwin
    · intro hid
      exact hwin.unique (b := some id) hid
  · have htokens := tokens_run_eq partitioner h
    exact ⟨htokens, lookup_eq_of_tokens_eq (by simp) htokens, ownership_eq_of_tokens_eq htokens⟩
  · have habsent : additions history node.id = [] := by
      by_contra hne
      rw [(hcontains node.id).mpr hne] at h
      cases h
    have hrun : ((run partitioner history).insert node virtualNodes).erase node.id =
        run partitioner (history ++ [.insert node virtualNodes] ++ [.erase node.id]) := by
      rw [run_concat, run_concat]
      rfl
    rw [hrun]
    exact tokens_run_eq partitioner (given_insert_erase history node virtualNodes habsent)

end RecordRelay.HashRing
