import Mathlib
import RecordRelay.Proofs.Ring.History

/-! The owner of a key holds the claimed position that is nearest clockwise. Positions that appear
or change hands for the sake of one node therefore move keys to or from that node only. -/
namespace RecordRelay

/-- The number of steps clockwise from one position to another. -/
def Token.gap (a b : Token) : Nat := (a.distanceTo b).position.toNat

theorem Token.gap_eq (a b : Token) :
    a.gap b = if a.position.toNat ≤ b.position.toNat then b.position.toNat - a.position.toNat
      else 0x10000000000000000 + b.position.toNat - a.position.toNat := by
  have ha := a.position.toNat_lt
  have hb := b.position.toNat_lt
  simp only [gap, distanceTo, UInt64.toNat_sub]
  split_ifs <;> omega

theorem Token.eq_of_gap_eq {t a b : Token} (h : t.gap a = t.gap b) : a = b := by
  have ha := a.position.toNat_lt
  have hb := b.position.toNat_lt
  have ht := t.position.toNat_lt
  rw [gap_eq, gap_eq] at h
  apply eq_of_toNat_eq
  split_ifs at h <;> omega

namespace HashRing

/-- The entry that a lookup ends at. -/
def nearest? (tokens : List (Token × NodeId)) (t : Token) : Option (Token × NodeId) :=
  match tokens.find? fun entry => !decide (entry.1 < t) with
  | some entry => some entry
  | none => tokens.head?

theorem ownerAt_eq (ring : HashRing) (t : Token) :
    ring.ownerAt t = (nearest? ring.tokens t).map (·.2) := by
  unfold ownerAt nearest?
  cases ring.tokens.find? fun entry => !decide (entry.1 < t) <;> rfl

theorem nearest?_eq_none_iff {tokens : List (Token × NodeId)} {t : Token} :
    nearest? tokens t = none ↔ tokens = [] := by
  unfold nearest?
  cases hf : tokens.find? fun entry => !decide (entry.1 < t) with
  | none => simp
  | some entry => simpa using List.ne_nil_of_mem (List.mem_of_find?_eq_some hf)

theorem nearest?_mem {tokens : List (Token × NodeId)} {t : Token} {entry : Token × NodeId}
    (h : nearest? tokens t = some entry) : entry ∈ tokens := by
  unfold nearest? at h
  cases hf : tokens.find? fun entry => !decide (entry.1 < t) with
  | none => exact List.mem_of_head? (by simpa [hf] using h)
  | some found =>
    obtain rfl : found = entry := by simpa [hf] using h
    exact List.mem_of_find?_eq_some hf

/-- No claimed position is passed on the way. -/
theorem nearest?_le {tokens : List (Token × NodeId)} (ha : Ascending tokens) {t : Token}
    {entry : Token × NodeId} (h : nearest? tokens t = some entry) :
    ∀ other ∈ tokens, t.gap entry.1 ≤ t.gap other.1 := by
  intro other ho
  have ht := t.position.toNat_lt
  have he := entry.1.position.toNat_lt
  have ho' := other.1.position.toNat_lt
  unfold nearest? at h
  rw [Token.gap_eq, Token.gap_eq]
  cases hf : tokens.find? fun entry => !decide (entry.1 < t) with
  | some found =>
    obtain rfl : found = entry := by simpa [hf] using h
    obtain ⟨hstop, before, after, rfl, hpassed⟩ := List.find?_eq_some_iff_append.mp hf
    have hafter := (List.pairwise_append.mp ha).2.1
    rw [List.pairwise_cons] at hafter
    have hstop' : ¬ found.1.position.toNat < t.position.toNat := by simpa [Token.lt_iff] using hstop
    rcases List.mem_append.mp ho with ho | ho
    · have hlt : other.1.position.toNat < t.position.toNat := by
        simpa [Token.lt_iff] using hpassed other ho
      split_ifs <;> omega
    · rcases List.mem_cons.mp ho with rfl | ho
      · exact le_rfl
      · have hlt := Token.lt_iff.mp (hafter.1 other ho)
        split_ifs <;> omega
  | none =>
    -- every position lies before the key, so the walk goes round to the first one
    have hpassed : ∀ e ∈ tokens, e.1.position.toNat < t.position.toNat := by
      simpa [Token.lt_iff] using hf
    cases tokens with
    | nil => simp at ho
    | cons first rest =>
      obtain rfl : first = entry := by simpa [hf] using h
      have hfirst := hpassed first (by simp)
      have hother := hpassed other ho
      rcases List.mem_cons.mp ho with rfl | ho
      · exact le_rfl
      · have hlt := Token.lt_iff.mp ((ascending_cons.mp ha).1 other ho)
        split_ifs <;> omega

theorem ownerAt_eq_some_iff {ring : HashRing} (ha : Ascending ring.tokens) {t : Token}
    {id : NodeId} :
    ring.ownerAt t = some id ↔
      ∃ x, holder ring.tokens x = some id ∧
        ∀ other, holder ring.tokens other ≠ none → t.gap x ≤ t.gap other := by
  have hmem {other : Token} (ho : holder ring.tokens other ≠ none) :
      ∃ entry ∈ ring.tokens, entry.1 = other := by
    by_contra hno
    push Not at hno
    exact ho (holder_eq_none_iff.mpr hno)
  rw [ownerAt_eq]
  constructor
  · intro h
    obtain ⟨entry, hentry, rfl⟩ := Option.map_eq_some_iff.mp h
    refine ⟨entry.1, (mem_iff_holder ha _ _).mp (nearest?_mem hentry), fun other ho => ?_⟩
    obtain ⟨e, he, rfl⟩ := hmem ho
    exact nearest?_le ha hentry e he
  · rintro ⟨x, hx, hle⟩
    have hxmem := (mem_iff_holder ha x id).mpr hx
    cases hn : nearest? ring.tokens t with
    | none => simp [nearest?_eq_none_iff.mp hn] at hxmem
    | some entry =>
      have hheld := (mem_iff_holder ha entry.1 entry.2).mp (nearest?_mem hn)
      have hback := hle entry.1 (by simp [hheld])
      have hforth := nearest?_le ha hn (x, id) hxmem
      have heq : entry.1 = x := Token.eq_of_gap_eq (le_antisymm hforth hback)
      rw [heq, hx] at hheld
      simpa using hheld.symm

theorem ownerAt_eq_none_iff {ring : HashRing} {t : Token} :
    ring.ownerAt t = none ↔ ring.tokens = [] := by
  rw [ownerAt_eq, Option.map_eq_none_iff, nearest?_eq_none_iff]

/-- Positions that only one node gained move keys to that node only. -/
theorem ownerAt_of_gain {a b : HashRing} (ha : Ascending a.tokens) (hb : Ascending b.tokens)
    {id : NodeId} (hkept : ∀ t, holder a.tokens t ≠ none → holder b.tokens t ≠ none)
    (hgain : ∀ t other, holder b.tokens t = some other →
      other = id ∨ holder a.tokens t = some other)
    (t : Token) : b.ownerAt t = a.ownerAt t ∨ b.ownerAt t = some id := by
  cases howner : b.ownerAt t with
  | none =>
    left
    refine (ownerAt_eq_none_iff.mpr ?_).symm
    have hb' := ownerAt_eq_none_iff.mp howner
    refine List.eq_nil_iff_forall_not_mem.mpr fun entry he => ?_
    refine hkept entry.1 ?_ (by rw [hb']; rfl)
    rw [(mem_iff_holder ha entry.1 entry.2).mp he]
    exact Option.some_ne_none _
  | some owner =>
    obtain ⟨x, hx, hle⟩ := (ownerAt_eq_some_iff hb).mp howner
    rcases hgain x owner hx with rfl | hheld
    · exact .inr rfl
    · left
      refine ((ownerAt_eq_some_iff ha).mpr ⟨x, hheld, fun other ho => ?_⟩).symm
      exact hle other (hkept other ho)

theorem holder_insert {ring : HashRing} (h : Settled ring) (node : Node) (virtualNodes : Nat)
    {t : Token} {id : NodeId}
    (hheld : holder (ring.insert node virtualNodes).tokens t = some id) :
    id = node.id ∨ holder ring.tokens t = some id := by
  have hwin := (h.insert node virtualNodes).prevails t
  rw [hheld] at hwin
  by_cases he : id = node.id
  · exact .inl he
  · right
    have hclaims (other : NodeId) (ho : ring.Claims t other) :
        (ring.insert node virtualNodes).Claims t other := by
      rw [claims_iff] at *
      rw [claimsOf_insert]
      split_ifs
      · exact List.mem_append_left _ ho
      · exact ho
    refine (h.prevails t).unique (b := some id)
      ⟨?_, fun other ho => hwin.2 other (hclaims other ho)⟩
    have hid := hwin.1
    rwa [claims_iff, claimsOf_insert, if_neg (Ne.symm he), ← claims_iff] at hid

theorem holder_insert_ne_none {ring : HashRing} (h : Settled ring) (node : Node)
    (virtualNodes : Nat) {t : Token} (hheld : holder ring.tokens t ≠ none) :
    holder (ring.insert node virtualNodes).tokens t ≠ none := by
  obtain ⟨id, hid⟩ := Option.ne_none_iff_exists'.mp hheld
  have hwin := h.prevails t
  have hwin' := (h.insert node virtualNodes).prevails t
  rw [hid] at hwin
  intro hnone
  rw [hnone] at hwin'
  refine hwin' id (claims_iff.mpr ?_)
  rw [claimsOf_insert]
  split_ifs
  · exact List.mem_append_left _ (claims_iff.mp hwin.1)
  · exact claims_iff.mp hwin.1

theorem holder_erase {ring : HashRing} (h : Settled ring) {id : NodeId} {t : Token}
    {other : NodeId} (hheld : holder ring.tokens t = some other) :
    other = id ∨ holder (ring.erase id).tokens t = some other := by
  have hwin := h.prevails t
  rw [hheld] at hwin
  by_cases he : other = id
  · exact .inl he
  · refine .inr (((h.erase id).prevails t).unique (b := some other) ⟨?_, fun o ho => ?_⟩)
    · exact claims_erase_iff.mpr ⟨he, hwin.1⟩
    · exact hwin.2 o (claims_erase_iff.mp ho).2

theorem holder_ne_none_of_erase {ring : HashRing} (h : Settled ring) {id : NodeId} {t : Token}
    (hheld : holder (ring.erase id).tokens t ≠ none) : holder ring.tokens t ≠ none := by
  obtain ⟨other, ho⟩ := Option.ne_none_iff_exists'.mp hheld
  have hwin := (h.erase id).prevails t
  rw [ho] at hwin
  intro hnone
  have hwin' := h.prevails t
  rw [hnone] at hwin'
  exact hwin' other (claims_erase_iff.mp hwin.1).2

/-- A node that joins or grows takes keys and gives none away. -/
theorem lookup_insert {ring : HashRing} (h : Settled ring) (node : Node) (virtualNodes : Nat)
    (key : List UInt8) :
    (ring.insert node virtualNodes).lookup key = ring.lookup key ∨
      (ring.insert node virtualNodes).lookup key = some node.id :=
  ownerAt_of_gain h.ascending (h.insert node virtualNodes).ascending
    (fun _ => holder_insert_ne_none h node virtualNodes)
    (fun _ _ => holder_insert h node virtualNodes) _

/-- A node that leaves gives its keys away, and no others move. -/
theorem lookup_erase {ring : HashRing} (h : Settled ring) {id : NodeId} {key : List UInt8}
    (hkey : ring.lookup key ≠ some id) : (ring.erase id).lookup key = ring.lookup key := by
  have hmove := ownerAt_of_gain (h.erase id).ascending h.ascending
    (fun _ => holder_ne_none_of_erase h) (fun _ _ => holder_erase h) (ring.partitioner.place key)
  rw [lookup, partitioner_erase]
  exact (hmove.resolve_right hkey).symm

/-- The owner of a key is a node of the ring. -/
theorem contains_of_lookup {ring : HashRing} (h : Settled ring) {key : List UInt8} {id : NodeId}
    (hkey : ring.lookup key = some id) : ring.contains id = true := by
  obtain ⟨x, hx, -⟩ := (ownerAt_eq_some_iff h.ascending).mp hkey
  have hwin := h.prevails x
  rw [hx] at hwin
  obtain ⟨m, hm, -⟩ := hwin.1
  simp [contains, hm]

end HashRing

end RecordRelay
