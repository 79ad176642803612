import Mathlib
import RecordRelay.Ring.HashRing

/-! The list of owners is kept in rising order of positions, and each position is held by the
smallest identifier that ever claimed it. Claiming several positions in any order therefore gives
the same list. -/
namespace RecordRelay

namespace NodeId

theorem lt_iff {a b : NodeId} : a < b ↔ a.value.toNat < b.value.toNat := Iff.rfl

theorem eq_of_toNat_eq {a b : NodeId} (h : a.value.toNat = b.value.toNat) : a = b := by
  cases a
  cases b
  exact congrArg NodeId.mk (BitVec.eq_of_toNat_eq h)

theorem lt_irrefl (a : NodeId) : ¬ a < a := by simp [lt_iff]

theorem lt_trans {a b c : NodeId} (hab : a < b) (hbc : b < c) : a < c := by
  rw [lt_iff] at *
  omega

theorem eq_or_lt_of_not_lt {a b : NodeId} (h : ¬ a < b) : a = b ∨ b < a := by
  rw [lt_iff] at *
  by_cases he : a.value.toNat = b.value.toNat
  · exact .inl (eq_of_toNat_eq he)
  · exact .inr (by omega)

end NodeId

namespace Token

theorem lt_iff {a b : Token} : a < b ↔ a.position.toNat < b.position.toNat := Iff.rfl

theorem eq_of_toNat_eq {a b : Token} (h : a.position.toNat = b.position.toNat) : a = b := by
  cases a
  cases b
  exact congrArg Token.mk (UInt64.toNat_inj.mp h)

theorem lt_irrefl (a : Token) : ¬ a < a := by simp [lt_iff]

theorem lt_trans {a b c : Token} (hab : a < b) (hbc : b < c) : a < c := by
  rw [lt_iff] at *
  omega

theorem lt_of_not_lt_of_ne {a b : Token} (h : ¬ a < b) (hne : a ≠ b) : b < a := by
  have hn : a.position.toNat ≠ b.position.toNat := fun he => hne (eq_of_toNat_eq he)
  rw [lt_iff] at *
  omega

end Token

namespace HashRing

/-- The owner that a list of owners gives to a position. -/
def holder (tokens : List (Token × NodeId)) (t : Token) : Option NodeId :=
  (tokens.find? fun entry => entry.1 = t).map (·.2)

/-- Every position comes once, after the smaller ones. -/
def Ascending (tokens : List (Token × NodeId)) : Prop := tokens.Pairwise fun a b => a.1 < b.1

theorem ascending_cons {entry : Token × NodeId} {tokens : List (Token × NodeId)} :
    Ascending (entry :: tokens) ↔ (∀ other ∈ tokens, entry.1 < other.1) ∧ Ascending tokens :=
  List.pairwise_cons

@[simp] theorem holder_nil (t : Token) : holder [] t = none := rfl

theorem holder_cons (entry : Token × NodeId) (tokens : List (Token × NodeId)) (t : Token) :
    holder (entry :: tokens) t = if entry.1 = t then some entry.2 else holder tokens t := by
  by_cases h : entry.1 = t <;> simp [holder, h]

theorem holder_eq_none_iff {tokens : List (Token × NodeId)} {t : Token} :
    holder tokens t = none ↔ ∀ entry ∈ tokens, entry.1 ≠ t := by simp [holder]

theorem mem_iff_holder {tokens : List (Token × NodeId)} (h : Ascending tokens) (t : Token)
    (id : NodeId) : (t, id) ∈ tokens ↔ holder tokens t = some id := by
  induction tokens with
  | nil => simp
  | cons entry tokens ih =>
    obtain ⟨hfirst, hrest⟩ := ascending_cons.mp h
    rw [holder_cons, List.mem_cons, ih hrest]
    by_cases he : entry.1 = t
    · have hnone : holder tokens t = none := holder_eq_none_iff.mpr fun other ho heq =>
        Token.lt_irrefl t (by simpa [he, heq] using hfirst other ho)
      simp only [he, hnone, if_true, Option.some.injEq, reduceCtorEq, or_false]
      exact ⟨fun hp => by rw [← hp], fun hp => by rw [← he, ← hp]⟩
    · rw [if_neg he]
      exact or_iff_right fun hp => he (by rw [← hp])

/-- A rising list is determined by the owners it gives. -/
theorem eq_of_holder_eq {xs ys : List (Token × NodeId)} (hx : Ascending xs) (hy : Ascending ys)
    (h : ∀ t, holder xs t = holder ys t) : xs = ys := by
  have hmem : ∀ entry, entry ∈ xs ↔ entry ∈ ys := fun (t, id) => by
    rw [mem_iff_holder hx, mem_iff_holder hy, h]
  have hasym : ∀ a b : Token × NodeId, a.1 < b.1 → b.1 < a.1 → a = b :=
    fun _ _ hab hba => absurd (Token.lt_trans hab hba) (Token.lt_irrefl _)
  have hnodup {zs : List (Token × NodeId)} (hz : Ascending zs) : zs.Nodup := by
    refine List.Pairwise.imp (fun {a b} hlt heq => ?_) hz
    exact Token.lt_irrefl b.1 (by simpa [heq] using hlt)
  exact ((List.perm_ext_iff_of_nodup (hnodup hx) (hnodup hy)).mpr hmem).eq_of_pairwise
    (fun a b _ _ => hasym a b) hx hy

/-- The smaller of an identifier and that of a holder, if there is one. -/
def lesser (id : NodeId) : Option NodeId → NodeId
  | none => id
  | some other => if id < other then id else other

theorem mem_claim {token : Token} {id : NodeId} {tokens : List (Token × NodeId)}
    {entry : Token × NodeId} (h : entry ∈ claim token id tokens) :
    entry.1 = token ∨ ∃ other ∈ tokens, other.1 = entry.1 := by
  fun_induction claim token id tokens <;> grind

theorem claim_ascending (token : Token) (id : NodeId) {tokens : List (Token × NodeId)}
    (h : Ascending tokens) : Ascending (claim token id tokens) := by
  induction tokens with
  | nil => simp [claim, Ascending]
  | cons entry tokens ih =>
    obtain ⟨other, owner⟩ := entry
    obtain ⟨hfirst, hrest⟩ := ascending_cons.mp h
    by_cases hlt : token < other
    · rw [claim, if_pos hlt]
      refine ascending_cons.mpr ⟨fun e he => ?_, h⟩
      rcases List.mem_cons.mp he with rfl | he
      · exact hlt
      · exact Token.lt_trans hlt (hfirst e he)
    · by_cases heq : token = other
      · rw [claim, if_neg hlt, if_pos heq]
        exact ascending_cons.mpr ⟨hfirst, hrest⟩
      · rw [claim, if_neg hlt, if_neg heq]
        refine ascending_cons.mpr ⟨fun e he => ?_, ih hrest⟩
        rcases mem_claim he with he | ⟨e', he', heq'⟩
        · exact he ▸ Token.lt_of_not_lt_of_ne hlt heq
        · exact heq' ▸ hfirst e' he'

/-- A claim makes the smaller identifier the holder and leaves every other position alone. -/
theorem holder_claim (token : Token) (id : NodeId) {tokens : List (Token × NodeId)}
    (h : Ascending tokens) (t : Token) :
    holder (claim token id tokens) t =
      if t = token then some (lesser id (holder tokens token)) else holder tokens t := by
  induction tokens with
  | nil => simp [claim, holder_cons, lesser, eq_comm]
  | cons entry tokens ih =>
    obtain ⟨other, owner⟩ := entry
    obtain ⟨hfirst, hrest⟩ := ascending_cons.mp h
    by_cases hlt : token < other
    · -- the position lies before all others, so nobody holds it
      have hne : other ≠ token := fun he => Token.lt_irrefl token (he ▸ hlt)
      have hnone : holder tokens token = none := holder_eq_none_iff.mpr fun e he het =>
        Token.lt_irrefl token (Token.lt_trans hlt (het ▸ hfirst e he))
      simp only [claim, hlt, if_true, holder_cons, hne, if_false, hnone, lesser]
      simp only [eq_comm]
    · by_cases heq : token = other
      · subst heq
        simp only [claim, hlt, if_false, if_true, holder_cons, lesser]
        by_cases ht : t = token
        · simp [ht]
        · simp [ht, Ne.symm ht]
      · simp only [claim, hlt, heq, if_false, holder_cons, ih hrest, Ne.symm heq]
        by_cases ht : t = token
        · simp [ht, Ne.symm heq]
        · simp [ht]

/-- `winner` is the smallest identifier with a property, if any has it. -/
def Prevails (claims : NodeId → Prop) : Option NodeId → Prop
  | none => ∀ id, ¬ claims id
  | some id => claims id ∧ ∀ other, claims other → other = id ∨ id < other

theorem prevails_congr {p q : NodeId → Prop} (h : ∀ id, p id ↔ q id) (winner : Option NodeId) :
    Prevails p winner ↔ Prevails q winner := by
  rw [show p = q from funext fun id => propext (h id)]

theorem prevails_self (winner : Option NodeId) :
    Prevails (fun id => winner = some id) winner := by
  cases winner with
  | none => simp [Prevails]
  | some id => exact ⟨rfl, fun other ho => .inl (Option.some.inj ho).symm⟩

/-- Claimants that lose to others may be added. -/
theorem Prevails.extend {p q : NodeId → Prop} {winner : Option NodeId} (h : Prevails p winner)
    (hpq : ∀ id, p id → q id) (hlose : ∀ id, q id → ∃ other, p other ∧ (id = other ∨ other < id)) :
    Prevails q winner := by
  cases winner with
  | none =>
    intro id hid
    obtain ⟨other, ho, -⟩ := hlose id hid
    exact h other ho
  | some held =>
    refine ⟨hpq held h.1, fun id hid => ?_⟩
    obtain ⟨other, ho, hle⟩ := hlose id hid
    rcases h.2 other ho with rfl | hlt
    · exact hle
    · rcases hle with rfl | hlt'
      · exact .inr hlt
      · exact .inr (NodeId.lt_trans hlt hlt')

theorem prevails_lesser {claims : NodeId → Prop} {winner : Option NodeId}
    (h : Prevails claims winner) (id : NodeId) :
    Prevails (fun other => claims other ∨ other = id) (some (lesser id winner)) := by
  cases winner with
  | none =>
    refine ⟨.inr rfl, fun other ho => .inl ?_⟩
    exact ho.resolve_left (h other)
  | some held =>
    obtain ⟨hheld, hleast⟩ := h
    simp only [lesser]
    split_ifs with hlt
    · refine ⟨.inr rfl, fun other ho => ?_⟩
      rcases ho with ho | rfl
      · rcases hleast other ho with rfl | hlt'
        · exact .inr hlt
        · exact .inr (NodeId.lt_trans hlt hlt')
      · exact .inl rfl
    · refine ⟨.inl hheld, fun other ho => ?_⟩
      rcases ho with ho | rfl
      · exact hleast other ho
      · exact NodeId.eq_or_lt_of_not_lt hlt

/-- There is one winner. -/
theorem Prevails.unique {claims : NodeId → Prop} {a b : Option NodeId} (ha : Prevails claims a)
    (hb : Prevails claims b) : a = b := by
  cases a with
  | none =>
    cases b with
    | none => rfl
    | some id => exact absurd hb.1 (ha id)
  | some id =>
    cases b with
    | none => exact absurd ha.1 (hb id)
    | some other =>
      rcases ha.2 other hb.1 with rfl | hlt
      · rfl
      · rcases hb.2 id ha.1 with rfl | hlt'
        · rfl
        · exact absurd (NodeId.lt_trans hlt hlt') (NodeId.lt_irrefl _)

theorem claimAll_ascending (id : NodeId) (claims : List Token) {tokens : List (Token × NodeId)}
    (h : Ascending tokens) : Ascending (claimAll id claims tokens) := by
  induction claims generalizing tokens with
  | nil => exact h
  | cons token claims ih => exact ih (claim_ascending token id h)

/-- After several claims of a node each position is held by the smallest of its former claimants
and, where it is among the claims, of the node. -/
theorem prevails_claimAll {tokens : List (Token × NodeId)} (h : Ascending tokens) (id : NodeId)
    (claims : List Token) {t : Token} {claimants : NodeId → Prop}
    (hwin : Prevails claimants (holder tokens t)) :
    Prevails (fun other => claimants other ∨ (other = id ∧ t ∈ claims))
      (holder (claimAll id claims tokens) t) := by
  induction claims generalizing tokens claimants with
  | nil => simpa [claimAll] using hwin
  | cons token claims ih =>
    by_cases ht : t = token
    · subst ht
      have hstep : Prevails (fun other => claimants other ∨ other = id)
          (holder (claim t id tokens) t) := by
        rw [holder_claim t id h, if_pos rfl]
        exact prevails_lesser hwin id
      refine (prevails_congr (fun other => ?_) _).mp (ih (claim_ascending t id h) hstep)
      simp only [List.mem_cons, true_or, and_true]
      tauto
    · have hstep : Prevails claimants (holder (claim token id tokens) t) := by
        rwa [holder_claim token id h, if_neg ht]
      refine (prevails_congr (fun other => ?_) _).mp (ih (claim_ascending token id h) hstep)
      simp only [List.mem_cons, ht, false_or]

theorem reclaim_ascending (released : List Token) (members : List Member)
    {tokens : List (Token × NodeId)} (h : Ascending tokens) :
    Ascending (reclaim released members tokens) := by
  induction members generalizing tokens with
  | nil => exact h
  | cons m members ih => exact ih (claimAll_ascending _ _ h)

theorem prevails_reclaim {tokens : List (Token × NodeId)} (h : Ascending tokens)
    (released : List Token) (members : List Member) {t : Token} {claimants : NodeId → Prop}
    (hwin : Prevails claimants (holder tokens t)) :
    Prevails
      (fun other => claimants other ∨
        (t ∈ released ∧ ∃ m ∈ members, m.node.id = other ∧ t ∈ m.claims))
      (holder (reclaim released members tokens) t) := by
  induction members generalizing tokens claimants with
  | nil => simpa [reclaim] using hwin
  | cons m members ih =>
    have hstep := prevails_claimAll h m.node.id (m.claims.filter (released.contains ·)) hwin
    refine (prevails_congr (fun other => ?_) _).mp (ih (claimAll_ascending _ _ h) hstep)
    simp only [List.mem_filter, List.contains_iff_mem, List.mem_cons, exists_eq_or_imp]
    tauto

end HashRing

end RecordRelay
