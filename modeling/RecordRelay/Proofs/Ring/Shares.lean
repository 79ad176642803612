import RecordRelay.Proofs.Decimal.Nearest
import RecordRelay.Proofs.Ring.Clockwise
import RecordRelay.Ring.Ownership

/-! The arcs of a ring add up, for every node, to the number of positions whose nearest claimed
position is held by the node. So the shares, as long as nothing is rounded, say how much of the ring
a lookup gives to each node, and together they are the whole ring. A share that is rounded is off by
at most one part in 2^53 for each arc of the node. -/
namespace RecordRelay.HashRing

section Tally

variable {α β : Type} {add : α → α → α}

theorem tally_concat (add : α → α → α) (amounts : List (NodeId × α)) (entry : NodeId × α) :
    tally add (amounts ++ [entry]) = addTo add entry.1 entry.2 (tally add amounts) := by
  rw [tally, List.foldl_append]
  rfl

/-- An owner that has an amount keeps its place, and a new one comes last. -/
theorem owners_addTo (add : α → α → α) (id : NodeId) (amount : α) (totals : List (NodeId × α)) :
    (addTo add id amount totals).map Prod.fst
      = if id ∈ totals.map Prod.fst then totals.map Prod.fst
        else totals.map Prod.fst ++ [id] := by
  induction totals with
  | nil => rfl
  | cons entry rest ih =>
    obtain ⟨other, total⟩ := entry
    rw [addTo]
    by_cases hsame : other = id
    · simp [hsame]
    · rw [if_neg hsame, List.map_cons, ih]
      by_cases hmem : id ∈ rest.map Prod.fst <;> simp [hmem, Ne.symm hsame]

/-- Owners are listed in the order in which they first appear. -/
theorem owners_tally (add : α → α → α) (amounts : List (NodeId × α)) :
    (tally add amounts).map Prod.fst = (amounts.map Prod.fst).eraseDups := by
  induction amounts using List.reverseRecOn with
  | nil => rfl
  | append_singleton amounts entry ih =>
    rw [tally_concat, owners_addTo, ih, List.map_append, List.eraseDups_append]
    by_cases hmem : entry.1 ∈ amounts.map Prod.fst <;>
      simp [List.removeAll, List.eraseDups_cons, hmem]

theorem nodup_owners_tally (add : α → α → α) (amounts : List (NodeId × α)) :
    ((tally add amounts).map Prod.fst).Nodup := by
  induction amounts using List.reverseRecOn with
  | nil => exact List.nodup_nil
  | append_singleton amounts entry ih =>
    rw [tally_concat, owners_addTo]
    split_ifs with hmem
    · exact ih
    · exact List.nodup_append.mpr ⟨ih, List.nodup_singleton _, by grind⟩

theorem map_addTo {other : β → β → β} {f : α → β} (hf : ∀ a b, f (add a b) = other (f a) (f b))
    (id : NodeId) (amount : α) (totals : List (NodeId × α)) :
    (addTo add id amount totals).map (Prod.map (fun id => id) f)
      = addTo other id (f amount) (totals.map (Prod.map (fun id => id) f)) := by
  induction totals with
  | nil => rfl
  | cons entry rest ih =>
    obtain ⟨owner, total⟩ := entry
    rw [addTo, List.map_cons, Prod.map_apply, addTo]
    split_ifs
    · rw [List.map_cons, Prod.map_apply, hf]
    · rw [List.map_cons, Prod.map_apply, ih]

/-- What respects sums may be done before or after they are made. -/
theorem map_tally {other : β → β → β} {f : α → β} (hf : ∀ a b, f (add a b) = other (f a) (f b))
    (amounts : List (NodeId × α)) :
    (tally add amounts).map (Prod.map (fun id => id) f)
      = tally other (amounts.map (Prod.map (fun id => id) f)) := by
  induction amounts using List.reverseRecOn with
  | nil => rfl
  | append_singleton amounts entry ih =>
    rw [tally_concat, map_addTo hf, ih, List.map_append, List.map_singleton, tally_concat]
    rfl

theorem filter_addTo (add : α → α → α) (id owner : NodeId) (amount : α)
    (totals : List (NodeId × α)) :
    (addTo add id amount totals).filter (fun entry => entry.1 = owner)
      = if id = owner then addTo add id amount (totals.filter fun entry => entry.1 = owner)
        else totals.filter fun entry => entry.1 = owner := by
  induction totals with
  | nil =>
    rw [addTo]
    split_ifs with howner
    · rw [List.filter_cons_of_pos (by simpa using howner)]
      rfl
    · rw [List.filter_cons_of_neg (by simpa using howner)]
  | cons entry rest ih =>
    obtain ⟨other, total⟩ := entry
    rw [addTo]
    by_cases hsame : other = id <;> by_cases howner : other = owner <;>
      grind [addTo]

/-- The amounts of one owner are summed as if there were no others. -/
theorem filter_tally (add : α → α → α) (owner : NodeId) (amounts : List (NodeId × α)) :
    (tally add amounts).filter (fun entry => entry.1 = owner)
      = tally add (amounts.filter fun entry => entry.1 = owner) := by
  induction amounts using List.reverseRecOn with
  | nil => rfl
  | append_singleton amounts entry ih =>
    rw [tally_concat, filter_addTo, ih, List.filter_append]
    by_cases howner : entry.1 = owner
    · rw [if_pos howner, List.filter_cons_of_pos (by simpa using howner), List.filter_nil,
        tally_concat]
    · rw [if_neg howner, List.filter_cons_of_neg (by simpa using howner), List.filter_nil,
        List.append_nil]

theorem tally_of_same {first : NodeId × α} {rest : List (NodeId × α)}
    (h : ∀ entry ∈ rest, entry.1 = first.1) :
    tally add (first :: rest) = [(first.1, (rest.map Prod.snd).foldl add first.2)] := by
  induction rest using List.reverseRecOn with
  | nil => rfl
  | append_singleton rest entry ih =>
    have hsame : entry.1 = first.1 := h entry (by simp)
    rw [← List.cons_append, tally_concat, ih fun other hother => h other (by simp [hother]), hsame,
      addTo, if_pos rfl, List.map_append, List.foldl_append]
    rfl

/-- An owner is listed with the sum of its amounts, from the first one on. -/
theorem eq_of_mem_tally {id : NodeId} {total : α} {amounts : List (NodeId × α)}
    (h : (id, total) ∈ tally add amounts) :
    ∃ first rest, (amounts.filter fun entry => entry.1 = id).map Prod.snd = first :: rest
      ∧ total = rest.foldl add first := by
  have hlisted : tally add (amounts.filter fun entry => entry.1 = id) = [(id, total)] := by
    rw [← filter_tally]
    exact filter_key_eq_singleton (nodup_owners_tally _ _) h
  have hsame : ∀ entry ∈ amounts.filter fun entry => entry.1 = id, entry.1 = id :=
    fun entry hentry => by simpa using (List.mem_filter.mp hentry).2
  cases hamounts : amounts.filter fun entry => entry.1 = id with
  | nil =>
    rw [hamounts] at hlisted
    exact absurd hlisted (List.cons_ne_nil _ _).symm
  | cons entry rest =>
    rw [hamounts] at hlisted hsame
    have hfirst := hsame entry List.mem_cons_self
    rw [tally_of_same fun other hother =>
      (hsame other (List.mem_cons_of_mem _ hother)).trans hfirst.symm] at hlisted
    exact ⟨entry.2, rest.map Prod.snd, List.map_cons,
      (Prod.mk.inj (List.singleton_injective hlisted)).2.symm⟩

end Tally

def amountOf (chosen : NodeId → Bool) (amounts : List (NodeId × Nat)) : Nat :=
  ((amounts.filter fun entry => chosen entry.1).map Prod.snd).sum

section Amounts

variable (chosen : NodeId → Bool)

theorem amountOf_cons (entry : NodeId × Nat) (amounts : List (NodeId × Nat)) :
    amountOf chosen (entry :: amounts)
      = (if chosen entry.1 then entry.2 else 0) + amountOf chosen amounts := by
  by_cases h : chosen entry.1 <;> simp [amountOf, h]

theorem amountOf_addTo (id : NodeId) (amount : Nat) (totals : List (NodeId × Nat)) :
    amountOf chosen (addTo (· + ·) id amount totals)
      = amountOf chosen totals + if chosen id then amount else 0 := by
  induction totals with
  | nil => by_cases h : chosen id <;> simp [addTo, amountOf, h]
  | cons entry rest ih =>
    obtain ⟨other, total⟩ := entry
    rw [addTo]
    split_ifs with hsame hchosen
    all_goals simp_all [amountOf_cons]
    all_goals omega

/-- Summing per owner takes nothing away from owners and gives them nothing. -/
theorem amountOf_tally (amounts : List (NodeId × Nat)) :
    amountOf chosen (tally (· + ·) amounts) = amountOf chosen amounts := by
  induction amounts using List.reverseRecOn with
  | nil => rfl
  | append_singleton amounts entry ih =>
    rw [tally_concat, amountOf_addTo, ih]
    by_cases h : chosen entry.1 <;> simp [amountOf, h]

end Amounts

/-- The owner of the first claimed position from a number on, without going round. -/
def ahead (tokens : List (Token × NodeId)) (n : Nat) : Option NodeId :=
  (tokens.find? fun entry => n ≤ entry.1.position.toNat).map Prod.snd

section Ahead

variable {entry : Token × NodeId} {rest : List (Token × NodeId)} {n : Nat}

theorem ahead_of_le (h : n ≤ entry.1.position.toNat) : ahead (entry :: rest) n = some entry.2 := by
  rw [ahead, List.find?_cons_of_pos (by simpa using h)]
  rfl

theorem ahead_of_lt (h : entry.1.position.toNat < n) :
    ahead (entry :: rest) n = ahead rest n := by
  rw [ahead, List.find?_cons_of_neg (by simpa using h)]
  rfl

theorem ownerAt_eq_ahead {ring : HashRing} (h : ring.tokens = entry :: rest) (t : Token) :
    ring.ownerAt t = some ((ahead (entry :: rest) t.position.toNat).getD entry.2) := by
  have hpass : (fun other : Token × NodeId => !decide (other.1 < t))
      = fun other => decide (t.position.toNat ≤ other.1.position.toNat) := by
    funext other
    rw [← decide_not, decide_eq_decide]
    exact Nat.not_lt
  rw [ownerAt, h, hpass, ahead]
  cases (entry :: rest).find? fun other => t.position.toNat ≤ other.1.position.toNat <;> rfl

end Ahead

section Sums

variable {chosen : NodeId → Bool} {first : NodeId} {entry : Token × NodeId}
  {rest : List (Token × NodeId)} {positions : Finset Nat}

theorem sum_ite_const (positions : Finset Nat) (condition : Prop) [Decidable condition] :
    (∑ _n ∈ positions, if condition then 1 else 0) = if condition then positions.card else 0 := by
  split_ifs <;> simp

/-- Up to the first claimed position all ways lead to its owner. -/
theorem sum_ahead_of_le (h : ∀ n ∈ positions, n ≤ entry.1.position.toNat) :
    (∑ n ∈ positions, if chosen ((ahead (entry :: rest) n).getD first) then 1 else 0)
      = if chosen entry.2 then positions.card else 0 := by
  rw [← sum_ite_const]
  refine Finset.sum_congr rfl fun n hn => ?_
  rw [ahead_of_le (h n hn), Option.getD_some]

/-- Behind the first claimed position the others are left. -/
theorem sum_ahead_of_lt (h : ∀ n ∈ positions, entry.1.position.toNat < n) :
    (∑ n ∈ positions, if chosen ((ahead (entry :: rest) n).getD first) then 1 else 0)
      = ∑ n ∈ positions, if chosen ((ahead rest n).getD first) then 1 else 0 :=
  Finset.sum_congr rfl fun n hn => by rw [ahead_of_lt (h n hn)]

end Sums

/-- The last claimed position, given the one before the first. -/
def lastFrom (previous : Token) (tokens : List (Token × NodeId)) : Token :=
  (tokens.getLast?.map Prod.fst).getD previous

theorem lastFrom_cons (previous : Token) (entry : Token × NodeId)
    (rest : List (Token × NodeId)) :
    lastFrom previous (entry :: rest) = lastFrom entry.1 rest := by
  rw [lastFrom, List.getLast?_cons, lastFrom]
  cases rest.getLast? <;> rfl

theorem arcLength_of_lt {previous token : Token} (h : previous < token) :
    arcLength previous token = token.position.toNat - previous.position.toNat := by
  have hlt := Token.lt_iff.mp h
  rw [arcLength, if_neg (by rintro rfl; exact Token.lt_irrefl _ h)]
  rw [← Token.gap, Token.gap_eq, if_pos hlt.le]

/-- Behind a position the way leads to the owners of the arcs that follow and, from the last claimed
position on, to the first owner of the ring. -/
theorem amountOf_arcsFrom (chosen : NodeId → Bool) (first : NodeId) {previous : Token}
    {tokens : List (Token × NodeId)} (ha : Ascending tokens)
    (hlater : ∀ entry ∈ tokens, previous < entry.1) :
    amountOf chosen (arcsFrom previous tokens)
        + (if chosen first then Token.ringSize - ((lastFrom previous tokens).position.toNat + 1)
          else 0)
      = ∑ n ∈ Finset.Ico (previous.position.toNat + 1) Token.ringSize,
          if chosen ((ahead tokens n).getD first) then 1 else 0 := by
  induction tokens generalizing previous with
  | nil =>
    have hnobody (n : Nat) : ahead [] n = none := rfl
    simp only [hnobody, Option.getD_none, sum_ite_const, Nat.card_Ico]
    exact Nat.zero_add _
  | cons entry rest ih =>
    obtain ⟨hrest, hascending⟩ := ascending_cons.mp ha
    have hlt := hlater entry List.mem_cons_self
    have hle : previous.position.toNat + 1 ≤ entry.1.position.toNat + 1 :=
      Nat.succ_le_succ (Token.lt_iff.mp hlt).le
    have hnear : ∑ n ∈ Finset.Ico (previous.position.toNat + 1) (entry.1.position.toNat + 1),
          (if chosen ((ahead (entry :: rest) n).getD first) then 1 else 0)
        = if chosen entry.2 then arcLength previous entry.1 else 0 := by
      rw [sum_ahead_of_le fun n hn => Nat.lt_add_one_iff.mp (Finset.mem_Ico.mp hn).2, Nat.card_Ico,
        arcLength_of_lt hlt, Nat.add_sub_add_right]
    have hend : entry.1.position.toNat + 1 ≤ Token.ringSize := entry.1.position.toNat_lt
    rw [← Finset.sum_Ico_consecutive _ hle hend, hnear,
      sum_ahead_of_lt fun n hn => (Finset.mem_Ico.mp hn).1, ← ih hascending hrest, lastFrom_cons,
      arcsFrom, amountOf_cons, Nat.add_assoc]

theorem le_lastFrom {previous : Token} {tokens : List (Token × NodeId)}
    (hlater : ∀ entry ∈ tokens, previous < entry.1) :
    previous.position.toNat ≤ (lastFrom previous tokens).position.toNat := by
  rw [lastFrom]
  cases hlast : tokens.getLast? with
  | none => exact le_rfl
  | some entry => exact (Token.lt_iff.mp (hlater entry (List.mem_of_getLast? hlast))).le

/-- The arc of the first position goes round the end of the ring. -/
theorem arcLength_of_le {last first : Token} (h : first.position.toNat ≤ last.position.toNat) :
    arcLength last first
      = first.position.toNat + 1 + (Token.ringSize - (last.position.toNat + 1)) := by
  have hend : last.position.toNat + 1 ≤ Token.ringSize := last.position.toNat_lt
  by_cases hsame : last = first
  · rw [arcLength, if_pos hsame, hsame]
    exact (Nat.add_sub_cancel' (hsame ▸ hend)).symm
  · have hne : first.position.toNat ≠ last.position.toNat :=
      fun heq => hsame (Token.eq_of_toNat_eq heq.symm)
    have hsize : Token.ringSize = 0x10000000000000000 := rfl
    rw [arcLength, if_neg hsame, ← Token.gap, Token.gap_eq, if_neg (by omega)]
    omega

/-- The arcs of owners add up to the number of positions that lead to them. -/
theorem amountOf_arcs {ring : HashRing} (ha : Ascending ring.tokens) (chosen : NodeId → Bool) :
    amountOf chosen ring.arcs
      = ∑ n ∈ Finset.range Token.ringSize,
          if (ring.ownerAt ⟨.ofNat n⟩).any chosen then 1 else 0 := by
  cases htokens : ring.tokens with
  | nil =>
    have hnobody (n : Nat) : ring.ownerAt ⟨.ofNat n⟩ = none := ownerAt_eq_none_iff.mpr htokens
    rw [arcs, htokens]
    simp [hnobody, amountOf]
  | cons first rest =>
    obtain ⟨hrest, hascending⟩ := ascending_cons.mp (htokens ▸ ha)
    have howner : ∀ n ∈ Finset.Ico 0 Token.ringSize,
        (if (ring.ownerAt ⟨.ofNat n⟩).any chosen then 1 else 0)
          = if chosen ((ahead (first :: rest) n).getD first.2) then 1 else 0 := fun n hn => by
      have hn : (UInt64.ofNat n).toNat = n := UInt64.toNat_ofNat_of_lt (Finset.mem_Ico.mp hn).2
      rw [ownerAt_eq_ahead htokens, Option.any_some, hn]
    have hlast := le_lastFrom hrest
    have hend : first.1.position.toNat + 1 ≤ Token.ringSize := first.1.position.toNat_lt
    have harcs : ring.arcs = arcsFrom (lastFrom first.1 rest) (first :: rest) := by
      rw [← lastFrom_cons first.1, arcs, lastFrom, htokens, List.getLast?_cons]
      rfl
    rw [Finset.range_eq_Ico, Finset.sum_congr rfl howner,
      ← Finset.sum_Ico_consecutive _ (Nat.zero_le _) hend,
      sum_ahead_of_le fun n hn => Nat.lt_add_one_iff.mp (Finset.mem_Ico.mp hn).2,
      sum_ahead_of_lt fun n hn => (Finset.mem_Ico.mp hn).1,
      ← amountOf_arcsFrom chosen first.2 hascending hrest, Nat.card_Ico, Nat.sub_zero,
      harcs, arcsFrom, amountOf_cons, arcLength_of_le hlast]
    split_ifs
    · omega
    · rfl

theorem owners_arcsFrom (previous : Token) (tokens : List (Token × NodeId)) :
    (arcsFrom previous tokens).map Prod.fst = tokens.map Prod.snd := by
  induction tokens generalizing previous with
  | nil => rfl
  | cons entry rest ih => rw [arcsFrom, List.map_cons, List.map_cons, ih]

theorem owners_arcs (ring : HashRing) : ring.arcs.map Prod.fst = ring.tokens.map Prod.snd := by
  rw [arcs]
  cases hlast : ring.tokens.getLast? with
  | none => rw [List.getLast?_eq_none_iff.mp hlast]; rfl
  | some entry => exact owners_arcsFrom _ _

/-- Counting positions by their numbers. -/
theorem ncard_positions (p : Token → Bool) :
    {t | p t = true}.ncard
      = ∑ n ∈ Finset.range Token.ringSize, if p ⟨.ofNat n⟩ then 1 else 0 := by
  have hnumber {n : Nat} (hn : n < Token.ringSize) : (UInt64.ofNat n).toNat = n :=
    UInt64.toNat_ofNat_of_lt hn
  have himage : {t | p t = true} = (fun n => (⟨.ofNat n⟩ : Token)) ''
      ((Finset.range Token.ringSize).filter fun n => p ⟨.ofNat n⟩ : Finset Nat) := by
    ext t
    simp only [Set.mem_ofPred_eq, Set.mem_image, Finset.coe_filter, Finset.mem_range]
    constructor
    · intro ht
      have hsame : (⟨.ofNat t.position.toNat⟩ : Token) = t := by rw [UInt64.ofNat_toNat]
      exact ⟨t.position.toNat, ⟨t.position.toNat_lt, by rwa [hsame]⟩, hsame⟩
    · rintro ⟨n, ⟨-, hn⟩, rfl⟩
      exact hn
  have hinj : Set.InjOn (fun n => (⟨.ofNat n⟩ : Token))
      ((Finset.range Token.ringSize).filter fun n => p ⟨.ofNat n⟩ : Finset Nat) := by
    intro a ha b hb hab
    have hposition := congrArg (fun t : Token => t.position.toNat) hab
    simp only [Finset.coe_filter, Finset.mem_range, Set.mem_ofPred_eq] at ha hb
    rwa [hnumber ha.1, hnumber hb.1] at hposition
  rw [himage, hinj.ncard_image, Set.ncard_coe_finset, Finset.card_filter]

/-- The arcs of a node cover the positions at which it is found. -/
theorem amountOf_arcs_eq_ncard {ring : HashRing} (ha : Ascending ring.tokens) (id : NodeId) :
    amountOf (fun owner => owner = id) ring.arcs = {t | ring.ownerAt t = some id}.ncard := by
  have hfound : {t | ring.ownerAt t = some id}
      = {t | (ring.ownerAt t).any (fun owner => owner = id) = true} := by
    ext t
    cases howner : ring.ownerAt t <;> simp [howner]
  rw [amountOf_arcs ha, hfound, ncard_positions fun t => (ring.ownerAt t).any _]

theorem eq_of_mem_coverage {ring : HashRing} {id : NodeId} {amount : Nat}
    (h : (id, amount) ∈ ring.coverage) :
    amount = amountOf (fun owner => owner = id) ring.arcs := by
  have hlisted : ring.coverage.filter (fun entry => entry.1 = id) = [(id, amount)] :=
    filter_key_eq_singleton (nodup_owners_tally _ _) h
  calc amount
      = amountOf (fun owner => owner = id) ring.coverage := by rw [amountOf, hlisted]; rfl
    _ = amountOf (fun owner => owner = id) ring.arcs := amountOf_tally _ _

/-- What the nodes of a ring cover is all of it. -/
theorem sum_coverage {ring : HashRing} (ha : Ascending ring.tokens) (hsome : ring.tokens ≠ []) :
    (ring.coverage.map Prod.snd).sum = Token.ringSize := by
  have hfound (t : Token) : (ring.ownerAt t).any (fun _ => true) = true := by
    obtain ⟨id, hid⟩ := Option.ne_none_iff_exists'.mp (mt ownerAt_eq_none_iff.mp hsome)
    rw [hid, Option.any_some]
  calc (ring.coverage.map Prod.snd).sum
      = amountOf (fun _ => true) ring.coverage := by rw [amountOf, List.filter_true]
    _ = amountOf (fun _ => true) ring.arcs := amountOf_tally _ _
    _ = Token.ringSize := by
      rw [amountOf_arcs ha]
      simp [hfound]

def exactShare (length : Nat) : ℚ := length / Token.ringSize

/-- The share of the ring each node owns where nothing is rounded. -/
def exactOwnership (ring : HashRing) : List (NodeId × ℚ) :=
  tally (· + ·) (ring.arcs.map (Prod.map (fun id => id) exactShare))

theorem exactShare_nonneg (length : Nat) : 0 ≤ exactShare length :=
  div_nonneg (Nat.cast_nonneg _) (Nat.cast_nonneg _)

theorem exactShare_add (a b : Nat) : exactShare (a + b) = exactShare a + exactShare b := by
  rw [exactShare, Nat.cast_add, add_div]
  rfl

theorem sum_exactShare (lengths : List Nat) :
    (lengths.map exactShare).sum = exactShare lengths.sum := by
  induction lengths with
  | nil => simp [exactShare]
  | cons length rest ih => rw [List.map_cons, List.sum_cons, ih, List.sum_cons, exactShare_add]

theorem exactShare_ringSize : exactShare Token.ringSize = 1 :=
  div_self (by norm_num [Token.ringSize, UInt64.size])

theorem exactOwnership_eq (ring : HashRing) :
    ring.exactOwnership = ring.coverage.map (Prod.map (fun id => id) exactShare) :=
  (map_tally exactShare_add ring.arcs).symm

theorem owners_exactOwnership (ring : HashRing) :
    ring.exactOwnership.map Prod.fst = (ring.tokens.map Prod.snd).eraseDups := by
  rw [exactOwnership_eq, List.map_map]
  exact (owners_tally _ _).trans (congrArg _ (owners_arcs ring))

theorem arcLength_le (previous token : Token) : arcLength previous token ≤ Token.ringSize := by
  rw [arcLength]
  split_ifs
  · exact le_rfl
  · exact (UInt64.toNat_lt _).le

theorem le_of_mem_arcsFrom {previous : Token} {tokens : List (Token × NodeId)}
    {arc : NodeId × Nat} (h : arc ∈ arcsFrom previous tokens) : arc.2 ≤ Token.ringSize := by
  induction tokens generalizing previous with
  | nil => exact absurd h List.not_mem_nil
  | cons entry rest ih =>
    rw [arcsFrom] at h
    rcases List.mem_cons.mp h with rfl | h
    · exact arcLength_le previous entry.1
    · exact ih h

theorem le_of_mem_arcs {ring : HashRing} {arc : NodeId × Nat} (h : arc ∈ ring.arcs) :
    arc.2 ≤ Token.ringSize := by
  rw [arcs] at h
  split at h
  · exact absurd h List.not_mem_nil
  · exact le_of_mem_arcsFrom h

theorem approximates_share {length : Nat} (h : length ≤ Token.ringSize) :
    (share length).Approximates 1 (exactShare length)
      ∧ (share length).units ≤ 2 ^ Binary64.unitPlaces := by
  have hsize : Token.ringSize = 2 ^ 64 := rfl
  rw [share, exactShare, hsize, Nat.cast_pow, Nat.cast_ofNat]
  exact Binary64.approximates_ofRatio (by decide) h

/-- Each arc that is added brings one rounding more. -/
theorem approximates_foldl {lengths : List Nat} (h : ∀ length ∈ lengths, length ≤ Token.ringSize)
    {x : Binary64} {roundings total : Nat} (hx : x.Approximates roundings (exactShare total))
    (hpos : 1 ≤ roundings) (hunits : x.units ≤ 2 ^ (Binary64.unitPlaces + 54)) :
    ((lengths.map share).foldl Binary64.addMagnitudes x).Approximates (roundings + lengths.length)
      (exactShare (total + lengths.sum)) := by
  induction lengths generalizing x roundings total with
  | nil => exact hx
  | cons length rest ih =>
    obtain ⟨hshare, hone⟩ := approximates_share (h length List.mem_cons_self)
    obtain ⟨hfinite, hsum⟩ := Binary64.units_add_le hunits hone
    have hnext := hx.add hshare hpos (exactShare_nonneg length) hfinite
    rw [← exactShare_add] at hnext
    have hrest := ih (fun other hother => h other (List.mem_cons_of_mem _ hother)) hnext
      (Nat.le_add_left 1 roundings) hsum
    rw [List.map_cons, List.foldl_cons, List.length_cons, List.sum_cons, ← Nat.add_assoc total]
    rwa [Nat.add_assoc roundings, Nat.add_comm 1] at hrest

/-- The share of a node comes from what its arcs cover by one rounding for each of them. -/
theorem approximates_of_mem_ownership {ring : HashRing} {id : NodeId} {rounded : Binary64}
    (h : (id, rounded) ∈ ring.ownership) :
    rounded.Approximates (ring.tokens.countP fun entry => entry.2 = id)
      (exactShare (amountOf (fun owner => owner = id) ring.arcs)) := by
  obtain ⟨first, rest, hshares, rfl⟩ := eq_of_mem_tally h
  -- The shares that are added are those of the arcs of the node.
  obtain ⟨arcs, harcs, hof⟩ : ∃ arcs, (ring.arcs.filter fun arc => arc.1 = id).map Prod.snd = arcs
      ∧ arcs.map share = first :: rest := by
    refine ⟨_, rfl, ?_⟩
    rw [← hshares, List.filter_map, List.map_map, List.map_map]
    rfl
  obtain ⟨length, lengths, rfl, rfl, rfl⟩ := List.map_eq_cons_iff.mp hof
  have hle : ∀ other ∈ length :: lengths, other ≤ Token.ringSize := by
    intro other hother
    rw [← harcs] at hother
    obtain ⟨arc, harc, rfl⟩ := List.mem_map.mp hother
    exact le_of_mem_arcs (List.mem_of_mem_filter harc)
  have hcount : (ring.tokens.countP fun entry => entry.2 = id) = 1 + lengths.length := by
    have hlength := congrArg List.length harcs
    rw [List.length_map, ← List.countP_eq_length_filter, List.length_cons] at hlength
    rw [Nat.add_comm, ← hlength]
    have howners := congrArg (List.countP fun owner => owner = id) (owners_arcs ring)
    rw [List.countP_map, List.countP_map] at howners
    exact howners.symm
  obtain ⟨hfirst, hone⟩ := approximates_share (hle length List.mem_cons_self)
  rw [hcount, amountOf, harcs, List.sum_cons]
  exact approximates_foldl (fun other hother => hle other (List.mem_cons_of_mem _ hother)) hfirst
    le_rfl (hone.trans (Nat.pow_le_pow_right (by decide) (Nat.le_add_right ..)))

theorem owners_ownership (ring : HashRing) :
    ring.ownership.map Prod.fst = (ring.tokens.map Prod.snd).eraseDups := by
  rw [ownership, owners_tally, List.map_map]
  exact congrArg _ (owners_arcs ring)

/-- On any ring that nodes joined and left: the shares, rounded or not, name each node that holds a
claimed position once, in the order in which the positions first come to it. The exact share of a
node is the part of all positions whose nearest claimed position it holds, at which a lookup finds
it, and its rounded share comes from that by one rounding for each of its claimed positions; and the
exact shares of a ring that is not empty make up one whole. -/
theorem ownership_measures_lookup (partitioner : Partitioner) (history : List Change) :
    let ring := run partitioner history
    let won (id : NodeId) : Set Token := {t | ∃ x, ring.Nearest t x ∧ (x, id) ∈ ring.tokens}
    ring.ownership.map Prod.fst = (ring.tokens.map Prod.snd).eraseDups
      ∧ ring.exactOwnership.map Prod.fst = ring.ownership.map Prod.fst
      ∧ (ring.ownership.map Prod.fst).Nodup
      ∧ (∀ id, id ∈ ring.ownership.map Prod.fst ↔ ∃ t, (t, id) ∈ ring.tokens)
      ∧ (∀ id share, (id, share) ∈ ring.exactOwnership →
        share = ((won id).ncard : ℚ) / Token.ringSize)
      ∧ (∀ id share, (id, share) ∈ ring.ownership →
        share.Approximates (ring.tokens.countP fun entry => entry.2 = id)
          (((won id).ncard : ℚ) / Token.ringSize))
      ∧ (∀ id key, ring.lookup key = some id ↔ partitioner.place key ∈ won id)
      ∧ (ring.tokens ≠ [] → (ring.exactOwnership.map Prod.snd).sum = 1) := by
  intro ring won
  have ha : Ascending ring.tokens := (settled_run partitioner history).ascending
  have hwon (id : NodeId) : {t | ring.ownerAt t = some id} = won id := by
    ext t
    exact ownerAt_eq_some_iff_nearest ha
  have howners := owners_ownership ring
  refine ⟨howners, (owners_exactOwnership ring).trans howners.symm, ?_, fun id => ?_,
    fun id share hshare => ?_, fun id share hshare => ?_, fun id key => ?_, fun hsome => ?_⟩
  · exact nodup_owners_tally _ _
  · rw [howners, List.mem_eraseDups, List.mem_map]
    exact ⟨fun ⟨entry, hentry, hid⟩ => ⟨entry.1, hid ▸ hentry⟩, fun ⟨t, ht⟩ => ⟨_, ht, rfl⟩⟩
  · rw [exactOwnership_eq, List.mem_map] at hshare
    obtain ⟨⟨other, amount⟩, hamount, heq⟩ := hshare
    obtain ⟨rfl, rfl⟩ := Prod.mk.inj heq
    rw [eq_of_mem_coverage hamount, amountOf_arcs_eq_ncard ha, hwon, exactShare]
  · rw [← hwon, ← amountOf_arcs_eq_ncard ha]
    exact approximates_of_mem_ownership hshare
  · rw [← hwon, lookup, partitioner_run]
    exact Iff.rfl
  · have hshares : ring.exactOwnership.map Prod.snd
        = (ring.coverage.map Prod.snd).map exactShare := by
      rw [exactOwnership_eq, List.map_map, List.map_map]
      rfl
    rw [hshares, sum_exactShare, sum_coverage ha hsome, exactShare_ringSize]

end RecordRelay.HashRing
