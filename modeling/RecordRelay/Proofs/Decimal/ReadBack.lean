import Mathlib
import RecordRelay.Decimal.Shortest

/-! Rounding depends on a quotient only, so a decimal is read as the same number whether a zero
stands at the end of its digits or in its exponent. The exact decimal of a number reads back as the
number, and with it the shortest one, also once its zeros are taken off. -/
namespace RecordRelay

namespace Binary64

theorem roundHalfEven_mul {k : Nat} (hk : 0 < k) (num den : Nat) :
    roundHalfEven (k * num) (k * den) = roundHalfEven num den := by
  have hr (r : Nat) : 2 * (k * r) < k * den ↔ 2 * r < den := by
    rw [Nat.mul_left_comm, Nat.mul_lt_mul_left hk]
  have hr' (r : Nat) : k * den < 2 * (k * r) ↔ den < 2 * r := by
    rw [Nat.mul_left_comm, Nat.mul_lt_mul_left hk]
  simp only [roundHalfEven, Nat.mul_div_mul_left _ _ hk, Nat.mul_mod_mul_left, hr, hr']

theorem nearestRank_mul {k : Nat} (hk : 0 < k) (num den : Nat) :
    nearestRank (k * num) (k * den) = nearestRank num den := by
  simp only [nearestRank, Nat.mul_div_mul_left _ _ hk, Nat.shiftLeft_eq, Nat.mul_assoc,
    roundHalfEven_mul hk]

theorem nearest_mul {k : Nat} (hk : 0 < k) (negative : Bool) (num den : Nat) :
    nearest negative (k * num) (k * den) = nearest negative num den := by
  simp only [nearest, nearestRank_mul hk]

/-- Quotients that are equal as fractions have the same nearest number. -/
theorem nearest_congr {num den num' den' : Nat} (hden : 0 < den) (hden' : 0 < den')
    (h : num * den' = num' * den) (negative : Bool) :
    nearest negative num den = nearest negative num' den' := by
  rw [← nearest_mul hden' negative num den, ← nearest_mul hden negative num' den',
    Nat.mul_comm den' num, h, Nat.mul_comm den' den, Nat.mul_comm num' den]

theorem div_le_roundHalfEven (num den : Nat) : num / den ≤ roundHalfEven num den := by
  simp only [roundHalfEven]
  split_ifs <;> omega

theorem roundHalfEven_one (num : Nat) : roundHalfEven num 1 = num := by
  simp [roundHalfEven, Nat.mod_one]

theorem roundHalfEven_mul_right {den : Nat} (hden : 0 < den) (n : Nat) :
    roundHalfEven (n * den) den = n := by
  rw [Nat.mul_comm]
  nth_rewrite 2 [← Nat.mul_one den]
  rw [roundHalfEven_mul hden, roundHalfEven_one]

/-- A quotient of at least `2 ^ 2098` units is beyond the largest finite number. -/
theorem rankLimit_le_nearestRank {num den : Nat} (h : 2098 ≤ (num / den).log2) :
    rankLimit ≤ nearestRank num den := by
  have hne : num / den ≠ 0 := by
    intro h0
    rw [h0, Nat.log2_zero] at h
    omega
  have hround : perExponent ≤ roundHalfEven num (den <<< ((num / den).log2 - 52)) := by
    refine le_trans ?_ (div_le_roundHalfEven _ _)
    rw [Nat.shiftLeft_eq, ← Nat.div_div_eq_div_mul, Nat.le_div_iff_mul_le (Nat.two_pow_pos _)]
    calc perExponent * 2 ^ ((num / den).log2 - 52)
        = 2 ^ (52 + ((num / den).log2 - 52)) := by rw [Nat.pow_add]; rfl
      _ = 2 ^ (num / den).log2 := by congr 1; omega
      _ ≤ num / den := Nat.log2_self_le hne
  have hscale : 2046 * perExponent ≤ ((num / den).log2 - 52) * perExponent :=
    Nat.mul_le_mul_right _ (by omega)
  rw [nearestRank, rankLimit]
  omega

/-- Less than half a unit is rounded to zero. -/
theorem nearestRank_eq_zero {num den : Nat} (h : 2 * num < den) : nearestRank num den = 0 := by
  have hq : num / den = 0 := Nat.div_eq_of_lt (by omega)
  have hr : num % den = num := Nat.mod_eq_of_lt (by omega)
  simp [nearestRank, roundHalfEven, hq, hr, h]

theorem nearest_eq_none {num den : Nat} (h : 2098 ≤ (num / den).log2) (negative : Bool) :
    nearest negative num den = none := by
  have hrank : ¬ nearestRank num den < rankLimit := Nat.not_lt.mpr (rankLimit_le_nearestRank h)
  rw [nearest, dif_neg hrank]

theorem nearest_eq_some {num den rank : Nat} (h : nearestRank num den = rank)
    (hrank : rank < rankLimit) (negative : Bool) :
    nearest negative num den = some ⟨negative, rank, hrank⟩ := by
  subst h
  rw [nearest, dif_pos hrank]

theorem log2_unitsOfRank {rank : Nat} (h : perExponent ≤ rank) :
    (unitsOfRank rank).log2 = 52 + (rank / perExponent - 1) := by
  have hmod : rank % perExponent < perExponent := Nat.mod_lt _ (by decide)
  have hpow : 2 ^ 52 = perExponent := rfl
  have hpos : 0 < 2 ^ (rank / perExponent - 1) := Nat.two_pow_pos _
  rw [unitsOfRank, if_neg (Nat.not_lt.mpr h), Nat.shiftLeft_eq]
  refine (Nat.log2_eq_iff ?_).mpr ⟨?_, ?_⟩
  · exact Nat.mul_ne_zero (Nat.ne_of_gt (Nat.add_pos_left (by decide) _)) (Nat.ne_of_gt hpos)
  · rw [Nat.pow_add, hpow]
    exact Nat.mul_le_mul_right _ (Nat.le_add_right _ _)
  · rw [Nat.pow_succ, Nat.pow_add, hpow, Nat.mul_right_comm]
    exact Nat.mul_lt_mul_of_pos_right (by omega) hpos

/-- A magnitude is a whole number of units, and the nearest one to itself. -/
theorem nearestRank_unitsOfRank (rank : Nat) : nearestRank (unitsOfRank rank) 1 = rank := by
  rw [nearestRank, Nat.div_one]
  by_cases h : rank < perExponent
  · have hlog : rank.log2 - 52 = 0 := by
      rcases Nat.eq_zero_or_pos rank with rfl | hpos
      · rfl
      · have : rank.log2 < 52 := (Nat.log2_lt (by omega)).mpr h
        omega
    rw [unitsOfRank, if_pos h, hlog, Nat.zero_mul, Nat.zero_add, Nat.shiftLeft_zero]
    exact roundHalfEven_one rank
  · have hone : 1 ≤ rank / perExponent := (Nat.one_le_div_iff (by decide)).mpr (Nat.not_lt.mp h)
    have hwhole : (rank / perExponent - 1) * perExponent + perExponent
        = perExponent * (rank / perExponent) := by
      rw [← Nat.succ_mul, Nat.mul_comm]
      congr 1
      omega
    rw [log2_unitsOfRank (Nat.not_lt.mp h), Nat.add_sub_cancel_left, unitsOfRank, if_neg h,
      Nat.shiftLeft_eq, Nat.shiftLeft_eq, Nat.one_mul, roundHalfEven_mul_right (Nat.two_pow_pos _),
      ← Nat.add_assoc, hwhole, Nat.div_add_mod]

theorem unitsPerOne_eq : unitsPerOne = 2 ^ unitPlaces := by
  rw [unitsPerOne, Nat.shiftLeft_eq, Nat.one_mul]

/-- An exponent of more than 310 leaves the finite range. -/
theorem le_log2_of_large {digits n : Nat} (hd : digits ≠ 0) (hn : 310 < n) :
    2098 ≤ (digits * 10 ^ n * unitsPerOne).log2 := by
  have hmono (m : Nat) (hm : m ≤ n) : 10 ^ m ≤ 10 ^ n := Nat.pow_le_pow_right (by omega) hm
  have hten : 2 ^ (93 * 11 + 1) ≤ 10 ^ n := by
    calc 2 ^ (93 * 11 + 1) = (2 ^ 93) ^ 11 * 2 ^ 1 := by rw [Nat.pow_add, Nat.pow_mul]
      _ ≤ (10 ^ 28) ^ 11 * 10 ^ 3 :=
        Nat.mul_le_mul (Nat.pow_le_pow_left (by norm_num) 11) (by norm_num)
      _ = 10 ^ (28 * 11 + 3) := by rw [Nat.pow_add, Nat.pow_mul]
      _ ≤ 10 ^ n := hmono _ hn
  have hprod : 2 ^ (93 * 11 + 1 + unitPlaces) ≤ digits * 10 ^ n * unitsPerOne := by
    rw [Nat.pow_add _ _ unitPlaces, unitsPerOne_eq]
    refine Nat.mul_le_mul_right _ (le_trans hten ?_)
    exact Nat.le_mul_of_pos_left _ (Nat.pos_of_ne_zero hd)
  refine (Nat.le_log2 ?_).mpr hprod
  exact Nat.ne_of_gt (lt_of_lt_of_le (Nat.two_pow_pos _) hprod)

/-- A decimal with a small exponent is less than half a unit. -/
theorem lt_pow_of_small {digits n : Nat} (hn : digits.log2 + unitPlaces + 3 ≤ 3 * n) :
    2 * (digits * unitsPerOne) < 10 ^ n := by
  have hpos : 0 < unitsPerOne := by
    rw [unitsPerOne_eq]
    exact Nat.two_pow_pos _
  calc 2 * (digits * unitsPerOne)
      < 2 * (2 ^ (digits.log2 + 1) * unitsPerOne) :=
        Nat.mul_lt_mul_of_pos_left (Nat.mul_lt_mul_of_pos_right Nat.lt_log2_self hpos) (by omega)
    _ = 2 ^ (1 + (digits.log2 + 1 + unitPlaces)) := by
        rw [Nat.pow_add 2 1, Nat.pow_add 2 (digits.log2 + 1), unitsPerOne_eq, Nat.pow_one]
    _ ≤ 2 ^ (3 * n) := Nat.pow_le_pow_right (by omega) (by omega)
    _ = 8 ^ n := Nat.pow_mul 2 3 n
    _ ≤ 10 ^ n := Nat.pow_le_pow_left (by omega) n

/-- The exponents that are answered at once are answered as rounding would. -/
theorem ofDecimal_eq_nearest {digits : Nat} (hd : digits ≠ 0) (negative : Bool) (exponent : Int) :
    ofDecimal negative digits exponent
      = nearest negative (digits * 10 ^ exponent.toNat * unitsPerOne) (10 ^ (-exponent).toNat) := by
  rw [ofDecimal, if_neg hd]
  split_ifs with hlarge hsmall
  · have hzero : (-exponent).toNat = 0 := by omega
    refine (nearest_eq_none ?_ negative).symm
    rw [hzero, Nat.pow_zero, Nat.div_one]
    exact le_log2_of_large hd (by omega)
  · have hzero : exponent.toNat = 0 := by omega
    refine (nearest_eq_some (nearestRank_eq_zero ?_) _ negative).symm
    rw [hzero, Nat.pow_zero, Nat.mul_one]
    refine lt_pow_of_small ?_
    have : unitPlaces = 1074 := rfl
    omega
  · rfl

theorem ofDecimal_mul_ten (negative : Bool) (digits : Nat) (exponent : Int) :
    ofDecimal negative (digits * 10) exponent = ofDecimal negative digits (exponent + 1) := by
  by_cases hd : digits = 0
  · simp [ofDecimal, hd]
  rw [ofDecimal_eq_nearest (by omega), ofDecimal_eq_nearest hd]
  refine nearest_congr (Nat.pow_pos (by omega)) (Nat.pow_pos (by omega)) ?_ negative
  rcases lt_or_ge exponent 0 with hneg | hpos
  · have h0 : exponent.toNat = 0 := by omega
    have h1 : (exponent + 1).toNat = 0 := by omega
    have h2 : (-exponent).toNat = (-(exponent + 1)).toNat + 1 := by omega
    rw [h0, h1, h2, Nat.pow_succ]
    ring
  · have h0 : (-exponent).toNat = 0 := by omega
    have h1 : (-(exponent + 1)).toNat = 0 := by omega
    have h2 : (exponent + 1).toNat = exponent.toNat + 1 := by omega
    rw [h0, h1, h2, Nat.pow_succ]
    ring

/-- Zeros at the end of the digits count like an exponent. -/
theorem ofDecimal_mul_pow (negative : Bool) (digits n : Nat) (exponent : Int) :
    ofDecimal negative (digits * 10 ^ n) exponent = ofDecimal negative digits (exponent + n) := by
  induction n generalizing exponent with
  | zero => simp
  | succ n ih =>
    rw [Nat.pow_succ, ← Nat.mul_assoc, ofDecimal_mul_ten, ih]
    congr 1
    omega

end Binary64

namespace Decimal
open Binary64

theorem readsAs_iff {x : Binary64} {d : Decimal} :
    readsAs x d = true ↔ ofDecimal x.negative d.digits d.exponent = some x := by
  simp [readsAs]

theorem readsAs_zero {x : Binary64} {d : Decimal} (hd : d.digits = 0) (h : readsAs x d = true) :
    x.rank = 0 := by
  rw [readsAs_iff, ofDecimal, if_pos hd] at h
  rw [← Option.some.inj h]

theorem units_ne_zero {x : Binary64} (h : x.rank ≠ 0) : x.units ≠ 0 := by
  intro h0
  have hrank := nearestRank_unitsOfRank x.rank
  rw [show unitsOfRank x.rank = 0 from h0] at hrank
  exact h (hrank.symm.trans (nearestRank_eq_zero (by omega)))

theorem readsAs_exactDecimal (x : Binary64) : readsAs x (exactDecimal x) = true := by
  obtain ⟨negative, rank, hrank⟩ := x
  rw [readsAs_iff]
  simp only [exactDecimal, units]
  obtain ⟨five, hfive⟩ : ∃ five, Nat.pow 5 unitPlaces = five := ⟨_, rfl⟩
  have hpos : five ≠ 0 := hfive ▸ Nat.ne_of_gt (Nat.pow_pos (by omega))
  rw [hfive]
  by_cases h0 : rank = 0
  · subst h0
    rw [show unitsOfRank 0 = 0 from rfl, Nat.zero_mul, ofDecimal, if_pos rfl]
  have hunits : unitsOfRank rank ≠ 0 := units_ne_zero (x := ⟨negative, rank, hrank⟩) h0
  rw [ofDecimal_eq_nearest (Nat.mul_ne_zero hunits hpos),
    ← nearest_eq_some (nearestRank_unitsOfRank rank) hrank, unitsPerOne_eq]
  refine nearest_congr (Nat.pow_pos (by omega)) Nat.one_pos ?_ negative
  generalize unitPlaces = n at hfive
  have hn : (-(n : Int)).toNat = 0 := by omega
  have hten : 10 ^ n = Nat.pow 5 n * 2 ^ n := Nat.mul_pow 5 2 n
  rw [hn, Int.neg_neg, Int.toNat_natCast, hten, hfive, Nat.pow_zero]
  ring

theorem readsAs_shortest (x : Binary64) : readsAs x (shortest x) = true := by
  rw [shortest]
  cases h : shortest? x with
  | none => exact readsAs_exactDecimal x
  | some d => exact List.find?_some h

theorem readsAs_stripZeros (x : Binary64) (fuel : Nat) (d : Decimal) (h : readsAs x d = true) :
    readsAs x (stripZeros fuel d) = true := by
  induction fuel generalizing d with
  | zero => exact h
  | succ fuel ih =>
    rw [stripZeros]
    split_ifs with hd
    · refine ih _ ?_
      rw [readsAs_iff] at h ⊢
      rw [← h, ← ofDecimal_mul_ten, Nat.div_mul_cancel (Nat.dvd_of_mod_eq_zero hd.1)]
    · exact h

end Decimal

end RecordRelay
