import RecordRelay.Proofs.Decimal.ReadBack

/-! A whole number of units is rounded to a magnitude that differs from it by at most one part in
2^53. Sums of magnitudes are whole numbers of units, and so is a fraction of one whose denominator
is a power of two that is not too large. So a sum that is rounded at every step is off by at most
one such part for each step. -/
namespace RecordRelay.Binary64

theorem two_mul_roundHalfEven_le {den : Nat} (hden : 0 < den) (num : Nat) :
    2 * (den * roundHalfEven num den) ≤ 2 * num + den := by
  have hdiv := Nat.div_add_mod num den
  have hmod := Nat.mod_lt num hden
  have hnext : den * (num / den + 1) = den * (num / den) + den := Nat.mul_succ ..
  simp only [roundHalfEven]
  split_ifs <;> omega

theorem two_mul_le_roundHalfEven {den : Nat} (hden : 0 < den) (num : Nat) :
    2 * num ≤ 2 * (den * roundHalfEven num den) + den := by
  have hdiv := Nat.div_add_mod num den
  have hmod := Nat.mod_lt num hden
  have hnext : den * (num / den + 1) = den * (num / den) + den := Nat.mul_succ ..
  simp only [roundHalfEven]
  split_ifs <;> omega

theorem roundHalfEven_le {num den m : Nat} (hden : 0 < den) (h : num ≤ den * m) :
    roundHalfEven num den ≤ m := by
  have hround := two_mul_roundHalfEven_le hden num
  by_contra hmore
  have hstep : den * (m + 1) ≤ den * roundHalfEven num den :=
    Nat.mul_le_mul_left den (Nat.lt_of_not_le hmore)
  rw [Nat.mul_add] at hstep
  omega

theorem le_roundHalfEven {num den m : Nat} (hden : 0 < den) (h : den * m ≤ num) :
    m ≤ roundHalfEven num den := by
  refine le_trans ?_ (div_le_roundHalfEven num den)
  rwa [Nat.le_div_iff_mul_le hden, Nat.mul_comm]

theorem unitsOfRank_add_of_lt {scale m : Nat} (hge : perExponent ≤ m) (hlt : m < 2 * perExponent) :
    unitsOfRank (scale * perExponent + m) = 2 ^ scale * m := by
  have hpos : 0 < perExponent := by decide
  have hlarge : ¬ scale * perExponent + m < perExponent := by omega
  have hquotient : (scale * perExponent + m) / perExponent = scale + 1 := by
    rw [Nat.mul_comm, Nat.mul_add_div hpos, Nat.div_eq_of_lt_le] <;> omega
  have hrest : (scale * perExponent + m) % perExponent = m - perExponent := by
    rw [Nat.mul_add_mod', Nat.mod_eq_sub_mod hge, Nat.mod_eq_of_lt (by omega)]
  rw [unitsOfRank, if_neg hlarge, Nat.shiftLeft_eq, hquotient, hrest, Nat.add_sub_cancel,
    Nat.add_sub_of_le hge, Nat.mul_comm]

/-- The units of a rank that is put together from an exponent and a significand. -/
theorem unitsOfRank_add {scale m : Nat} (hle : m ≤ 2 * perExponent)
    (hge : scale ≠ 0 → perExponent ≤ m) :
    unitsOfRank (scale * perExponent + m) = 2 ^ scale * m := by
  by_cases hsmall : m < perExponent
  · obtain rfl : scale = 0 := by
      by_contra hne
      exact absurd (hge hne) (Nat.not_le.mpr hsmall)
    simp [unitsOfRank, hsmall]
  · rcases Nat.lt_or_eq_of_le hle with hlt | rfl
    · exact unitsOfRank_add_of_lt (Nat.le_of_not_lt hsmall) hlt
    · -- Twice the smallest significand is the smallest one of the next exponent.
      have hnext : scale * perExponent + 2 * perExponent
          = (scale + 1) * perExponent + perExponent := by ring
      rw [hnext, unitsOfRank_add_of_lt le_rfl (by decide), Nat.pow_succ, Nat.mul_assoc]

/-- The binary places that are lost when a number of units is rounded. -/
def scaleOf (units : Nat) : Nat := units.log2 - 52

theorem lt_two_pow_scaleOf (units : Nat) : units < 2 ^ scaleOf units * (2 * perExponent) := by
  calc units < 2 ^ (units.log2 + 1) := Nat.lt_log2_self
    _ ≤ 2 ^ (scaleOf units + 53) := Nat.pow_le_pow_right (by omega) (by rw [scaleOf]; omega)
    _ = 2 ^ scaleOf units * (2 * perExponent) := Nat.pow_add ..

theorem two_pow_scaleOf_le {units : Nat} (h : scaleOf units ≠ 0) :
    2 ^ scaleOf units * perExponent ≤ units := by
  have hlog : scaleOf units + 52 = units.log2 := by
    rw [scaleOf] at h ⊢
    omega
  have hne : units ≠ 0 := by
    rintro rfl
    exact h (by decide)
  calc 2 ^ scaleOf units * perExponent = 2 ^ units.log2 := by rw [← hlog, Nat.pow_add]; rfl
    _ ≤ units := Nat.log2_self_le hne

theorem nearestRank_eq (units : Nat) :
    nearestRank units 1
      = scaleOf units * perExponent + roundHalfEven units (2 ^ scaleOf units) := by
  rw [nearestRank, Nat.div_one, Nat.shiftLeft_eq, Nat.one_mul, scaleOf]

/-- The significand of a rounded number of units. -/
theorem significand_le (units : Nat) :
    roundHalfEven units (2 ^ scaleOf units) ≤ 2 * perExponent :=
  roundHalfEven_le (Nat.two_pow_pos _) (lt_two_pow_scaleOf units).le

theorem unitsOfRank_nearestRank (units : Nat) :
    unitsOfRank (nearestRank units 1)
      = 2 ^ scaleOf units * roundHalfEven units (2 ^ scaleOf units) := by
  rw [nearestRank_eq, unitsOfRank_add (significand_le units)]
  exact fun hscale => le_roundHalfEven (Nat.two_pow_pos _) (two_pow_scaleOf_le hscale)

/-- Rounding adds at most one part in 2^53. -/
theorem nearest_le (units : Nat) :
    2 ^ 53 * unitsOfRank (nearestRank units 1) ≤ 2 ^ 53 * units + units := by
  have hround := two_mul_roundHalfEven_le (Nat.two_pow_pos (scaleOf units)) units
  rw [unitsOfRank_nearestRank]
  by_cases hscale : scaleOf units = 0
  · rw [hscale, Nat.pow_zero, roundHalfEven_one, Nat.one_mul]
    exact Nat.le_add_right ..
  · have hlost : 2 ^ scaleOf units * 2 ^ 52 ≤ units := two_pow_scaleOf_le hscale
    omega

/-- Rounding takes away at most one part in 2^53. -/
theorem le_nearest (units : Nat) :
    2 ^ 53 * units ≤ 2 ^ 53 * unitsOfRank (nearestRank units 1) + units := by
  have hround := two_mul_le_roundHalfEven (Nat.two_pow_pos (scaleOf units)) units
  rw [unitsOfRank_nearestRank]
  by_cases hscale : scaleOf units = 0
  · rw [hscale, Nat.pow_zero, roundHalfEven_one, Nat.one_mul]
    exact Nat.le_add_right ..
  · have hlost : 2 ^ scaleOf units * 2 ^ 52 ≤ units := two_pow_scaleOf_le hscale
    omega

theorem log2_le_of_le_add {units p : Nat} (hp : 54 ≤ p) (h : units ≤ 2 ^ p + 2 ^ (p - 54)) :
    units.log2 ≤ p := by
  have hless : 2 ^ (p - 54) < 2 ^ p := Nat.pow_lt_pow_right (by decide) (by omega)
  by_cases hzero : units = 0
  · rw [hzero, Nat.log2_zero]
    exact Nat.zero_le p
  · refine Nat.lt_add_one_iff.mp ((Nat.log2_lt hzero).mpr ?_)
    rw [Nat.pow_succ]
    omega

/-- What is no more than a quarter of a step beyond a power of two is not rounded beyond it. -/
theorem nearest_le_two_pow {units p : Nat} (hp : 54 ≤ p) (h : units ≤ 2 ^ p + 2 ^ (p - 54)) :
    unitsOfRank (nearestRank units 1) ≤ 2 ^ p := by
  have hlog := log2_le_of_le_add hp h
  rw [unitsOfRank_nearestRank]
  by_cases hwithin : units ≤ 2 ^ p
  · have hsplit : 2 ^ p = 2 ^ scaleOf units * 2 ^ (p - scaleOf units) := by
      rw [← Nat.pow_add]
      congr 1
      rw [scaleOf]
      omega
    rw [hsplit] at hwithin ⊢
    exact Nat.mul_le_mul_left _ (roundHalfEven_le (Nat.two_pow_pos _) hwithin)
  · have hne : units ≠ 0 := Nat.ne_zero_of_lt (Nat.lt_of_not_le hwithin)
    have hscale : scaleOf units = p - 54 + 2 := by
      have hle : p ≤ units.log2 := (Nat.le_log2 hne).mpr (Nat.lt_of_not_le hwithin).le
      rw [scaleOf]
      omega
    have hpower : 2 ^ p = 2 ^ (p - 54) * 2 ^ 54 := by
      rw [← Nat.pow_add]
      congr 1
      omega
    have hround := two_mul_roundHalfEven_le (Nat.two_pow_pos (scaleOf units)) units
    rw [hscale, Nat.pow_add] at hround ⊢
    -- A significand beyond the power of two would be half a step away at least.
    have hsignificand : roundHalfEven units (2 ^ (p - 54) * 2 ^ 2) ≤ 2 ^ 52 := by
      by_contra hmore
      have hstep := Nat.mul_le_mul_left (2 ^ (p - 54) * 2 ^ 2) (Nat.lt_of_not_le hmore)
      have hpos := Nat.two_pow_pos (p - 54)
      omega
    calc 2 ^ (p - 54) * 2 ^ 2 * roundHalfEven units (2 ^ (p - 54) * 2 ^ 2)
        ≤ 2 ^ (p - 54) * 2 ^ 2 * 2 ^ 52 := Nat.mul_le_mul_left _ hsignificand
      _ = 2 ^ p := by rw [hpower]; ring

/-- A number of units that is well below the largest finite number has a nearest one. -/
theorem nearestRank_lt {units : Nat} (h : units.log2 ≤ 2096) :
    nearestRank units 1 < rankLimit := by
  have hscale : scaleOf units * perExponent ≤ 2044 * perExponent :=
    Nat.mul_le_mul_right _ (by rw [scaleOf]; omega)
  have hsignificand := significand_le units
  have hpos : 0 < perExponent := by decide
  rw [nearestRank_eq, rankLimit]
  omega

theorem nearestOrZero_eq {units : Nat} (h : units.log2 ≤ 2096) :
    nearestOrZero units 1 = ⟨false, nearestRank units 1, nearestRank_lt h⟩ := by
  rw [nearestOrZero, nearest_eq_some rfl (nearestRank_lt h)]
  rfl

theorem units_nearestOrZero_le {units p : Nat} (hp : 54 ≤ p) (hlimit : p ≤ 2096)
    (h : units ≤ 2 ^ p + 2 ^ (p - 54)) : (nearestOrZero units 1).units ≤ 2 ^ p := by
  rw [nearestOrZero_eq ((log2_le_of_le_add hp h).trans hlimit)]
  exact nearest_le_two_pow hp h

/-- The number that is stored, which need not be a whole number of ones. -/
def toRat (x : Binary64) : ℚ :=
  if x.negative then -(x.units / unitsPerOne) else x.units / unitsPerOne

theorem toRat_eq {x : Binary64} (h : x.negative = false) : x.toRat = x.units / unitsPerOne := by
  rw [toRat, h]
  rfl

theorem unitsPerOne_pos : (0 : ℚ) < unitsPerOne := by
  rw [unitsPerOne_eq]
  exact_mod_cast Nat.two_pow_pos _

/-- The part of a number by which rounding may change it. -/
def roundoff : ℚ := 1 / 2 ^ 53

theorem roundoff_nonneg : 0 ≤ roundoff := by
  norm_num [roundoff]

theorem roundoff_le_one : roundoff ≤ 1 := by
  norm_num [roundoff]

/-- A number that is not negative and could come from an exact one by that many roundings. -/
structure Approximates (x : Binary64) (roundings : Nat) (exact : ℚ) : Prop where
  sign : x.negative = false
  lower : (1 - roundoff) ^ roundings * exact ≤ x.toRat
  upper : x.toRat ≤ (1 + roundoff) ^ roundings * exact

theorem approximates_nearestOrZero {units : Nat} (h : units.log2 ≤ 2096) :
    (nearestOrZero units 1).Approximates 1 (units / unitsPerOne) := by
  have hsign : (nearestOrZero units 1).negative = false := by rw [nearestOrZero_eq h]
  have hunits : (nearestOrZero units 1).units = unitsOfRank (nearestRank units 1) := by
    rw [nearestOrZero_eq h, Binary64.units]
  have hlower : (2 ^ 53 * units : ℚ) ≤ 2 ^ 53 * unitsOfRank (nearestRank units 1) + units := by
    exact_mod_cast le_nearest units
  have hupper : (2 ^ 53 * unitsOfRank (nearestRank units 1) : ℚ) ≤ 2 ^ 53 * units + units := by
    exact_mod_cast nearest_le units
  refine ⟨hsign, ?_, ?_⟩
  · rw [toRat_eq hsign, hunits, pow_one, ← mul_div_assoc,
      div_le_div_iff_of_pos_right unitsPerOne_pos, roundoff]
    linarith
  · rw [toRat_eq hsign, hunits, pow_one, ← mul_div_assoc,
      div_le_div_iff_of_pos_right unitsPerOne_pos, roundoff]
    linarith

/-- A sum that is rounded once more. -/
theorem Approximates.add {x y : Binary64} {n m : Nat} {a b : ℚ} (hx : x.Approximates n a)
    (hy : y.Approximates m b) (hm : m ≤ n) (hb : 0 ≤ b)
    (h : (x.units + y.units).log2 ≤ 2096) :
    (addMagnitudes x y).Approximates (n + 1) (a + b) := by
  have hround := approximates_nearestOrZero h
  have hsum : ((x.units + y.units : Nat) : ℚ) / unitsPerOne = x.toRat + y.toRat := by
    rw [toRat_eq hx.sign, toRat_eq hy.sign, Nat.cast_add, add_div]
  rw [hsum] at hround
  have hless : 0 ≤ 1 - roundoff := sub_nonneg.mpr roundoff_le_one
  have hlower : (1 - roundoff) ^ n * b ≤ y.toRat := by
    refine le_trans ?_ hy.lower
    gcongr 1
    exact pow_le_pow_of_le_one hless (sub_le_self 1 roundoff_nonneg) hm
  have hupper : y.toRat ≤ (1 + roundoff) ^ n * b := by
    refine le_trans hy.upper ?_
    gcongr 1
    exact pow_le_pow_right₀ (le_add_of_nonneg_right roundoff_nonneg) hm
  refine ⟨hround.sign, ?_, ?_⟩
  · calc (1 - roundoff) ^ (n + 1) * (a + b)
        = (1 - roundoff) ^ 1 * ((1 - roundoff) ^ n * a + (1 - roundoff) ^ n * b) := by ring
      _ ≤ (1 - roundoff) ^ 1 * (x.toRat + y.toRat) := by gcongr; exact hx.lower
      _ ≤ (addMagnitudes x y).toRat := hround.lower
  · calc (addMagnitudes x y).toRat
        ≤ (1 + roundoff) ^ 1 * (x.toRat + y.toRat) := hround.upper
      _ ≤ (1 + roundoff) ^ 1 * ((1 + roundoff) ^ n * a + (1 + roundoff) ^ n * b) := by
          have := roundoff_nonneg
          gcongr
          exact hx.upper
      _ = (1 + roundoff) ^ (n + 1) * (a + b) := by ring

/-- Sums of numbers up to one never leave the finite range: from 2^54 on they grow no more. -/
theorem units_add_le {x y : Binary64} (hx : x.units ≤ 2 ^ (unitPlaces + 54))
    (hy : y.units ≤ 2 ^ unitPlaces) :
    (x.units + y.units).log2 ≤ 2096 ∧ (addMagnitudes x y).units ≤ 2 ^ (unitPlaces + 54) := by
  have hplaces : unitPlaces + 54 ≤ 2096 := by decide
  have hsum : x.units + y.units ≤ 2 ^ (unitPlaces + 54) + 2 ^ (unitPlaces + 54 - 54) := by
    rw [Nat.add_sub_cancel]
    exact Nat.add_le_add hx hy
  have hlarge := Nat.le_add_left 54 unitPlaces
  exact ⟨(log2_le_of_le_add hlarge hsum).trans hplaces,
    units_nearestOrZero_le hlarge hplaces hsum⟩

/-- A fraction whose denominator is a power of two is a whole number of units. -/
theorem ofRatio_eq {num k : Nat} (hk : k ≤ unitPlaces) :
    ofRatio num (2 ^ k) = nearestOrZero (num * 2 ^ (unitPlaces - k)) 1 := by
  have hcross : num * unitsPerOne * 1 = num * 2 ^ (unitPlaces - k) * 2 ^ k := by
    rw [Nat.mul_one, unitsPerOne_eq, Nat.mul_assoc, ← Nat.pow_add, Nat.sub_add_cancel hk]
  rw [ofRatio, nearestOrZero, nearest_congr (Nat.two_pow_pos k) Nat.one_pos hcross]
  rfl

/-- A fraction of one is rounded once, to one at most. -/
theorem approximates_ofRatio {num k : Nat} (hk : k ≤ unitPlaces) (hnum : num ≤ 2 ^ k) :
    (ofRatio num (2 ^ k)).Approximates 1 (num / 2 ^ k)
      ∧ (ofRatio num (2 ^ k)).units ≤ 2 ^ unitPlaces := by
  have hplaces : 54 ≤ unitPlaces ∧ unitPlaces ≤ 2096 := by decide
  obtain ⟨rest, hrest⟩ := Nat.exists_eq_add_of_le hk
  rw [ofRatio_eq hk, hrest, Nat.add_sub_cancel_left]
  rw [hrest] at hplaces
  have hbound : num * 2 ^ rest ≤ 2 ^ (k + rest) + 2 ^ (k + rest - 54) := by
    refine le_trans ?_ (Nat.le_add_right _ _)
    rw [Nat.pow_add]
    exact Nat.mul_le_mul_right _ hnum
  have hlog := (log2_le_of_le_add hplaces.1 hbound).trans hplaces.2
  have hexact : ((num * 2 ^ rest : Nat) : ℚ) / unitsPerOne = num / 2 ^ k := by
    rw [unitsPerOne_eq, hrest, Nat.pow_add, Nat.cast_mul, Nat.cast_mul,
      mul_div_mul_right _ _ (by positivity), Nat.cast_pow, Nat.cast_ofNat]
  rw [← hexact]
  exact ⟨approximates_nearestOrZero hlog, units_nearestOrZero_le hplaces.1 hplaces.2 hbound⟩

end RecordRelay.Binary64
