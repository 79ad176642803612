import RecordRelay.Proofs.Json.Numbers

/-! Each layout of a float is a numeral with a point or an exponent, and all of them stand for the
same decimal up to zeros at its end. -/
namespace RecordRelay.Json.Reader
open Text (bytes bytes_append)

/-- The numeral that lays out digits, given the exponent of the first one. -/
def layoutNumeral (cs : List Char) (first : Int) : Numeral :=
  if Number.positional first then
    if first < 0 then ⟨['0'], List.replicate (-first - 1).toNat '0' ++ cs, none⟩
    else
      let whole := first.toNat + 1
      ⟨cs.take whole ++ List.replicate (whole - cs.length) '0',
        if (cs.drop whole).isEmpty then ['0'] else cs.drop whole, none⟩
  else ⟨cs.take 1, cs.drop 1, some (decide (first < 0), Nat.toDigits 10 first.natAbs)⟩

theorem isDigit_replicate (n : Nat) : ∀ c ∈ List.replicate n '0', c.isDigit = true := by
  intro c hc
  rw [List.eq_of_mem_replicate hc]
  rfl

theorem isDigit_append {cs ds : List Char} (hcs : ∀ c ∈ cs, c.isDigit = true)
    (hds : ∀ c ∈ ds, c.isDigit = true) : ∀ c ∈ cs ++ ds, c.isDigit = true := fun c hc =>
  (List.mem_append.mp hc).elim (hcs c) (hds c)

theorem isDigit_take {cs : List Char} (h : ∀ c ∈ cs, c.isDigit = true) (n : Nat) :
    ∀ c ∈ cs.take n, c.isDigit = true := fun c hc => h c (List.mem_of_mem_take hc)

theorem isDigit_drop {cs : List Char} (h : ∀ c ∈ cs, c.isDigit = true) (n : Nat) :
    ∀ c ∈ cs.drop n, c.isDigit = true := fun c hc => h c (List.mem_of_mem_drop hc)

theorem isDigit_zero : ∀ c ∈ ['0'], c.isDigit = true := isDigit_replicate 1

theorem proper_layoutNumeral {cs : List Char} (hne : cs ≠ []) (h : ∀ c ∈ cs, c.isDigit = true)
    (hzero : cs.head? ≠ some '0') (first : Int) : (layoutNumeral cs first).Proper := by
  obtain ⟨c, others, rfl⟩ := List.exists_cons_of_ne_nil hne
  rw [layoutNumeral]
  split_ifs with hpos hneg
  · exact ⟨isDigit_zero, by simp, .inl rfl, isDigit_append (isDigit_replicate _) h, by simp⟩
  · refine ⟨isDigit_append (isDigit_take h _) (isDigit_replicate _), by simp, .inr ?_, ?_, by simp⟩
    · simpa using hzero
    · dsimp only
      split_ifs
      · exact isDigit_zero
      · exact isDigit_drop h _
  · refine ⟨isDigit_take h 1, by simp, .inl (by simp), isDigit_drop h 1, ?_⟩
    rintro entry ⟨⟩
    exact ⟨Nat.toDigits_ne_nil, isDigit_toDigits⟩

/-- Digits and those after the point, as they stand in a text. -/
theorem bytes_point {front back : List Char} (hf : ∀ c ∈ front, c.isDigit = true)
    (hb : ∀ c ∈ back, c.isDigit = true) (hne : back ≠ []) :
    bytes (String.ofList front ++ "." ++ String.ofList back)
      = (Numeral.mk front back none).bytes := by
  have hpoint : bytes "." = [0x2E] := rfl
  rw [bytes_append, bytes_append, bytes_digits hf, bytes_digits hb, hpoint]
  simp [Numeral.bytes, Numeral.point, Numeral.mark, hne]

/-- The mantissa of the scientific layout. -/
theorem bytes_mantissa {digits : String} (h : ∀ c ∈ digits.toList, c.isDigit = true) :
    bytes (if digits.toList.length ≤ 1 then digits
        else String.ofList (digits.toList.take 1) ++ "." ++ String.ofList (digits.toList.drop 1))
      = (Numeral.mk (digits.toList.take 1) (digits.toList.drop 1) none).bytes := by
  split_ifs with hshort
  · have hdrop : digits.toList.drop 1 = [] := List.drop_eq_nil_of_le hshort
    have hdigits : bytes digits = digits.toList.map digitByte := by
      rw [← bytes_digits h, String.ofList_toList]
    rw [hdrop, List.take_of_length_le hshort, hdigits]
    simp [Numeral.bytes, Numeral.point, Numeral.mark]
  · refine bytes_point (isDigit_take h 1) (isDigit_drop h 1) ?_
    intro hnil
    have := List.drop_eq_nil_iff.mp hnil
    omega

/-- A layout is written as its numeral. -/
theorem bytes_layout (digits : String) (hne : digits.toList ≠ [])
    (h : ∀ c ∈ digits.toList, c.isDigit = true) (first : Int) :
    bytes (Number.layout digits first) = (layoutNumeral digits.toList first).bytes := by
  rw [Number.layout, layoutNumeral]
  by_cases hpos : Number.positional first = true
  · rw [if_pos hpos, if_pos hpos]
    by_cases hneg : first < 0
    · have hread := bytes_point isDigit_zero
        (isDigit_append (isDigit_replicate (-first - 1).toNat) h)
        (List.append_ne_nil_of_right_ne_nil _ hne)
      rw [if_pos hneg, if_pos hneg, ← hread, String.ofList_append, String.ofList_toList,
        ← String.append_assoc]
      rfl
    · have hback : (if (digits.toList.drop (first.toNat + 1)).isEmpty then "0"
            else String.ofList (digits.toList.drop (first.toNat + 1)))
          = String.ofList (if (digits.toList.drop (first.toNat + 1)).isEmpty then ['0']
            else digits.toList.drop (first.toNat + 1)) := by
        split_ifs <;> rfl
      rw [if_neg hneg, if_neg hneg]
      simp only [hback]
      refine bytes_point (isDigit_append (isDigit_take h _) (isDigit_replicate _)) ?_ ?_
      · split_ifs
        · exact isDigit_zero
        · exact isDigit_drop h _
      · split_ifs with hempty
        · simp
        · simpa using hempty
  · have hmark : bytes (if first < 0 then "e-" else "e+")
        = [0x65, if decide (first < 0) = true then 0x2D else 0x2B] := by
      split_ifs with h1 h2 h2
      · rfl
      · simp [h1] at h2
      · simp [h1] at h2
      · rfl
    rw [if_neg hpos, if_neg hpos]
    simp only [bytes_append, bytes_mantissa h, hmark, bytes_repr]
    simp [Numeral.bytes, Numeral.point, Numeral.mark]

/-- A numeral with a point or an exponent is read as a decimal. -/
theorem ofNumeral_eq {numeral : Numeral} (h : numeral.part ≠ [] ∨ numeral.scale ≠ none)
    (negative : Bool) :
    ofNumeral negative numeral = (Binary64.ofDecimal negative numeral.digits
      (numeral.exponent.getD 0 - numeral.part.length)).map .float := by
  rw [ofNumeral, if_neg (by tauto)]

/-- A layout stands for its digits, with the exponent that the one of the first digit leaves for
the last one. -/
theorem ofNumeral_layout (negative : Bool) (n : Nat) (first : Int) :
    ofNumeral negative (layoutNumeral (Nat.toDigits 10 n) first)
      = (Binary64.ofDecimal negative n (first + 1 - (Nat.toDigits 10 n).length)).map .float := by
  have hvalue : Nat.ofDigitChars 10 (Nat.toDigits 10 n) 0 = n := Nat.ofDigitChars_ten_toDigits
  have hne : Nat.toDigits 10 n ≠ [] := Nat.toDigits_ne_nil
  generalize Nat.toDigits 10 n = cs at hvalue hne
  have hlength : 0 < cs.length := List.length_pos_iff.mpr hne
  rw [layoutNumeral]
  by_cases hpos : Number.positional first = true
  · rw [if_pos hpos]
    by_cases hneg : first < 0
    · have hdigits : Nat.ofDigitChars 10 (['0'] ++ (List.replicate (-first - 1).toNat '0' ++ cs)) 0
          = n := by
        rw [← List.append_assoc, Nat.ofDigitChars_append, ← hvalue]
        congr 1
        rw [Nat.ofDigitChars_append, Nat.ofDigitChars_replicate_zero]
        exact Nat.mul_zero _
      rw [if_pos hneg, ofNumeral_eq (.inl (List.append_ne_nil_of_right_ne_nil _ hne)),
        Numeral.digits, hdigits]
      congr 2
      simp only [Numeral.exponent, Option.map_none, Option.getD_none, List.length_append,
        List.length_replicate]
      omega
    · rw [if_neg hneg]
      by_cases hempty : cs.drop (first.toNat + 1) = []
      -- A whole number: the zeros up to the point and the one after it count as digits.
      · have hshort : cs.length ≤ first.toNat + 1 := List.drop_eq_nil_iff.mp hempty
        have hdigits : Nat.ofDigitChars 10
            (cs ++ List.replicate (first.toNat + 1 - cs.length) '0' ++ ['0']) 0
              = n * 10 ^ (first.toNat + 1 - cs.length + 1) := by
          rw [Nat.ofDigitChars_append, Nat.ofDigitChars_append, hvalue,
            Nat.ofDigitChars_replicate_zero, Nat.pow_succ, Nat.ofDigitChars_cons,
            Nat.ofDigitChars_nil]
          show 10 * (10 ^ (first.toNat + 1 - cs.length) * n) + 0 = _
          ring
        simp only [hempty, List.isEmpty_nil, if_true, List.take_of_length_le hshort]
        rw [ofNumeral_eq (.inl (by simp)), Numeral.digits, hdigits, Binary64.ofDecimal_mul_pow]
        congr 2
        simp only [Numeral.exponent, Option.map_none, Option.getD_none, List.length_singleton]
        omega
      · have hlong : first.toNat + 1 < cs.length := by
          by_contra hle
          exact hempty (List.drop_eq_nil_of_le (Nat.not_lt.mp hle))
        have hzeros : first.toNat + 1 - cs.length = 0 := by omega
        have hback : (cs.drop (first.toNat + 1)).isEmpty = false := by simpa using hempty
        simp only [hback, Bool.false_eq_true, if_false, hzeros, List.replicate_zero,
          List.append_nil]
        rw [ofNumeral_eq (.inl hempty), Numeral.digits, List.take_append_drop, hvalue]
        congr 2
        simp only [Numeral.exponent, Option.map_none, Option.getD_none, List.length_drop]
        omega
  · rw [if_neg hpos, ofNumeral_eq (.inr (by simp)), Numeral.digits, List.take_append_drop, hvalue]
    congr 2
    simp only [Numeral.exponent, Option.map_some, Option.getD_some, List.length_drop,
      Nat.ofDigitChars_ten_toDigits, decide_eq_true_eq]
    split_ifs <;> omega

/-- The digits of the decimal that a float is written with. -/
theorem digits_ne_zero {x : Binary64} (hrank : x.rank ≠ 0) {d : Decimal}
    (h : Decimal.readsAs x d = true) : d.digits ≠ 0 := fun hzero =>
  hrank (Decimal.readsAs_zero hzero h)

/-- A float is written as itself. -/
theorem writtenAs_renderFloat (x : Binary64) :
    WrittenAs (.float x) (bytes (Number.renderFloat x)) := by
  have hsign : bytes (if x.negative then "-" else "") = signBytes x.negative := by
    cases x.negative <;> rfl
  rw [Number.renderFloat]
  by_cases hrank : x.rank = 0
  · refine ⟨x.negative, ⟨['0'], ['0'], none⟩, ?_, ?_, ?_⟩
    · exact ⟨isDigit_zero, by simp, .inl rfl, isDigit_zero, by simp⟩
    · rw [if_pos hrank, bytes_append, hsign]
      rfl
    · obtain ⟨negative, rank, hlt⟩ := x
      subst hrank
      rfl
  · have hreads := Decimal.readsAs_stripZeros x 800 _ (Decimal.readsAs_shortest x)
    rw [if_neg hrank]
    generalize Decimal.stripZeros 800 (Decimal.shortest x) = d at hreads
    have hlength : d.digits.repr.length = (Nat.toDigits 10 d.digits).length := by
      rw [← String.length_toList, Nat.toList_repr]
    have htext := bytes_layout d.digits.repr (by simp [Nat.toDigits_ne_nil])
      (by rw [Nat.toList_repr]; exact isDigit_toDigits)
      (d.exponent + (d.digits.repr.length : Int) - 1)
    rw [bytes_append, hsign, htext, Nat.toList_repr, hlength]
    refine ⟨x.negative, _, ?_, rfl, ?_⟩
    · exact proper_layoutNumeral Nat.toDigits_ne_nil isDigit_toDigits
        (head?_toDigits (digits_ne_zero hrank hreads)) _
    · have hexponent : d.exponent + ((Nat.toDigits 10 d.digits).length : Int) - 1 + 1
          - (Nat.toDigits 10 d.digits).length = d.exponent := by omega
      rw [ofNumeral_layout, hexponent, Decimal.readsAs_iff.mp hreads]
      rfl

theorem writtenAs_render (value : Number) : WrittenAs value (bytes value.render) := by
  cases value with
  | whole value h => exact writtenAs_renderWhole value h
  | float value => exact writtenAs_renderFloat value

/-- A number is read back, whatever follows it. -/
theorem number_render (value : Number) {rest : List UInt8} (hr : Ends rest) :
    number (bytes value.render ++ rest) = some (value, rest) := by
  obtain ⟨negative, numeral, hproper, htext, hvalue⟩ := writtenAs_render value
  rw [htext, List.append_assoc, number_numeral hproper negative hr, hvalue]
  rfl

/-- A number starts with a minus sign or a digit. -/
theorem head_render (value : Number) :
    ∃ b rest, bytes value.render = b :: rest ∧ (isDigit b = true ∨ b = 0x2D) := by
  obtain ⟨negative, numeral, hproper, htext, -⟩ := writtenAs_render value
  obtain ⟨c, others, hwhole⟩ := List.exists_cons_of_ne_nil hproper.whole_ne
  rw [htext, Numeral.bytes, hwhole]
  cases negative with
  | true => exact ⟨0x2D, _, rfl, .inr rfl⟩
  | false =>
    have hc : c.isDigit = true := hproper.whole c (hwhole ▸ List.mem_cons_self ..)
    exact ⟨digitByte c, _, rfl, .inl (isDigit_digitByte hc)⟩

end RecordRelay.Json.Reader
