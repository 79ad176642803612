import RecordRelay.Proofs.Decimal.ReadBack
import RecordRelay.Proofs.Json.Texts

/-! A number is written as digits, perhaps with a point, more digits and an exponent. A whole number
is read back as it is; a float is read as a decimal that is the shortest one of the float up to
zeros at its end, whichever of the layouts it is written in. -/
namespace RecordRelay.Json.Reader
open Text (bytes bytes_append bytes_ofList)

def digitByte (c : Char) : UInt8 := UInt8.ofNat c.toNat

theorem isDigit_bounds {c : Char} (h : c.isDigit = true) : 48 ≤ c.toNat ∧ c.toNat ≤ 57 :=
  Char.isDigit_iff_toNat.mp h

theorem bytes_digits {cs : List Char} (h : ∀ c ∈ cs, c.isDigit = true) :
    bytes (String.ofList cs) = cs.map digitByte := by
  rw [bytes_ofList]
  induction cs with
  | nil => rfl
  | cons c cs ih =>
    have hc : c.toNat < 128 := by
      have := isDigit_bounds (h c (List.mem_cons_self ..))
      omega
    rw [List.flatMap_cons, Text.utf8EncodeChar_of_lt hc,
      ih fun d hd => h d (List.mem_cons_of_mem _ hd)]
    rfl

theorem isDigit_digitByte {c : Char} (h : c.isDigit = true) : isDigit (digitByte c) = true := by
  obtain ⟨h1, h2⟩ := isDigit_bounds h
  simp only [isDigit, digitByte, Bool.and_eq_true, decide_eq_true_eq, UInt8.le_iff_toNat_le,
    UInt8.toNat_ofNat']
  constructor
  · show 48 ≤ c.toNat % 256
    omega
  · show c.toNat % 256 ≤ 57
    omega

theorem ofDigits_map {cs : List Char} (h : ∀ c ∈ cs, c.isDigit = true) :
    ofDigits (cs.map digitByte) = Nat.ofDigitChars 10 cs 0 := by
  rw [ofDigits, Nat.ofDigitChars]
  generalize 0 = start
  induction cs generalizing start with
  | nil => rfl
  | cons c cs ih =>
    have hc : c.toNat < 256 := by
      have := isDigit_bounds (h c (List.mem_cons_self ..))
      omega
    have hvalue : (digitByte c).toNat = c.toNat := by
      rw [digitByte, UInt8.toNat_ofNat', Nat.mod_eq_of_lt hc]
    rw [List.map_cons, List.foldl_cons, List.foldl_cons, hvalue,
      ih (fun d hd => h d (List.mem_cons_of_mem _ hd))]
    rfl

/-- A run of digits ends where the next byte is no digit. -/
theorem span_digits {digits rest : List UInt8} (hd : ∀ b ∈ digits, isDigit b = true)
    (hr : ∀ b ∈ rest.head?, isDigit b = false) :
    (digits ++ rest).span isDigit = (digits, rest) := by
  rw [List.span_eq_takeWhile_dropWhile, List.takeWhile_append_of_pos hd,
    List.dropWhile_append_of_pos hd]
  cases rest with
  | nil => simp
  | cons b rest =>
    have hb : isDigit b = false := hr b rfl
    rw [List.takeWhile_cons_of_neg (by simp [hb]), List.dropWhile_cons_of_neg (by simp [hb]),
      List.append_nil]

theorem Ends.not_isDigit {rest : List UInt8} (h : Ends rest) :
    ∀ b ∈ rest.head?, isDigit b = false := by
  intro b hb
  rcases h b hb with rfl | rfl | rfl <;> rfl

/-- The digits before and after the point of a number and its exponent, if it has one: the sign and
the digits. -/
structure Numeral where
  whole : List Char
  part : List Char
  scale : Option (Bool × List Char)

namespace Numeral

def mark (numeral : Numeral) : List UInt8 :=
  match numeral.scale with
  | none => []
  | some (negative, digits) =>
    0x65 :: (if negative then 0x2D else 0x2B) :: digits.map digitByte

def point (numeral : Numeral) : List UInt8 :=
  if numeral.part = [] then [] else 0x2E :: numeral.part.map digitByte

def bytes (numeral : Numeral) : List UInt8 :=
  numeral.whole.map digitByte ++ (numeral.point ++ numeral.mark)

/-- A numeral that may be written: digits where there have to be some, and no zero in front. -/
structure Proper (numeral : Numeral) : Prop where
  whole : ∀ c ∈ numeral.whole, c.isDigit = true
  whole_ne : numeral.whole ≠ []
  no_zero : numeral.whole.length = 1 ∨ numeral.whole.head? ≠ some '0'
  part : ∀ c ∈ numeral.part, c.isDigit = true
  scale : ∀ entry ∈ numeral.scale, entry.2 ≠ [] ∧ ∀ c ∈ entry.2, c.isDigit = true

def exponent (numeral : Numeral) : Option Int :=
  numeral.scale.map fun (negative, digits) =>
    let value : Int := Nat.ofDigitChars 10 digits 0
    if negative then -value else value

/-- The digits of a numeral as a number, regardless of the point. -/
def digits (numeral : Numeral) : Nat := Nat.ofDigitChars 10 (numeral.whole ++ numeral.part) 0

end Numeral

theorem isDigit_map {cs : List Char} (h : ∀ c ∈ cs, c.isDigit = true) :
    ∀ b ∈ cs.map digitByte, isDigit b = true := by
  intro b hb
  obtain ⟨c, hc, rfl⟩ := List.mem_map.mp hb
  exact isDigit_digitByte (h c hc)

/-- What follows the digits of a numeral is neither a digit nor a point. -/
theorem head_mark (numeral : Numeral) {rest : List UInt8} (hr : Ends rest) :
    ∀ b ∈ (numeral.mark ++ rest).head?, isDigit b = false ∧ b ≠ 0x2E := by
  intro b hb
  rw [Numeral.mark] at hb
  cases hs : numeral.scale with
  | none =>
    rw [hs, List.nil_append] at hb
    rcases hr b hb with rfl | rfl | rfl <;> decide
  | some entry =>
    rw [hs] at hb
    obtain rfl : 0x65 = b := Option.some.inj hb
    decide

theorem head_point (numeral : Numeral) {rest : List UInt8} (hr : Ends rest) :
    ∀ b ∈ (numeral.point ++ (numeral.mark ++ rest)).head?, isDigit b = false := by
  intro b hb
  rw [Numeral.point] at hb
  split_ifs at hb with hpart
  · exact (head_mark numeral hr b hb).1
  · obtain rfl : 0x2E = b := Option.some.inj hb
    decide

theorem exponent_mark {numeral : Numeral} (h : numeral.Proper) {rest : List UInt8}
    (hr : Ends rest) : exponent (numeral.mark ++ rest) = some (numeral.exponent, rest) := by
  rw [Numeral.exponent, Numeral.mark]
  cases hs : numeral.scale with
  | none =>
    rw [List.nil_append]
    cases rest with
    | nil => rfl
    | cons b rest => rcases hr b rfl with rfl | rfl | rfl <;> rfl
  | some entry =>
    obtain ⟨negative, digits⟩ := entry
    obtain ⟨hne, hdigits⟩ := h.scale _ hs
    have hspan := span_digits (isDigit_map hdigits) hr.not_isDigit
    cases negative <;>
      simp [exponent, exponentSign, hspan, hne, ofDigits_map hdigits,
        -List.span_eq_takeWhile_dropWhile]

theorem fraction_of_head {bytes : List UInt8} (h : ∀ b ∈ bytes.head?, b ≠ 0x2E) :
    fraction bytes = some ([], bytes) := by
  cases bytes with
  | nil => rfl
  | cons b rest =>
    have hb : b ≠ 0x2E := h b rfl
    rw [fraction]
    rintro tail ⟨⟩
    exact hb rfl

theorem fraction_point {numeral : Numeral} (h : numeral.Proper) {rest : List UInt8}
    (hr : Ends rest) :
    fraction (numeral.point ++ (numeral.mark ++ rest))
      = some (numeral.part.map digitByte, numeral.mark ++ rest) := by
  rw [Numeral.point]
  split_ifs with hpart
  · rw [hpart]
    exact fraction_of_head fun b hb => (head_mark numeral hr b hb).2
  · have hspan := span_digits (isDigit_map h.part)
      fun b hb => (head_mark numeral hr b hb).1
    rw [List.cons_append, fraction]
    simp [hspan, hpart, -List.span_eq_takeWhile_dropWhile]

/-- The number that is read from the parts of a numeral. -/
def ofNumeral (negative : Bool) (numeral : Numeral) : Option Number :=
  if numeral.part = [] ∧ numeral.scale = none then wholeNumber negative numeral.digits
  else (Binary64.ofDecimal negative numeral.digits
    (numeral.exponent.getD 0 - numeral.part.length)).map .float

def signBytes (negative : Bool) : List UInt8 := if negative then [0x2D] else []

theorem minusSign_signBytes (negative : Bool) {bytes : List UInt8}
    (h : ∃ c rest, bytes = digitByte c :: rest ∧ c.isDigit = true) :
    minusSign (signBytes negative ++ bytes) = (negative, bytes) := by
  cases negative with
  | true => rfl
  | false =>
    obtain ⟨c, rest, rfl, hc⟩ := h
    show minusSign (digitByte c :: rest) = _
    rw [minusSign]
    intro tail heq
    have hdigit := isDigit_digitByte hc
    rw [(List.cons.inj heq).1] at hdigit
    exact absurd hdigit (by decide)

/-- A numeral is read as the number it stands for, whatever follows it. -/
theorem number_numeral {numeral : Numeral} (h : numeral.Proper) (negative : Bool)
    {rest : List UInt8} (hr : Ends rest) :
    number (signBytes negative ++ (numeral.bytes ++ rest))
      = (ofNumeral negative numeral).map fun value => (value, rest) := by
  have hspan := span_digits (isDigit_map h.whole) (head_point numeral hr)
  obtain ⟨c, others, hwhole⟩ := List.exists_cons_of_ne_nil h.whole_ne
  have hc : c.isDigit = true := h.whole c (hwhole ▸ List.mem_cons_self ..)
  have hhead : ∃ c rest', numeral.bytes ++ rest = digitByte c :: rest' ∧ c.isDigit = true :=
    ⟨c, others.map digitByte ++ (numeral.point ++ numeral.mark) ++ rest,
      by rw [Numeral.bytes, hwhole]; rfl, hc⟩
  have hempty : (numeral.whole.map digitByte).isEmpty = false := by simpa using h.whole_ne
  have hfirst : (decide (1 < (numeral.whole.map digitByte).length)
      && (numeral.whole.map digitByte).head? == some 0x30) = false := by
    rcases h.no_zero with hone | hne
    · simp [hone]
    · have hbyte : digitByte c ≠ 0x30 := by
        intro heq
        have hvalue := congrArg UInt8.toNat heq
        have hbound := isDigit_bounds hc
        rw [digitByte, UInt8.toNat_ofNat', Nat.mod_eq_of_lt (by omega)] at hvalue
        have hzero : c = '0' := Char.toNat_inj.mp hvalue
        exact hne (by rw [hwhole, hzero]; rfl)
      simp [hwhole, hbyte]
  have hdigits : ofDigits (numeral.whole.map digitByte ++ numeral.part.map digitByte)
      = numeral.digits := by
    rw [← List.map_append, Numeral.digits]
    exact ofDigits_map fun d hd => (List.mem_append.mp hd).elim (h.whole d) (h.part d)
  rw [number, minusSign_signBytes negative hhead]
  simp only [Numeral.bytes, List.append_assoc, hspan, hempty, hfirst, Bool.or_false,
    Bool.false_eq_true, if_false, fraction_point h hr, exponent_mark h hr, Option.bind_eq_bind,
    Option.bind_some, hdigits, ofNumeral]
  by_cases hplain : numeral.part = [] ∧ numeral.scale = none
  · have hwholeDigits : ofDigits (numeral.whole.map digitByte) = numeral.digits := by
      rw [← hdigits, hplain.1, List.map_nil, List.append_nil]
    have hnone : numeral.exponent = none := by rw [Numeral.exponent, hplain.2]; rfl
    rw [if_pos hplain, hplain.1, hnone, hwholeDigits]
    cases wholeNumber negative numeral.digits <;> rfl
  · have hsome : ((numeral.part.map digitByte).isEmpty && numeral.exponent.isNone) = false := by
      simpa [Numeral.exponent, Option.isSome_iff_ne_none] using hplain
    rw [if_neg hplain, hsome, List.length_map]
    simp only [Bool.false_eq_true, if_false]
    cases Binary64.ofDecimal negative numeral.digits
      (numeral.exponent.getD 0 - numeral.part.length) <;> rfl

theorem isDigit_toDigits {n : Nat} : ∀ c ∈ Nat.toDigits 10 n, c.isDigit = true := fun _ hc =>
  Nat.isDigit_of_mem_toDigits (by omega) (by omega) hc

theorem bytes_repr (n : Nat) : bytes n.repr = (Nat.toDigits 10 n).map digitByte := by
  rw [Nat.repr_eq_ofList_toDigits, bytes_digits isDigit_toDigits]

/-- The digits of a number that is not zero do not start with a zero. -/
theorem head?_toDigits {n : Nat} (hn : n ≠ 0) : (Nat.toDigits 10 n).head? ≠ some '0' := by
  induction n using Nat.strong_induction_on with
  | _ n ih =>
    by_cases hlt : n < 10
    · rw [Nat.toDigits_of_lt_base hlt]
      simpa using hn
    · rw [Nat.toDigits_of_base_le (by omega) (by omega), List.head?_append]
      have hrest := ih (n / 10) (by omega) (by omega)
      cases hhead : (Nat.toDigits 10 (n / 10)).head? with
      | none => exact absurd (List.head?_eq_none_iff.mp hhead) Nat.toDigits_ne_nil
      | some c =>
        rw [hhead] at hrest
        exact hrest

theorem toDigits_noZero (n : Nat) :
    (Nat.toDigits 10 n).length = 1 ∨ (Nat.toDigits 10 n).head? ≠ some '0' := by
  by_cases hn : n = 0
  · subst hn
    exact .inl rfl
  · exact .inr (head?_toDigits hn)

theorem proper_toDigits (n : Nat) : (Numeral.mk (Nat.toDigits 10 n) [] none).Proper where
  whole := isDigit_toDigits
  whole_ne := Nat.toDigits_ne_nil
  no_zero := toDigits_noZero n
  part := by simp
  scale := by simp

theorem bytes_renderWhole (value : Int) :
    bytes (Number.renderWhole value)
      = signBytes (decide (value < 0)) ++ (Nat.toDigits 10 value.natAbs).map digitByte := by
  rw [Number.renderWhole]
  split_ifs with hneg
  · rw [bytes_append, bytes_repr, decide_eq_true hneg]
    rfl
  · rw [bytes_repr, decide_eq_false hneg]
    rfl

/-- A text is that of a numeral which is read as the number. -/
def WrittenAs (value : Number) (text : List UInt8) : Prop :=
  ∃ negative numeral, numeral.Proper ∧ text = signBytes negative ++ numeral.bytes
    ∧ ofNumeral negative numeral = some value

/-- A whole number of the 64-bit ranges is written as itself. -/
theorem writtenAs_renderWhole (value : Int)
    (h : -0x8000000000000000 ≤ value ∧ value < 0x10000000000000000) :
    WrittenAs (.whole value h) (bytes (Number.renderWhole value)) := by
  refine ⟨decide (value < 0), _, proper_toDigits value.natAbs, ?_, ?_⟩
  · rw [bytes_renderWhole]
    simp [Numeral.bytes, Numeral.point, Numeral.mark]
  have hdigits : (Numeral.mk (Nat.toDigits 10 value.natAbs) [] none).digits = value.natAbs := by
    rw [Numeral.digits, List.append_nil, Nat.ofDigitChars_ten_toDigits]
  have hsigned : (if decide (value < 0) = true then -(value.natAbs : Int) else value.natAbs)
      = value := by
    split_ifs with hneg <;> rw [decide_eq_true_eq] at hneg <;> omega
  have hzero : ¬ (decide (value < 0) = true ∧ value.natAbs = 0) := by
    rw [decide_eq_true_eq]
    omega
  rw [ofNumeral, if_pos ⟨rfl, rfl⟩, hdigits, wholeNumber, if_neg hzero]
  simp only [hsigned, dif_pos h]

end RecordRelay.Json.Reader
