import RecordRelay.Json.Printer
import RecordRelay.Proofs.Json.Brackets
import RecordRelay.Proofs.Text.Bytes

/-! Every character is written so that it is read back: the escaped ones by their escapes, and the
others byte by byte, since no byte of theirs is a quote, a backslash or a control character. -/
namespace RecordRelay.Json.Reader
open Text (bytes bytes_append bytes_ofList)

/-- A text read so far, in front of what is read from here on. -/
def before (content : List UInt8) (read : Option (List UInt8 × List UInt8)) :
    Option (List UInt8 × List UInt8) :=
  read.map fun (text, rest) => (content ++ text, rest)

theorem before_before (content more : List UInt8) (read : Option (List UInt8 × List UInt8)) :
    before content (before more read) = before (content ++ more) read := by
  cases read <;> simp [before]

/-- A byte that stands for itself inside quotes. -/
def isPlain (b : UInt8) : Bool := b != 0x22 && b != 0x5C && !(b < 0x20)

theorem textBytes_plain {b : UInt8} (hb : isPlain b = true) (rest : List UInt8) :
    textBytes (b :: rest) = before [b] (textBytes rest) := by
  simp only [isPlain, Bool.and_eq_true, bne_iff_ne, ne_eq, Bool.not_eq_true',
    decide_eq_false_iff_not] at hb
  rw [textBytes.eq_def]
  simp only [if_neg hb.1.1, if_neg hb.1.2, if_neg hb.2]
  cases textBytes rest <;> rfl

theorem textBytes_quote (rest : List UInt8) : textBytes (0x22 :: rest) = some ([], rest) := by
  rw [textBytes.eq_def]
  rfl

theorem textBytes_plain_append (content rest : List UInt8) (h : ∀ b ∈ content, isPlain b = true) :
    textBytes (content ++ rest) = before content (textBytes rest) := by
  induction content with
  | nil => cases h : textBytes rest <;> simp [before, h]
  | cons b content ih =>
    have htail := ih fun c hc => h c (List.mem_cons_of_mem _ hc)
    rw [List.cons_append, textBytes_plain (h b (List.mem_cons_self ..)), htail, before_before]
    rfl

theorem textBytes_letter {letter : UInt8} (byte : UInt8) (hl : letter ≠ 0x75)
    (h : escapedByte letter = some byte) (rest : List UInt8) :
    textBytes (0x5C :: letter :: rest) = before [byte] (textBytes rest) := by
  rw [textBytes.eq_def]
  simp only [if_neg (show (0x5C : UInt8) ≠ 0x22 by decide), if_true, if_neg hl, h]
  cases textBytes rest <;> rfl

/-- The four digits of a control character are read back. -/
theorem codeUnit_hexDigits : ∀ n < 0x20,
    ((Text.hexDigits 4 n).flatMap String.utf8EncodeChar).length = 4 ∧
      Text.hexNumber? (((Text.hexDigits 4 n).flatMap String.utf8EncodeChar).map
        fun digit => Char.ofNat digit.toNat) = some n := by
  decide +kernel

theorem textBytes_code {n : Nat} (hn : n < 0x20) (rest : List UInt8) :
    textBytes (0x5C :: 0x75 :: ((Text.hexDigits 4 n).flatMap String.utf8EncodeChar ++ rest))
      = before (String.utf8EncodeChar (Char.ofNat n)) (textBytes rest) := by
  obtain ⟨hlength, hvalue⟩ := codeUnit_hexDigits n hn
  generalize (Text.hexDigits 4 n).flatMap String.utf8EncodeChar = digits at hlength hvalue ⊢
  obtain ⟨a, b, c, d, rfl⟩ : ∃ a b c d, digits = [a, b, c, d] := List.length_eq_four.mp hlength
  have hunit : codeUnit a b c d = some n := hvalue
  have hhigh : (decide (0xD800 ≤ n) && decide (n < 0xDC00)) = false := by simp; omega
  have hlow : (decide (0xDC00 ≤ n) && decide (n < 0xE000)) = false := by simp; omega
  rw [textBytes.eq_def]
  simp only [if_neg (show (0x5C : UInt8) ≠ 0x22 by decide), List.cons_append, List.nil_append,
    if_true, hunit, Option.bind_eq_bind, Option.bind_some, hhigh, hlow, Bool.false_eq_true,
    if_false]
  cases textBytes rest <;> rfl

/-- Whatever stands for a character inside quotes is read as the bytes of the character. -/
theorem textBytes_escape (c : Char) (rest : List UInt8) :
    textBytes ((escape c).flatMap String.utf8EncodeChar ++ rest)
      = before (String.utf8EncodeChar c) (textBytes rest) := by
  rw [escape]
  split_ifs with h1 h2 h3 h4 h5 h6 h7 h8
  · subst h1
    exact textBytes_letter 0x22 (by decide) rfl rest
  · subst h2
    exact textBytes_letter 0x5C (by decide) rfl rest
  · subst h3
    exact textBytes_letter 0x08 (by decide) rfl rest
  · subst h4
    exact textBytes_letter 0x09 (by decide) rfl rest
  · subst h5
    exact textBytes_letter 0x0A (by decide) rfl rest
  · subst h6
    exact textBytes_letter 0x0C (by decide) rfl rest
  · subst h7
    exact textBytes_letter 0x0D (by decide) rfl rest
  · have hcode := textBytes_code h8 rest
    rwa [Char.ofNat_toNat] at hcode
  · rw [List.flatMap_singleton]
    refine textBytes_plain_append _ rest fun b hb => ?_
    by_cases hascii : c.toNat < 128
    · rw [Text.utf8EncodeChar_of_lt hascii, List.mem_singleton] at hb
      subst hb
      have hne (d : Char) (hd : d.toNat < 128) (h : c ≠ d) : c.toNat % 256 ≠ d.toNat := by
        intro heq
        exact h (Char.toNat_inj.mp (by omega))
      have hquote := hne '"' (by decide) h1
      have hslash := hne '\\' (by decide) h2
      simp only [isPlain, Bool.and_eq_true, bne_iff_ne, ne_eq, Bool.not_eq_true',
        decide_eq_false_iff_not, ← UInt8.toNat_inj, UInt8.lt_iff_toNat_lt, UInt8.toNat_ofNat']
      refine ⟨⟨hquote, hslash⟩, ?_⟩
      show ¬ c.toNat % 256 < 32
      omega
    · have hbig := Text.le_of_mem_utf8EncodeChar (Nat.not_lt.mp hascii) hb
      simp only [isPlain, Bool.and_eq_true, bne_iff_ne, ne_eq, Bool.not_eq_true',
        decide_eq_false_iff_not, ← UInt8.toNat_inj, UInt8.lt_iff_toNat_lt]
      refine ⟨⟨?_, ?_⟩, ?_⟩
      · show b.toNat ≠ 34
        omega
      · show b.toNat ≠ 92
        omega
      · show ¬ b.toNat < 32
        omega

theorem textBytes_escapeAll (cs : List Char) (rest : List UInt8) :
    textBytes ((cs.flatMap escape).flatMap String.utf8EncodeChar ++ 0x22 :: rest)
      = some (cs.flatMap String.utf8EncodeChar, rest) := by
  induction cs with
  | nil => rw [List.flatMap_nil, List.flatMap_nil, List.nil_append, textBytes_quote]
  | cons c cs ih =>
    rw [List.flatMap_cons, List.flatMap_append, List.append_assoc, textBytes_escape, ih,
      List.flatMap_cons]
    rfl

theorem bytes_quote (value : String) :
    bytes (quote value)
      = 0x22 :: ((value.toList.flatMap escape).flatMap String.utf8EncodeChar ++ [0x22]) := by
  rw [quote, bytes_ofList, List.flatMap_cons, List.flatMap_append, List.flatMap_singleton]
  rfl

theorem begins_quote (value : String) : Begins (bytes (quote value)) := by
  rw [bytes_quote]
  exact begins_cons rfl _

/-- A text in quotes is read back, whatever follows it. -/
theorem text_quote (value : String) (rest : List UInt8) :
    text (bytes (quote value) ++ rest) = some (value, rest) := by
  rw [bytes_quote, List.cons_append, List.append_assoc, text, symbol_cons rfl]
  simp only [Option.bind_eq_bind, Option.bind_some, List.cons_append, List.nil_append,
    textBytes_escapeAll, ← Text.bytes_eq, Text.ofBytes?_bytes]
  rfl

/-- A named value is read back as soon as the value is. -/
theorem member_quote {α : Type} {value : String → Reader α} (name : String)
    (content rest : List UInt8) :
    member value (bytes (quote name) ++ 0x3A :: (content ++ rest))
      = value name (content ++ rest) := by
  rw [member, text_quote]
  simp only [Option.bind_eq_bind, Option.bind_some,
    symbol_cons (show isBlankByte 0x3A = false from rfl)]

end RecordRelay.Json.Reader
