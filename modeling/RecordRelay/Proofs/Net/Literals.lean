import Mathlib
import RecordRelay.Net.IpAddress

/-! What the readers of addresses do with a text that other characters follow, and which characters
they take: hexadecimal digits, points and colons, and at least two colons for an address of the
newer version. -/
namespace RecordRelay

namespace IpAddress

variable {α β : Type}

/-- Reads the groups behind the gap that two colons stand for, after those before it. -/
def behindGap (head : List Nat) : Scan Nat := fun cs =>
  let tail := groups (7 - head.length) true cs
  some (ofGroups (head ++ List.replicate (8 - head.length - tail.1.length) 0 ++ tail.1), tail.2.2)

theorem newer_eq (cs : List Char) :
    newer cs =
      if (groups 8 true cs).1.length = 8 then
        some (ofGroups (groups 8 true cs).1, (groups 8 true cs).2.2)
      else if (groups 8 true cs).2.1 then none
      else (character ':' (groups 8 true cs).2.2).bind fun read =>
        (character ':' read.2).bind fun read => behindGap (groups 8 true cs).1 read.2 := rfl

section StopsAt

variable {rest : List Char}

/-- Characters that follow what a reader reads do not change what it reads. -/
def StopsAt (rest : List Char) (scan : Scan α) : Prop :=
  ∀ cs, scan (cs ++ rest) = (scan cs).map fun read => (read.1, read.2 ++ rest)

def NoDigit (rest : List Char) : Prop := ∀ c ∈ rest.head?, Text.hexValue? c = none

theorem takeWhile_append_of_head {p : Char → Bool} (h : ∀ c ∈ rest.head?, p c = false)
    (cs : List Char) : (cs ++ rest).takeWhile p = cs.takeWhile p := by
  induction cs with
  | nil =>
    cases rest with
    | nil => rfl
    | cons c rest => simp [h c rfl]
  | cons c cs ih => simp [List.takeWhile_cons, ih]

theorem dropWhile_append_of_head {p : Char → Bool} (h : ∀ c ∈ rest.head?, p c = false)
    (cs : List Char) : (cs ++ rest).dropWhile p = cs.dropWhile p ++ rest := by
  induction cs with
  | nil =>
    cases rest with
    | nil => rfl
    | cons c rest => simp [h c rfl]
  | cons c cs ih =>
    rw [List.cons_append, List.dropWhile_cons, List.dropWhile_cons, ih]
    split_ifs <;> rfl

theorem stopsAt_number (h : NoDigit rest) (form : NumberForm) : StopsAt rest (number form) := by
  intro cs
  have hdigit : ∀ c ∈ rest.head?, (Text.digitValue? form.base c).isSome = false := by
    intro c hc
    simp [Text.digitValue?, h c hc]
  simp only [number, takeWhile_append_of_head hdigit, dropWhile_append_of_head hdigit]
  split_ifs
  · rfl
  · simp [Option.map_map, Function.comp_def]

theorem stopsAt_character {c : Char} (h : rest.head? ≠ some c) : StopsAt rest (character c) := by
  intro cs
  cases cs with
  | nil =>
    cases rest with
    | nil => rfl
    | cons first rest =>
      have hne : first ≠ c := by simpa using h
      simp [character, hne]
  | cons first cs =>
    rw [List.cons_append, character, character]
    split_ifs <;> rfl

theorem stopsAt_some (value : α) : StopsAt rest fun cs => some (value, cs) := fun _ => rfl

theorem StopsAt.andThen {scan : Scan α} {next : α → Scan β} (h : StopsAt rest scan)
    (hnext : ∀ value, StopsAt rest (next value)) :
    StopsAt rest fun cs => (scan cs).bind fun read => next read.1 read.2 := by
  intro cs
  dsimp only
  rw [h cs, Option.bind_map, Option.map_bind]
  exact congrArg (Option.bind _) (funext fun read => hnext read.1 read.2)

theorem StopsAt.separated {separator : Char} {scan : Scan α} (h : StopsAt rest scan)
    (hseparator : rest.head? ≠ some separator) (first : Bool) :
    StopsAt rest (separated separator first scan) := by
  cases first with
  | true => exact h
  | false => exact (stopsAt_character hseparator).andThen fun _ => h

theorem stopsAt_older (hdigit : NoDigit rest) (hpoint : rest.head? ≠ some '.') :
    StopsAt rest older := by
  have hfirst := stopsAt_number hdigit octet
  have hnext := hfirst.separated hpoint false
  exact hfirst.andThen fun a => hnext.andThen fun b => hnext.andThen fun c =>
    hnext.andThen fun d => stopsAt_some (((a * 256 + b) * 256 + c) * 256 + d)

/-- The same for groups, which are read as far as there are any. -/
theorem groups_append (hdigit : NoDigit rest) (hpoint : rest.head? ≠ some '.')
    (hcolon : rest.head? ≠ some ':') (limit : Nat) (first : Bool) (cs : List Char) :
    groups limit first (cs ++ rest) =
      ((groups limit first cs).1, (groups limit first cs).2.1,
        (groups limit first cs).2.2 ++ rest) := by
  induction limit generalizing first cs with
  | zero => rfl
  | succ limit ih =>
    have holder := (stopsAt_older hdigit hpoint).separated hcolon first cs
    have hgroup := (stopsAt_number hdigit group).separated hcolon first cs
    rw [groups, groups, holder, hgroup]
    cases hread : if limit = 0 then none else separated ':' first older cs with
    | some read =>
      have hlimit : limit ≠ 0 := fun h => by simp [h] at hread
      rw [if_neg hlimit] at hread
      simp [hlimit, hread]
    | none =>
      have hnone : (if limit = 0 then none else (separated ':' first older cs).map
          fun read => (read.1, read.2 ++ rest)) = none := by
        split_ifs at hread ⊢ with hlimit
        · rfl
        · rw [hread]
          rfl
      rw [hnone]
      cases separated ':' first (number group) cs with
      | none => rfl
      | some read =>
        simp only [Option.map_some, ih]

theorem stopsAt_behindGap (hdigit : NoDigit rest) (hpoint : rest.head? ≠ some '.')
    (hcolon : rest.head? ≠ some ':') (head : List Nat) : StopsAt rest (behindGap head) := by
  intro cs
  simp only [behindGap, groups_append hdigit hpoint hcolon, Option.map_some]

theorem stopsAt_newer (hdigit : NoDigit rest) (hpoint : rest.head? ≠ some '.')
    (hcolon : rest.head? ≠ some ':') : StopsAt rest newer := by
  intro cs
  have hcharacter := stopsAt_character hcolon
  have hgap (head : List Nat) := hcharacter.andThen fun _ => hcharacter.andThen fun _ =>
    stopsAt_behindGap hdigit hpoint hcolon head
  rw [newer_eq, newer_eq, groups_append hdigit hpoint hcolon]
  split_ifs
  · rfl
  · rfl
  · exact hgap _ _

end StopsAt

/-- The characters of written addresses without a port. -/
def IsWritten (c : Char) : Prop := (Text.hexValue? c).isSome ∨ c = '.' ∨ c = ':'

/-- What a reader reads is made of characters of addresses, with some colons among them. -/
def Takes (colons : Nat) (scan : Scan α) : Prop :=
  ∀ cs value left, scan cs = some (value, left) →
    ∃ read, cs = read ++ left ∧ (∀ c ∈ read, IsWritten c) ∧ colons ≤ read.count ':'

theorem takes_number (form : NumberForm) : Takes 0 (number form) := by
  intro cs value left h
  simp only [number] at h
  split_ifs at h
  obtain ⟨_, -, hread⟩ := Option.map_eq_some_iff.mp h
  obtain rfl := (Prod.mk.inj hread).2
  refine ⟨_, List.takeWhile_append_dropWhile.symm, fun c hc => .inl ?_, Nat.zero_le _⟩
  have hdigit := List.mem_takeWhile_imp hc
  rw [Text.digitValue?, Option.isSome_filter] at hdigit
  exact Option.isSome_of_any hdigit

theorem takes_character {c : Char} (h : c = '.' ∨ c = ':') :
    Takes ([c].count ':') (character c) := by
  intro cs value left hread
  cases cs with
  | nil => contradiction
  | cons first cs =>
    rw [character] at hread
    split_ifs at hread with heq
    obtain rfl := (Prod.mk.inj (Option.some.inj hread)).2
    exact ⟨[first], rfl, List.forall_mem_singleton.mpr (heq ▸ .inr h), by rw [heq]⟩

theorem Takes.andThen {a b : Nat} {scan : Scan α} {next : α → Scan β} (h : Takes a scan)
    (hnext : ∀ value, Takes b (next value)) :
    Takes (a + b) fun cs => (scan cs).bind fun read => next read.1 read.2 := by
  intro cs value left hread
  obtain ⟨⟨first, middle⟩, hfirst, hsecond⟩ := Option.bind_eq_some_iff.mp hread
  obtain ⟨before, rfl, hbefore, ha⟩ := h cs first middle hfirst
  obtain ⟨behind, rfl, hbehind, hb⟩ := hnext first middle value left hsecond
  refine ⟨before ++ behind, (List.append_assoc ..).symm, ?_, ?_⟩
  · exact List.forall_mem_append.mpr ⟨hbefore, hbehind⟩
  · rw [List.count_append]
    omega

theorem takes_some (value : α) : Takes 0 fun cs => some (value, cs) := by
  intro cs value left h
  obtain rfl := (Prod.mk.inj (Option.some.inj h)).2
  exact ⟨[], rfl, nofun, le_rfl⟩

theorem Takes.separated {a : Nat} {separator : Char} {scan : Scan α} (h : Takes a scan)
    (hseparator : separator = '.' ∨ separator = ':') (first : Bool) :
    Takes ((if first then 0 else [separator].count ':') + a) (separated separator first scan) := by
  cases first with
  | true => simpa [IpAddress.separated, Takes] using h
  | false => exact (takes_character hseparator).andThen fun _ => h

theorem takes_older : Takes 0 older := by
  have hfirst := takes_number octet
  have hnext := hfirst.separated (.inl rfl) false
  exact hfirst.andThen fun a => hnext.andThen fun b => hnext.andThen fun c =>
    hnext.andThen fun d => takes_some (((a * 256 + b) * 256 + c) * 256 + d)

/-- There is a colon between any two groups, unless they are written like an address of the older
version. -/
theorem takes_groups (limit : Nat) (first : Bool) (cs : List Char) :
    ∃ read, cs = read ++ (groups limit first cs).2.2 ∧ (∀ c ∈ read, IsWritten c) ∧
      (groups limit first cs).1.length ≤
        read.count ':' + first.toNat + (groups limit first cs).2.1.toNat := by
  induction limit generalizing first cs with
  | zero => exact ⟨[], rfl, nofun, Nat.zero_le _⟩
  | succ limit ih =>
    have hcolon : (if first then 0 else [':'].count ':') + first.toNat = 1 := by
      cases first <;> rfl
    rw [groups]
    cases holder : if limit = 0 then none else separated ':' first older cs with
    | some result =>
      split_ifs at holder
      obtain ⟨read, hread, hwritten, hcount⟩ :=
        takes_older.separated (.inr rfl) first cs result.1 result.2 holder
      refine ⟨read, hread, hwritten, ?_⟩
      simp only [List.length_cons, List.length_nil, Bool.toNat_true]
      omega
    | none =>
      cases hgroup : separated ':' first (number group) cs with
      | none => exact ⟨[], rfl, nofun, Nat.zero_le _⟩
      | some result =>
        obtain ⟨read, rfl, hwritten, hcount⟩ :=
          (takes_number group).separated (.inr rfl) first cs result.1 result.2 hgroup
        have hrest := ih false result.2
        dsimp only
        generalize groups limit false result.2 = tail at hrest ⊢
        obtain ⟨values, endsOlder, left⟩ := tail
        obtain ⟨more, hmore, hmoreWritten, hlength⟩ := hrest
        refine ⟨read ++ more, ?_, List.forall_mem_append.mpr ⟨hwritten, hmoreWritten⟩, ?_⟩
        · rw [List.append_assoc, ← hmore]
        · simp only [List.count_append, List.length_cons, Bool.toNat_false] at hlength ⊢
          omega

theorem takes_behindGap (head : List Nat) : Takes 0 (behindGap head) := by
  intro cs value left h
  obtain ⟨read, hread, hwritten, -⟩ := takes_groups (7 - head.length) true cs
  obtain rfl := (Prod.mk.inj (Option.some.inj h)).2
  exact ⟨read, hread, hwritten, Nat.zero_le _⟩

theorem takes_newer : Takes 2 newer := by
  intro cs value left h
  have hcharacter : Takes 1 (character ':') := takes_character (.inr rfl)
  have hgap (head : List Nat) := hcharacter.andThen fun _ => hcharacter.andThen fun _ =>
    takes_behindGap head
  obtain ⟨read, hread, hwritten, hlength⟩ := takes_groups 8 true cs
  rw [newer_eq] at h
  split_ifs at h with height hends
  · obtain rfl := (Prod.mk.inj (Option.some.inj h)).2
    refine ⟨read, hread, hwritten, ?_⟩
    have hlast := Bool.toNat_le (groups 8 true cs).2.1
    rw [height, Bool.toNat_true] at hlength
    omega
  · obtain ⟨tail, htaken, htailWritten, hcount⟩ := hgap _ _ value left h
    refine ⟨read ++ tail, ?_, List.forall_mem_append.mpr ⟨hwritten, htailWritten⟩, ?_⟩
    · rw [List.append_assoc, ← htaken]
      exact hread
    · rw [List.count_append]
      omega

end IpAddress
end RecordRelay
