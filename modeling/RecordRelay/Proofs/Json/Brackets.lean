import Mathlib
import RecordRelay.Json.Reader

/-! A value is read up to its last byte when what follows cannot be part of it. Elements that stand
between brackets with commas in between are then read one after the other, and the reading fails if
that of one of them does. -/
namespace RecordRelay.Json.Reader

variable {α β : Type}

/-- What may follow a value inside a document: nothing, a comma or a closing bracket. -/
def Ends (rest : List UInt8) : Prop := ∀ b ∈ rest.head?, b = 0x2C ∨ b = 0x5D ∨ b = 0x7D

theorem ends_comma (rest : List UInt8) : Ends (0x2C :: rest) := by simp [Ends]

theorem ends_close {close : UInt8} (h : close = 0x5D ∨ close = 0x7D) (rest : List UInt8) :
    Ends (close :: rest) := by
  simp [Ends, h]

/-- A byte with which no value starts: a blank, a closing bracket or a comma. -/
def isPause (b : UInt8) : Bool := isBlankByte b || b == 0x5D || b == 0x7D || b == 0x2C

/-- A text that starts a value. -/
def Begins (text : List UInt8) : Prop := ∃ b rest, text = b :: rest ∧ isPause b = false

theorem Begins.append {text : List UInt8} (h : Begins text) (rest : List UInt8) :
    Begins (text ++ rest) := by
  obtain ⟨b, tail, rfl, hb⟩ := h
  exact ⟨b, tail ++ rest, rfl, hb⟩

theorem begins_cons {b : UInt8} (hb : isPause b = false) (rest : List UInt8) :
    Begins (b :: rest) := ⟨b, rest, rfl, hb⟩

theorem Begins.length_pos {text : List UInt8} (h : Begins text) : 0 < text.length := by
  obtain ⟨b, tail, rfl, -⟩ := h
  exact Nat.succ_pos _

theorem skipBlanks_cons {b : UInt8} (hb : isBlankByte b = false) (rest : List UInt8) :
    skipBlanks (b :: rest) = b :: rest := by
  rw [skipBlanks, List.dropWhile_cons_of_neg (by simp [hb])]

theorem Begins.skipBlanks {text : List UInt8} (h : Begins text) : skipBlanks text = text := by
  obtain ⟨b, tail, rfl, hb⟩ := h
  refine skipBlanks_cons ?_ tail
  cases hblank : isBlankByte b with
  | false => rfl
  | true => simp [isPause, hblank] at hb

theorem symbol_cons {b : UInt8} (hb : isBlankByte b = false) (rest : List UInt8) :
    symbol b (b :: rest) = some ((), rest) := by
  simp [symbol, skipBlanks_cons hb]

def joined (texts : List (List UInt8)) : List UInt8 := [0x2C].intercalate texts

theorem joined_singleton (text : List UInt8) : joined [text] = text := by
  simp [joined, List.intercalate]

theorem joined_cons_cons (text next : List UInt8) (rest : List (List UInt8)) :
    joined (text :: next :: rest) = text ++ 0x2C :: joined (next :: rest) := by
  simp [joined, List.intercalate]

/-- Elements are read one by one when each of them is read whatever follows it. -/
theorem elements_joined {close : UInt8} (hclose : close = 0x5D ∨ close = 0x7D)
    {element : Reader α} {text : β → List UInt8} {value : β → Option α} (items : List β)
    (h : ∀ item ∈ items, ∀ rest, Ends rest →
      element (text item ++ rest) = (value item).map fun v => (v, rest))
    (hne : items ≠ []) {fuel : Nat} (hfuel : items.length ≤ fuel) (rest : List UInt8) :
    elements close element fuel (joined (items.map text) ++ close :: rest)
      = (items.mapM value).map fun vs => (vs, rest) := by
  have hblank : isBlankByte close = false := by rcases hclose with rfl | rfl <;> rfl
  have hcomma : (0x2C : UInt8) ≠ close := by rcases hclose with rfl | rfl <;> decide
  induction items generalizing fuel with
  | nil => exact absurd rfl hne
  | cons item others ih =>
    -- One unit of fuel is spent on each element, so there is enough for those that follow.
    obtain ⟨fuel, rfl⟩ : ∃ n, fuel = n + 1 := ⟨fuel - 1, by simp at hfuel; omega⟩
    have hitem := h item (List.mem_cons_self ..)
    cases others with
    | nil =>
      rw [List.map_singleton, joined_singleton, elements, hitem _ (ends_close hclose rest)]
      cases hv : value item with
      | none => simp [hv]
      | some v => simp [hv, skipBlanks_cons hblank]
    | cons next others =>
      have hroom : (next :: others).length ≤ fuel := by
        simp at hfuel ⊢
        omega
      have hrest := ih (fun x hx => h x (List.mem_cons_of_mem _ hx)) (by simp) hroom
      rw [List.map_cons] at hrest
      rw [List.map_cons, List.map_cons, joined_cons_cons, List.append_assoc, List.cons_append,
        elements, hitem _ (ends_comma _), List.mapM_cons]
      cases hv : value item with
      | none => rfl
      | some v =>
        simp only [Option.map_some, Option.bind_eq_bind, Option.bind_some,
          skipBlanks_cons (show isBlankByte 0x2C = false from rfl), if_neg hcomma, if_true, hrest]
        cases List.mapM value (next :: others) <;> rfl

theorem length_le_length_joined {text : β → List UInt8} (items : List β)
    (h : ∀ item ∈ items, Begins (text item)) : items.length ≤ (joined (items.map text)).length := by
  induction items with
  | nil => exact Nat.zero_le _
  | cons item others ih =>
    have hitem := (h item (List.mem_cons_self ..)).length_pos
    have hothers := ih fun x hx => h x (List.mem_cons_of_mem _ hx)
    cases others with
    | nil =>
      rw [List.map_singleton, joined_singleton]
      exact hitem
    | cons next others =>
      rw [List.map_cons] at hothers
      rw [List.map_cons, List.map_cons, joined_cons_cons, List.length_append]
      simp only [List.length_cons] at hothers ⊢
      omega

theorem begins_joined {text : β → List UInt8} {items : List β} (hne : items ≠ [])
    (h : ∀ item ∈ items, Begins (text item)) : Begins (joined (items.map text)) := by
  cases items with
  | nil => exact absurd rfl hne
  | cons item others =>
    have hitem := h item (List.mem_cons_self ..)
    cases others with
    | nil => rwa [List.map_singleton, joined_singleton]
    | cons next others =>
      rw [List.map_cons, List.map_cons, joined_cons_cons]
      exact hitem.append _

/-- Elements in brackets, however many there are. -/
theorem bracketed_joined (opening : UInt8) {close : UInt8} (hopening : isBlankByte opening = false)
    (hclose : close = 0x5D ∨ close = 0x7D)
    {element : Reader α} {text : β → List UInt8} {value : β → Option α} (items : List β)
    (hbegins : ∀ item ∈ items, Begins (text item))
    (h : ∀ item ∈ items, ∀ rest, Ends rest →
      element (text item ++ rest) = (value item).map fun v => (v, rest)) (rest : List UInt8) :
    bracketed opening close element (opening :: (joined (items.map text) ++ close :: rest))
      = (items.mapM value).map fun vs => (vs, rest) := by
  have hblank : isBlankByte close = false := by rcases hclose with rfl | rfl <;> rfl
  rw [bracketed, symbol_cons hopening]
  by_cases hne : items = []
  · subst hne
    simp [joined, List.intercalate, skipBlanks_cons hblank]
  · have hstart := begins_joined hne hbegins
    obtain ⟨b, tail, htext, hb⟩ := hstart.append (close :: rest)
    have hlength : items.length ≤ (b :: tail).length := by
      rw [← htext, List.length_append]
      exact le_trans (length_le_length_joined items hbegins) (Nat.le_add_right _ _)
    have hbclose : b ≠ close := by
      rintro rfl
      rcases hclose with rfl | rfl <;> simp [isPause] at hb
    have helements := elements_joined hclose items h hne hlength rest
    have hskip := (hstart.append (close :: rest)).skipBlanks
    rw [htext] at helements hskip
    simp only [Option.bind_eq_bind, Option.bind_some, htext, hskip, if_neg hbclose, helements]

end RecordRelay.Json.Reader
