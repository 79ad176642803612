import RecordRelay.Proofs.Json.Floats

/-! A document whose objects have their fields in order is read back from its text, by a reader that
goes deep enough; one that nests deeper than the reader goes is not read at all. -/
namespace RecordRelay.Json

/-- Fields in the order of their names, each name once. -/
def Fields.Ordered (fields : Fields) : Prop := fields.Pairwise fun a b => a.1 < b.1

mutual

/-- The fields of every object of a document are in order. -/
def Canonical : Json → Prop
  | array items => CanonicalItems items
  | object fields => Fields.Ordered fields ∧ CanonicalFields fields
  | _ => True

def CanonicalItems : List Json → Prop
  | [] => True
  | item :: rest => item.Canonical ∧ CanonicalItems rest

def CanonicalFields : List (String × Json) → Prop
  | [] => True
  | (_, value) :: rest => value.Canonical ∧ CanonicalFields rest

end

theorem canonicalItems_iff {items : List Json} :
    CanonicalItems items ↔ ∀ item ∈ items, item.Canonical := by
  induction items with
  | nil => simp [CanonicalItems]
  | cons item rest ih => simp [CanonicalItems, ih]

theorem canonicalFields_iff {fields : Fields} :
    CanonicalFields fields ↔ ∀ field ∈ fields, field.2.Canonical := by
  induction fields with
  | nil => simp [CanonicalFields]
  | cons field rest ih =>
    obtain ⟨name, value⟩ := field
    rw [CanonicalFields, ih, List.forall_mem_cons]

namespace Fields

/-- A name that comes after all others is put at the end. -/
theorem set_of_lt (name : String) (value : Json) (fields : Fields)
    (h : ∀ field ∈ fields, field.1 < name) : set name value fields = fields ++ [(name, value)] := by
  induction fields with
  | nil => rfl
  | cons field rest ih =>
    obtain ⟨other, old⟩ := field
    have hlt : other < name := h _ (List.mem_cons_self ..)
    rw [set, if_neg (ne_of_gt hlt), if_neg (lt_asymm hlt),
      ih fun field hfield => h field (List.mem_cons_of_mem _ hfield)]
    rfl

/-- Fields that are in order stay as they are when they are written one after the other. -/
theorem ofList_of_ordered {fields : Fields} (h : fields.Ordered) : ofList fields = fields := by
  have hgo (done : Fields) : ∀ todo : Fields, Ordered (done ++ todo) →
      todo.foldl (fun fields pair => set pair.1 pair.2 fields) done = done ++ todo := by
    intro todo
    induction todo generalizing done with
    | nil => intro _; simp
    | cons field todo ih =>
      intro hordered
      have hlt : ∀ other ∈ done, other.1 < field.1 := fun other hother =>
        (List.pairwise_append.mp hordered).2.2 other hother field (List.mem_cons_self ..)
      rw [List.foldl_cons, set_of_lt _ _ _ hlt, ih _ (by simpa using hordered)]
      simp
  exact hgo [] fields h

end Fields

namespace Reader
open Text (bytes bytes_append)

def fieldBytes (field : String × Json) : List UInt8 :=
  bytes (quote field.1) ++ 0x3A :: bytes field.2.render

theorem bytes_renderItems (items : List Json) :
    bytes (renderItems items) = joined (items.map fun item => bytes item.render) := by
  have hcomma : bytes "," = [0x2C] := rfl
  induction items with
  | nil => rfl
  | cons item rest ih =>
    cases rest with
    | nil => rw [renderItems, List.map_singleton, joined_singleton]
    | cons next rest =>
      simp only [List.map_cons] at ih ⊢
      rw [renderItems, bytes_append, bytes_append, hcomma, ih, List.append_assoc, joined_cons_cons]
      · rfl
      · simp

theorem bytes_renderFields (fields : Fields) :
    bytes (renderFields fields) = joined (fields.map fieldBytes) := by
  have hcomma : bytes "," = [0x2C] := rfl
  have hcolon : bytes ":" = [0x3A] := rfl
  induction fields with
  | nil => rfl
  | cons field rest ih =>
    obtain ⟨name, value⟩ := field
    cases rest with
    | nil =>
      rw [renderFields, List.map_singleton, joined_singleton, bytes_append, bytes_append, hcolon,
        List.append_assoc]
      rfl
    | cons next rest =>
      simp only [List.map_cons] at ih ⊢
      rw [renderFields, bytes_append, bytes_append, bytes_append, bytes_append, hcomma, hcolon, ih,
        joined_cons_cons]
      · simp [fieldBytes]
      · simp

theorem bytes_array (items : List Json) :
    bytes (Json.array items).render
      = 0x5B :: (joined (items.map fun item => bytes item.render) ++ [0x5D]) := by
  rw [render, bytes_append, bytes_append, bytes_renderItems]
  rfl

theorem bytes_object (fields : Fields) :
    bytes (Json.object fields).render = 0x7B :: (joined (fields.map fieldBytes) ++ [0x7D]) := by
  rw [render, bytes_append, bytes_append, bytes_renderFields]
  rfl

theorem begins_number (value : Number) : Begins (bytes value.render) := by
  obtain ⟨b, rest, htext, hb⟩ := head_render value
  refine ⟨b, rest, htext, ?_⟩
  rcases hb with hb | rfl
  · have hbounds : 48 ≤ b.toNat ∧ b.toNat ≤ 57 := by
      simpa [isDigit, UInt8.le_iff_toNat_le] using hb
    simp [isPause, isBlankByte, ← UInt8.toNat_inj]
    omega
  · rfl

theorem begins_render (document : Json) : Begins (bytes document.render) := by
  cases document with
  | null => exact ⟨_, _, rfl, rfl⟩
  | bool value => cases value <;> exact ⟨_, _, rfl, rfl⟩
  | number value => exact begins_number value
  | string value => exact begins_quote value
  | array items => exact bytes_array items ▸ begins_cons rfl _
  | object fields => exact bytes_object fields ▸ begins_cons rfl _

theorem begins_field (field : String × Json) : Begins (fieldBytes field) :=
  (begins_quote field.1).append _

theorem document_scalar {b : UInt8} (hblank : isBlankByte b = false) (harray : b ≠ 0x5B)
    (hobject : b ≠ 0x7B) (d : Nat) (rest : List UInt8) :
    document d (b :: rest) = scalar (b :: rest) := by
  cases d <;> simp [document, skipBlanks_cons hblank, harray, hobject]

theorem document_zero {b : UInt8} (h : b = 0x5B ∨ b = 0x7B) (rest : List UInt8) :
    document 0 (b :: rest) = none := by
  have hblank : isBlankByte b = false := by rcases h with rfl | rfl <;> rfl
  simp only [document, skipBlanks_cons hblank, if_pos h]

theorem document_array (d : Nat) (rest : List UInt8) :
    document (d + 1) (0x5B :: rest) = map .array (array (document d)) (0x5B :: rest) := by
  simp only [document, skipBlanks_cons (show isBlankByte 0x5B = false from rfl), if_true]

theorem document_object (d : Nat) (rest : List UInt8) :
    document (d + 1) (0x7B :: rest)
      = map (fun pairs => .object (Fields.ofList pairs)) (object (namedMember (document d)))
        (0x7B :: rest) := by
  simp [document, skipBlanks_cons (show isBlankByte 0x7B = false from rfl)]

/-- The first byte of a number is none of those that start another value. -/
theorem ne_of_head {b c : UInt8} (hb : isDigit b = true ∨ b = 0x2D) (hc : isDigit c = false)
    (hminus : c ≠ 0x2D) : b ≠ c := by
  rintro rfl
  rcases hb with hb | hb
  · rw [hb] at hc
    contradiction
  · exact hminus hb

theorem scalar_number (value : Number) {rest : List UInt8} (hr : Ends rest) :
    scalar (bytes value.render ++ rest) = some (.number value, rest) := by
  obtain ⟨b, tail, htext, hb⟩ := head_render value
  have hskip := ((begins_number value).append rest).skipBlanks
  have hread := number_render value hr
  rw [htext, List.cons_append] at hread hskip ⊢
  simp only [scalar, hskip, if_neg (ne_of_head hb (c := 0x22) rfl (by decide)),
    if_neg (ne_of_head hb (c := 0x6E) rfl (by decide)),
    if_neg (ne_of_head hb (c := 0x74) rfl (by decide)),
    if_neg (ne_of_head hb (c := 0x66) rfl (by decide)), map, hread, Option.map_some]

theorem document_number (value : Number) (d : Nat) {rest : List UInt8} (hr : Ends rest) :
    document d (bytes value.render ++ rest) = some (.number value, rest) := by
  rw [← scalar_number value hr]
  obtain ⟨b, tail, htext, hb⟩ := head_render value
  have hblank : isBlankByte b = false := by
    simp [isBlankByte, ne_of_head hb (c := 0x20) rfl (by decide),
      ne_of_head hb (c := 0x09) rfl (by decide), ne_of_head hb (c := 0x0A) rfl (by decide),
      ne_of_head hb (c := 0x0D) rfl (by decide)]
  rw [htext]
  exact document_scalar hblank (ne_of_head hb rfl (by decide)) (ne_of_head hb rfl (by decide)) d _

theorem document_string (value : String) (d : Nat) (rest : List UInt8) :
    document d (bytes (quote value) ++ rest) = some (.string value, rest) := by
  have htext := text_quote value rest
  rw [bytes_quote, List.cons_append] at htext ⊢
  rw [document_scalar rfl (by decide) (by decide)]
  simp only [scalar, skipBlanks_cons (show isBlankByte 0x22 = false from rfl), if_true, map, htext,
    Option.map_some]

theorem mapM_depthItems (d : Nat) (items : List Json) :
    (items.mapM fun item => if item.depth ≤ d then some item else none)
      = if depthItems items ≤ d then some items else none := by
  induction items with
  | nil => simp [depthItems]
  | cons item rest ih =>
    rw [List.mapM_cons, ih, depthItems]
    by_cases h1 : item.depth ≤ d <;> by_cases h2 : depthItems rest ≤ d <;> simp [h1, h2]

theorem mapM_depthFields (d : Nat) (fields : Fields) :
    (fields.mapM fun field => if field.2.depth ≤ d then some field else none)
      = if depthFields fields ≤ d then some fields else none := by
  induction fields with
  | nil => simp [depthFields]
  | cons field rest ih =>
    obtain ⟨name, value⟩ := field
    rw [List.mapM_cons, ih, depthFields]
    by_cases h1 : value.depth ≤ d <;> by_cases h2 : depthFields rest ≤ d <;> simp [h1, h2]

/-- A document that a reader takes or refuses, depending on its depth. -/
def upTo (d : Nat) (value : Json) : Option Json := if value.depth ≤ d then some value else none

/-- Items that are read back one by one are read back as an array. -/
theorem array_render {d : Nat} (items : List Json)
    (h : ∀ item ∈ items, ∀ rest, Ends rest →
      document d (bytes item.render ++ rest) = (upTo d item).map fun v => (v, rest))
    (rest : List UInt8) :
    array (document d) (bytes (Json.array items).render ++ rest)
      = (if depthItems items ≤ d then some items else none).map fun vs => (vs, rest) := by
  have hread := bracketed_joined 0x5B rfl (.inl rfl) items
    (fun item _ => begins_render item) h rest
  rw [bytes_array, List.cons_append, List.append_assoc, array, List.singleton_append, hread,
    ← mapM_depthItems]
  rfl

theorem member_field {d : Nat} {field : String × Json} {rest : List UInt8}
    (h : document d (bytes field.2.render ++ rest) = (upTo d field.2).map fun v => (v, rest)) :
    member (namedMember (document d)) (fieldBytes field ++ rest)
      = (if field.2.depth ≤ d then some field else none).map fun v => (v, rest) := by
  rw [fieldBytes, List.append_assoc, List.cons_append, member_quote, namedMember, map, h, upTo]
  split_ifs <;> rfl

/-- Values that are read back one by one are read back with their names as an object. -/
theorem object_render {d : Nat} (fields : Fields)
    (h : ∀ field ∈ fields, ∀ rest, Ends rest →
      document d (bytes field.2.render ++ rest) = (upTo d field.2).map fun v => (v, rest))
    (rest : List UInt8) :
    object (namedMember (document d)) (bytes (Json.object fields).render ++ rest)
      = (if depthFields fields ≤ d then some fields else none).map fun vs => (vs, rest) := by
  have hread := bracketed_joined 0x7B rfl (.inr rfl) fields
    (fun field _ => begins_field field)
    (fun field hfield rest hr => member_field (h field hfield rest hr)) rest
  rw [bytes_object, List.cons_append, List.append_assoc, object, List.singleton_append, hread,
    ← mapM_depthFields]

/-- A canonical document is read back if the reader goes as deep as it does, and otherwise it is
not read. -/
theorem document_render (value : Json) (h : value.Canonical) (d : Nat) (rest : List UInt8)
    (hr : Ends rest) :
    document d (bytes value.render ++ rest) = (upTo d value).map fun v => (v, rest) := by
  cases value with
  | null => exact document_scalar rfl (by decide) (by decide) d _
  | bool value =>
    cases value <;> exact document_scalar rfl (by decide) (by decide) d _
  | number value => exact document_number value d hr
  | string value => exact document_string value d rest
  | array items =>
    have hitems := canonicalItems_iff.mp h
    have hread (d : Nat) := array_render (d := d) items
      (fun item hitem rest hr => document_render item (hitems item hitem) d rest hr) rest
    rw [bytes_array, List.cons_append] at hread ⊢
    cases d with
    | zero => rw [document_zero (.inl rfl), upTo, depth, if_neg (Nat.not_succ_le_zero _)]; rfl
    | succ d =>
      rw [document_array, map, hread, upTo, depth]
      by_cases hdepth : depthItems items ≤ d <;> simp [hdepth]
  | object fields =>
    have hfields := canonicalFields_iff.mp h.2
    have hread (d : Nat) := object_render (d := d) fields
      (fun field hfield rest hr => document_render field.2 (hfields field hfield) d rest hr) rest
    rw [bytes_object, List.cons_append] at hread ⊢
    cases d with
    | zero => rw [document_zero (.inr rfl), upTo, depth, if_neg (Nat.not_succ_le_zero _)]; rfl
    | succ d =>
      rw [document_object, map, hread, upTo, depth]
      by_cases hdepth : depthFields fields ≤ d <;> simp [hdepth, Fields.ofList_of_ordered h.1]
termination_by sizeOf value
decreasing_by
  · subst_vars
    have hlt := List.sizeOf_lt_of_mem hitem
    rw [Json.array.sizeOf_spec]
    omega
  · subst_vars
    have hlt := List.sizeOf_lt_of_mem hfield
    obtain ⟨name, content⟩ := field
    rw [Prod.mk.sizeOf_spec] at hlt
    rw [Json.object.sizeOf_spec]
    show sizeOf content < _
    omega

/-- The fields of an object are read back as those of a document are. -/
theorem fields_render {fields : Fields} (h : (Json.object fields).Canonical) (d : Nat)
    (rest : List UInt8) :
    Reader.fields d (bytes (Json.object fields).render ++ rest)
      = (if (Json.object fields).depth ≤ d then some fields else none).map fun v => (v, rest) := by
  have hfields := canonicalFields_iff.mp h.2
  rw [depth]
  cases d with
  | zero => rw [Reader.fields, if_neg (Nat.not_succ_le_zero _)]; rfl
  | succ d =>
    rw [Reader.fields, map, object_render _ fun field hfield rest hr =>
      document_render field.2 (hfields field hfield) d rest hr]
    by_cases hdepth : depthFields fields ≤ d <;> simp [hdepth, Fields.ofList_of_ordered h.1]

end Reader

end RecordRelay.Json
