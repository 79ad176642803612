import RecordRelay.Proofs.Json.Documents

/-! Setting and removing fields keeps the fields of an object in the order of their names, each name
once. Whatever text is read as a document gives one in which all fields are so and which nests no
deeper than the reader goes. -/
namespace RecordRelay

namespace Json

namespace Fields

variable {name : String} {value : Json} {fields : Fields}

theorem mem_set {field : String × Json} (h : field ∈ set name value fields) :
    field = (name, value) ∨ field ∈ fields := by
  induction fields with
  | nil => exact .inl (List.mem_singleton.mp h)
  | cons first rest ih =>
    obtain ⟨other, old⟩ := first
    rw [set] at h
    split_ifs at h
    · exact (List.mem_cons.mp h).imp_right (List.mem_cons_of_mem _)
    · exact List.mem_cons.mp h
    · rcases List.mem_cons.mp h with rfl | h
      · exact .inr List.mem_cons_self
      · exact (ih h).imp_right (List.mem_cons_of_mem _)

theorem Ordered.set (h : fields.Ordered) (name : String) (value : Json) :
    (Fields.set name value fields).Ordered := by
  induction fields with
  | nil => exact List.pairwise_singleton ..
  | cons first rest ih =>
    obtain ⟨other, old⟩ := first
    obtain ⟨hfirst, hrest⟩ := List.pairwise_cons.mp h
    rw [Fields.set]
    split_ifs with hsame hbefore
    · subst hsame
      exact List.pairwise_cons.mpr ⟨hfirst, hrest⟩
    · refine List.pairwise_cons.mpr ⟨fun field hfield => ?_, h⟩
      rcases List.mem_cons.mp hfield with rfl | hfield
      · exact hbefore
      · exact hbefore.trans (hfirst field hfield)
    · refine List.pairwise_cons.mpr ⟨fun field hfield => ?_, ih hrest⟩
      rcases mem_set hfield with rfl | hfield
      · exact lt_of_le_of_ne (not_lt.mp hbefore) (Ne.symm hsame)
      · exact hfirst field hfield

/-- Fields that are written one after the other are among those that were written. -/
theorem mem_ofList {pairs : List (String × Json)} {field : String × Json}
    (h : field ∈ ofList pairs) : field ∈ pairs := by
  induction pairs using List.reverseRecOn with
  | nil => exact h
  | append_singleton pairs pair ih =>
    rw [ofList, List.foldl_append] at h
    rcases mem_set h with rfl | hfield
    · exact List.mem_append_right _ (List.mem_singleton_self _)
    · exact List.mem_append_left _ (ih hfield)

end Fields

theorem depthItems_le_iff {items : List Json} {limit : Nat} :
    depthItems items ≤ limit ↔ ∀ item ∈ items, item.depth ≤ limit := by
  induction items with
  | nil => simp [depthItems]
  | cons item rest ih => rw [depthItems, List.forall_mem_cons, ← ih, Nat.max_le]

theorem depthFields_le_iff {fields : Fields} {limit : Nat} :
    depthFields fields ≤ limit ↔ ∀ field ∈ fields, field.2.depth ≤ limit := by
  induction fields with
  | nil => simp [depthFields]
  | cons field rest ih =>
    obtain ⟨name, value⟩ := field
    rw [depthFields, List.forall_mem_cons, ← ih, Nat.max_le]

theorem canonical_object_iff {fields : Fields} :
    (object fields).Canonical ↔ fields.Ordered ∧ ∀ field ∈ fields, field.2.Canonical := by
  rw [Canonical, canonicalFields_iff]

theorem canonical_array_iff {items : List Json} :
    (array items).Canonical ↔ ∀ item ∈ items, item.Canonical := by
  rw [Canonical, canonicalItems_iff]

theorem canonical_object_nil : (object []).Canonical :=
  canonical_object_iff.mpr ⟨.nil, nofun⟩

theorem Canonical.set {fields : Fields} {value : Json} (h : (object fields).Canonical)
    (hvalue : value.Canonical) (name : String) : (object (fields.set name value)).Canonical := by
  obtain ⟨hordered, hfields⟩ := canonical_object_iff.mp h
  refine canonical_object_iff.mpr ⟨hordered.set name value, fun field hfield => ?_⟩
  rcases Fields.mem_set hfield with rfl | hfield
  · exact hvalue
  · exact hfields field hfield

theorem Canonical.erase {fields : Fields} (h : (object fields).Canonical) (name : String) :
    (object (fields.erase name)).Canonical := by
  obtain ⟨hordered, hfields⟩ := canonical_object_iff.mp h
  have hsublist : (fields.erase name).Sublist fields := List.filter_sublist
  exact canonical_object_iff.mpr
    ⟨hordered.sublist hsublist, fun field hfield => hfields field (hsublist.subset hfield)⟩

/-- Fields that are written one after the other come into order. -/
theorem canonical_ofList {pairs : List (String × Json)} (h : ∀ pair ∈ pairs, pair.2.Canonical) :
    (object (Fields.ofList pairs)).Canonical := by
  induction pairs using List.reverseRecOn with
  | nil => exact canonical_object_nil
  | append_singleton pairs pair ih =>
    rw [Fields.ofList, List.foldl_append]
    have hpairs : ∀ pair ∈ pairs, pair.2.Canonical := fun pair hpair =>
      h pair (List.mem_append_left _ hpair)
    exact (ih hpairs).set (h pair (List.mem_append_right _ (List.mem_singleton_self _))) pair.1

namespace Reader

variable {α β : Type} {bytes rest : List UInt8}

theorem map_eq_some {f : α → β} {reader : Reader α} {value : β} :
    map f reader bytes = some (value, rest) ↔ ∃ a, reader bytes = some (a, rest) ∧ f a = value := by
  simp only [map, Option.map_eq_some_iff, Prod.exists, Prod.mk.injEq]
  constructor
  · rintro ⟨a, rest', hread, hvalue, rfl⟩
    exact ⟨a, hread, hvalue⟩
  · rintro ⟨a, hread, hvalue⟩
    exact ⟨a, rest, hread, hvalue, rfl⟩

/-- What a reader gives has a property. -/
def Gives (reader : Reader α) (property : α → Prop) : Prop :=
  ∀ bytes value rest, reader bytes = some (value, rest) → property value

theorem Gives.map {reader : Reader α} {property : α → Prop} {f : α → β} {result : β → Prop}
    (h : reader.Gives property) (hf : ∀ a, property a → result (f a)) :
    (map f reader).Gives result := by
  intro bytes value rest hread
  obtain ⟨a, ha, rfl⟩ := map_eq_some.mp hread
  exact hf a (h _ _ _ ha)

theorem Gives.elements {element : Reader α} {property : α → Prop} (h : element.Gives property)
    (close : UInt8) (fuel : Nat) :
    Gives (elements close element fuel) fun items => ∀ item ∈ items, property item := by
  intro bytes items rest hread
  induction fuel generalizing bytes items rest with
  | zero => exact nomatch hread
  | succ fuel ih =>
    rw [Reader.elements] at hread
    obtain ⟨⟨first, others⟩, hfirst, hread⟩ := Option.bind_eq_some_iff.mp hread
    dsimp only at hread
    split at hread
    next b bytes _ =>
      split_ifs at hread
      · obtain ⟨rfl, -⟩ := Prod.mk.inj (Option.some.inj hread)
        exact List.forall_mem_singleton.mpr (h _ _ _ hfirst)
      · obtain ⟨⟨items, rest'⟩, hitems, hread⟩ := Option.bind_eq_some_iff.mp hread
        obtain ⟨rfl, -⟩ := Prod.mk.inj (Option.some.inj hread)
        exact List.forall_mem_cons.mpr ⟨h _ _ _ hfirst, ih _ _ _ hitems⟩
    next => contradiction

theorem Gives.bracketed {element : Reader α} {property : α → Prop} (h : element.Gives property)
    (opening close : UInt8) :
    Gives (bracketed opening close element) fun items => ∀ item ∈ items, property item := by
  intro bytes items rest hread
  rw [Reader.bracketed] at hread
  obtain ⟨⟨_, others⟩, -, hread⟩ := Option.bind_eq_some_iff.mp hread
  dsimp only at hread
  split at hread
  next b more _ =>
    split_ifs at hread
    · obtain ⟨rfl, -⟩ := Prod.mk.inj (Option.some.inj hread)
      exact fun item hitem => absurd hitem List.not_mem_nil
    · exact h.elements close _ _ _ _ hread
  next => contradiction

/-- The values of all members have a property if those that are read for any name do. -/
theorem Gives.object {value : String → Reader α} {property : α → Prop}
    (h : ∀ name, (value name).Gives property) :
    Gives (object value) fun members => ∀ member ∈ members, property member := by
  refine Gives.bracketed ?_ _ _
  intro bytes a rest hread
  rw [member] at hread
  obtain ⟨⟨name, afterName⟩, -, hread⟩ := Option.bind_eq_some_iff.mp hread
  obtain ⟨⟨_, afterColon⟩, -, hread⟩ := Option.bind_eq_some_iff.mp hread
  exact h name _ _ _ hread

theorem Gives.triple {γ : Type} {first : Reader α} {second : Reader β} {third : Reader γ}
    {p : α → Prop} {q : β → Prop} {r : γ → Prop} (hfirst : first.Gives p) (hsecond : second.Gives q)
    (hthird : third.Gives r) :
    (triple first second third).Gives fun values => p values.1 ∧ q values.2.1 ∧ r values.2.2 := by
  intro bytes values rest hread
  rw [Reader.triple] at hread
  obtain ⟨_, -, hread⟩ := Option.bind_eq_some_iff.mp hread
  obtain ⟨⟨a, _⟩, ha, hread⟩ := Option.bind_eq_some_iff.mp hread
  obtain ⟨_, -, hread⟩ := Option.bind_eq_some_iff.mp hread
  obtain ⟨⟨b, _⟩, hb, hread⟩ := Option.bind_eq_some_iff.mp hread
  obtain ⟨_, -, hread⟩ := Option.bind_eq_some_iff.mp hread
  obtain ⟨⟨c, _⟩, hc, hread⟩ := Option.bind_eq_some_iff.mp hread
  obtain ⟨_, -, hread⟩ := Option.bind_eq_some_iff.mp hread
  obtain ⟨rfl, -⟩ := Prod.mk.inj (Option.some.inj hread)
  exact ⟨hfirst _ _ _ ha, hsecond _ _ _ hb, hthird _ _ _ hc⟩

/-- Of some values nothing is known. -/
theorem gives_true (reader : Reader α) : reader.Gives fun _ => True := fun _ _ _ _ => trivial

/-- A document that is neither an array nor an object. -/
def IsScalar : Json → Prop
  | .array _ | .object _ => False
  | _ => True

theorem scalar_gives : scalar.Gives IsScalar := by
  intro bytes value rest hread
  rw [scalar] at hread
  split at hread
  next => contradiction
  next b more _ =>
    split_ifs at hread <;>
    · obtain ⟨a, -, rfl⟩ := map_eq_some.mp hread
      trivial

/-- A property of documents, given the depth to which they may nest, that comes from inside: scalars
have it, and arrays and objects have it if all that is in them has it for one level less. -/
structure Hereditary (property : Nat → Json → Prop) : Prop where
  scalar : ∀ depth value, IsScalar value → property depth value
  array : ∀ depth items, (∀ item ∈ items, property depth item) → property (depth + 1) (.array items)
  object : ∀ depth pairs, (∀ pair ∈ pairs, property depth pair.2) →
    property (depth + 1) (.object (Fields.ofList pairs))

variable {property : Nat → Json → Prop}

/-- The fields of an object are those of its members, written one after the other. -/
theorem Hereditary.object_gives (h : Hereditary property) {depth : Nat} {value : Reader Json}
    (hvalue : value.Gives (property depth)) :
    (Reader.map Fields.ofList (Reader.object (namedMember value))).Gives
      fun fields => property (depth + 1) (.object fields) := by
  refine (Gives.object fun name => ?_).map (h.object depth)
  exact Gives.map hvalue fun _ hproperty => hproperty

/-- Whatever is read as a document has the properties that come from inside. -/
theorem Hereditary.document_gives (h : Hereditary property) (depth : Nat) :
    (document depth).Gives (property depth) := by
  induction depth with
  | zero =>
    intro bytes value rest hread
    rw [document] at hread
    dsimp only at hread
    split at hread
    next =>
      split_ifs at hread
      exact h.scalar 0 _ (scalar_gives _ _ _ hread)
    next => contradiction
  | succ depth ih =>
    intro bytes value rest hread
    rw [document] at hread
    dsimp only at hread
    split at hread
    next =>
      split_ifs at hread
      · obtain ⟨items, hitems, rfl⟩ := map_eq_some.mp hread
        exact h.array depth items (ih.bracketed _ _ _ _ _ hitems)
      · obtain ⟨pairs, hpairs, rfl⟩ := map_eq_some.mp hread
        exact h.object_gives ih _ _ _ (map_eq_some.mpr ⟨pairs, hpairs, rfl⟩)
      · exact h.scalar (depth + 1) _ (scalar_gives _ _ _ hread)
    next => contradiction

theorem Hereditary.fields_gives (h : Hereditary property) (depth : Nat) :
    (fields depth).Gives fun fields => property depth (.object fields) := by
  cases depth with
  | zero => exact fun _ _ _ hread => nomatch hread
  | succ depth => exact h.object_gives (h.document_gives depth)

/-- Whatever is read as a document has its fields in order. -/
theorem hereditary_canonical : Hereditary fun _ => Canonical where
  scalar _ value hscalar := by cases value <;> trivial
  array _ _ hitems := canonical_array_iff.mpr hitems
  object _ _ hpairs := canonical_ofList hpairs

/-- Whatever is read as a document nests no deeper than the reader goes. -/
theorem hereditary_depth : Hereditary fun depth value => value.depth ≤ depth where
  scalar _ value hscalar := by
    cases value with
    | array | object => exact hscalar.elim
    | _ => exact Nat.zero_le _
  array _ _ hitems := Nat.succ_le_succ (depthItems_le_iff.mpr hitems)
  object _ pairs hpairs :=
    Nat.succ_le_succ (depthFields_le_iff.mpr fun field hfield =>
      hpairs field (Fields.mem_ofList hfield))

/-- What is read as a whole is what the reader gives. -/
theorem Gives.whole {reader : Reader α} {property : α → Prop} (h : reader.Gives property)
    {value : α} (hread : whole reader bytes = some value) : property value := by
  rw [Reader.whole] at hread
  obtain ⟨⟨found, rest⟩, hfound, hread⟩ := Option.bind_eq_some_iff.mp hread
  dsimp only at hread
  split_ifs at hread
  obtain rfl := Option.some.inj hread
  exact h _ _ _ hfound

end Reader

end Json

end RecordRelay
