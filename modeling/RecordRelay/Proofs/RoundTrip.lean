import RecordRelay.Proofs.Json.Order
import RecordRelay.Proofs.Wire

/-! Records arrive at another node with their events as they were and without their metadata, unless
a document of theirs nests too deep: then the batch cannot be read. That the fields of all documents
are in order is no restriction, since events are built and read that way. Whatever is read nests no
deeper than what may be written, so a batch that has arrived can be sent on and arrives again. -/
namespace RecordRelay
open Json (Reader)

namespace Json

theorem Canonical.get? {fields : Fields} (h : (object fields).Canonical) {name : String}
    {value : Json} (hget : fields.get? name = some value) : value.Canonical := by
  obtain ⟨-, hfields⟩ := canonical_object_iff.mp h
  clear h
  induction fields with
  | nil => exact nomatch hget
  | cons field rest ih =>
    obtain ⟨hfield, hrest⟩ := List.forall_mem_cons.mp hfields
    rw [Fields.get?] at hget
    split_ifs at hget
    · exact Option.some.inj hget ▸ hfield
    · exact ih hget hrest

theorem Canonical.place {value : Json} (hvalue : value.Canonical) (names : List String)
    {document : Json} (h : document.Canonical) : (Json.place value names document).Canonical := by
  induction names generalizing document with
  | nil => exact hvalue
  | cons name rest ih =>
    have hfields : (object (document.fields?.getD [])).Canonical := by
      cases document with
      | object fields => exact h
      | _ => exact canonical_object_nil
    rw [Json.place]
    refine hfields.set (ih ?_) name
    cases hget : (document.fields?.getD []).get? name with
    | none => exact canonical_object_nil
    | some child => exact hfields.get? hget

end Json

namespace Event

variable {event : Event} {value : Json}

theorem canonical_ofData (kind : String) (h : value.Canonical) : (ofData kind value).Canonical := by
  refine ⟨Json.canonical_object_nil, ?_⟩
  rw [ofData]
  split_ifs
  · exact h
  · exact Json.canonical_object_nil.set h "message"

theorem Canonical.put (h : event.Canonical) (path : String) (hvalue : value.Canonical) :
    (event.put path value).Canonical := by
  rw [Event.put]
  split
  · exact h
  · exact ⟨h.1, hvalue.place _ h.2⟩

theorem Canonical.setAttribute (h : event.Canonical) (name : String) (hvalue : value.Canonical) :
    (event.setAttribute name value).Canonical :=
  ⟨h.1.set hvalue name, h.2⟩

theorem Canonical.eraseAttribute (h : event.Canonical) (name : String) :
    (event.eraseAttribute name).Canonical :=
  ⟨h.1.erase name, h.2⟩

/-- The documents of an event have a property. -/
def Has (property : Json → Prop) (event : Event) : Prop :=
  property (.object event.attributes) ∧ property event.data

def Member.Has (property : Json → Prop) : Member → Prop
  | kind _ => True
  | attributes fields => property (.object fields)
  | data document => property document
  | unknown => True

theorem has_of_ofMembers {property : Json → Prop} {members : List Member}
    (hempty : property (.object [])) (h : ∀ member ∈ members, member.Has property)
    (hevent : ofMembers members = some event) : event.Has property := by
  have hattributes : ∀ fields ∈ members.filterMap Member.attributes?,
      property (.object fields) := by
    intro fields hfields
    obtain ⟨member, hmember, hgives⟩ := List.mem_filterMap.mp hfields
    cases member with
    | attributes value => exact Option.some.inj hgives ▸ h _ hmember
    | _ => exact nomatch hgives
  have hdata : ∀ document ∈ members.filterMap Member.data?, property document := by
    intro document hdocument
    obtain ⟨member, hmember, hgives⟩ := List.mem_filterMap.mp hdocument
    cases member with
    | data value => exact Option.some.inj hgives ▸ h _ hmember
    | _ => exact nomatch hgives
  rw [ofMembers] at hevent
  split at hevent
  next kind data _ _ hmembers =>
    obtain rfl := Option.some.inj hevent
    exact ⟨hempty, hdata data (hmembers ▸ List.mem_singleton_self _)⟩
  next kind fields data _ hfields hmembers =>
    obtain rfl := Option.some.inj hevent
    exact ⟨hattributes fields (hfields ▸ List.mem_singleton_self _),
      hdata data (hmembers ▸ List.mem_singleton_self _)⟩
  next => contradiction

section Reading

variable {property : Nat → Json → Prop} (h : Reader.Hereditary property) (naming : Naming)
  {depth : Nat}
include h

theorem member_gives (name : String) :
    (member naming depth name).Gives (Member.Has (property depth)) := by
  rw [member]
  split_ifs
  · exact (Reader.gives_true _).map fun _ _ => trivial
  · exact (h.fields_gives depth).map fun _ hfields => hfields
  · exact (h.document_gives depth).map fun _ hdocument => hdocument
  · exact (Reader.gives_true _).map fun _ _ => trivial

/-- The documents of whatever is read as an event have the properties of documents that are read. -/
theorem reader_gives (hempty : property depth (.object [])) :
    (reader naming depth).Gives (Has (property depth)) := by
  intro bytes value rest hread
  rw [reader] at hread
  split at hread
  next =>
    split_ifs at hread
    · refine Reader.Gives.map (Reader.Gives.triple (Reader.gives_true _)
        (h.fields_gives depth) (h.document_gives depth)) ?_ _ _ _ hread
      exact fun parts hparts => ⟨hparts.2.1, hparts.2.2⟩
    · obtain ⟨⟨members, _⟩, hmembers, hread⟩ := Option.bind_eq_some_iff.mp hread
      obtain ⟨event, hevent, hread⟩ := Option.bind_eq_some_iff.mp hread
      obtain ⟨rfl, -⟩ := Prod.mk.inj (Option.some.inj hread)
      exact has_of_ofMembers hempty
        (Reader.Gives.object (member_gives h naming) _ _ _ hmembers) hevent
  next => contradiction

end Reading

end Event

namespace Batch

def Has (property : Event → Prop) (batch : Batch) : Prop := ∀ event ∈ batch.events, property event

def Member.Has (property : Event → Prop) : Member → Prop
  | events value => ∀ event ∈ value, property event
  | _ => True

variable {batch : Batch}

theorem has_of_ofMembers {property : Event → Prop} {members : List Member}
    (h : ∀ member ∈ members, member.Has property) (hbatch : ofMembers members = some batch) :
    batch.Has property := by
  have hevents : ∀ events ∈ members.filterMap Member.events?, ∀ event ∈ events,
      property event := by
    intro events hevents
    obtain ⟨member, hmember, hgives⟩ := List.mem_filterMap.mp hevents
    cases member with
    | events value => exact Option.some.inj hgives ▸ h _ hmember
    | _ => exact nomatch hgives
  rw [ofMembers] at hbatch
  split at hbatch
  next events plugin pipeline hmembers _ _ =>
    obtain rfl := Option.some.inj hbatch
    exact hevents events (hmembers ▸ List.mem_singleton_self _)
  next => contradiction

section Reading

variable {property : Event → Prop} (h : (Event.reader eventNaming documentDepth).Gives property)
include h

theorem member_gives (name : String) : (member name).Gives (Member.Has property) := by
  rw [member]
  split_ifs
  · exact (h.bracketed _ _).map fun _ hevents => hevents
  · exact (Reader.gives_true _).map fun _ _ => trivial
  · exact (Reader.gives_true _).map fun _ _ => trivial
  · exact (Reader.gives_true _).map fun _ _ => trivial

theorem reader_gives : reader.Gives (Has property) := by
  intro bytes value rest hread
  rw [reader] at hread
  split at hread
  next =>
    split_ifs at hread
    · refine Reader.Gives.map (Reader.Gives.triple (h.bracketed _ _) (Reader.gives_true _)
        (Reader.gives_true _)) ?_ _ _ _ hread
      exact fun parts hparts => hparts.1
    · obtain ⟨⟨members, _⟩, hmembers, hread⟩ := Option.bind_eq_some_iff.mp hread
      obtain ⟨batch, hbatch, hread⟩ := Option.bind_eq_some_iff.mp hread
      obtain ⟨rfl, -⟩ := Prod.mk.inj (Option.some.inj hread)
      exact has_of_ofMembers (Reader.Gives.object (member_gives h) _ _ _ hmembers) hbatch
  next => contradiction

end Reading

/-- The documents of a batch that was read have the properties of documents that are read. -/
theorem has_of_decode? {property : Nat → Json → Prop} (h : Reader.Hereditary property)
    (hempty : property documentDepth (.object [])) {payload : List UInt8}
    (hread : decode? payload = some batch) : batch.Has (Event.Has (property documentDepth)) :=
  (reader_gives (Event.reader_gives h eventNaming hempty)).whole hread

/-- The records of a batch that was read can be sent on. -/
theorem canonical_of_decode? {payload : List UInt8} (h : decode? payload = some batch) :
    ∀ record ∈ batch.records, record.Canonical :=
  List.forall_mem_map.mpr
    (has_of_decode? Reader.hereditary_canonical Json.canonical_object_nil h)

/-- The documents of a batch that was read nest no deeper than a batch may carry. -/
theorem fits_of_decode? {payload : List UInt8} (h : decode? payload = some batch) :
    ∀ record ∈ batch.records, record.event.Fits documentDepth :=
  List.forall_mem_map.mpr (has_of_decode? Reader.hereditary_depth (by decide) h)

/-- Records come back from their payload in order, without their metadata and for the plugin and
pipeline they were for, if no document of theirs nests deeper than 124 arrays and objects. If one
does, the payload cannot be read. -/
theorem reads_back_within_depth (records : List Record) (h : ∀ record ∈ records, record.Canonical)
    (pipeline plugin : String) :
    ((∀ record ∈ records, (Json.object record.event.attributes).depth ≤ 124
        ∧ record.event.data.depth ≤ 124) →
      ∃ batch, decode? (encode records pipeline plugin) = some batch
        ∧ batch.pipeline = pipeline ∧ batch.plugin = plugin
        ∧ batch.records = records.map Record.bare)
    ∧ ((∃ record ∈ records, 124 < (Json.object record.event.attributes).depth
        ∨ 124 < record.event.data.depth) →
      decode? (encode records pipeline plugin) = none) := by
  rw [decode?_encode h]
  constructor
  · intro hfits
    exact ⟨_, if_pos hfits, rfl, rfl, records_ofRecords records pipeline plugin⟩
  · rintro ⟨record, hrecord, hdeep⟩
    refine if_neg fun hfits => ?_
    obtain ⟨hattributes, hdata⟩ := hfits record hrecord
    exact hdeep.elim hattributes.not_gt hdata.not_gt

def nested : Nat → Json
  | 0 => .array []
  | depth + 1 => .array [nested depth]

theorem canonical_nested (depth : Nat) : (nested depth).Canonical := by
  induction depth with
  | zero => exact Json.canonical_array_iff.mpr nofun
  | succ depth ih => exact Json.canonical_array_iff.mpr (List.forall_mem_singleton.mpr ih)

theorem depth_nested (depth : Nat) : (nested depth).depth = depth + 1 := by
  induction depth with
  | zero => rfl
  | succ depth ih => rw [nested, Json.depth, Json.depthItems, ih]; rfl

def annotated (data : Json) : Record :=
  ⟨⟨"événement", [("clé \"λ\"", .string "\n\\")], data⟩, [("origin", "here")]⟩

theorem canonical_annotated {data : Json} (h : data.Canonical) : (annotated data).Canonical := by
  have htext : (Json.string "\n\\").Canonical := trivial
  exact ⟨Json.canonical_object_nil.set htext "clé \"λ\"", h⟩

theorem reads_back_within_depth_nested :
    (∃ batch, decode? (encode [annotated (nested 123), annotated .null] "π" "p") = some batch
        ∧ batch.pipeline = "π" ∧ batch.plugin = "p"
        ∧ batch.records = [(annotated (nested 123)).bare, (annotated .null).bare])
      ∧ decode? (encode [annotated .null, annotated (nested 124)] "π" "p") = none := by
  have hnull : (annotated .null).Canonical := canonical_annotated trivial
  constructor
  · refine (reads_back_within_depth [annotated (nested 123), annotated .null] ?_ "π" "p").1 ?_
    · simp [hnull, canonical_annotated (canonical_nested 123)]
    · simp [annotated, depth_nested, Json.depth, Json.depthFields]
  · refine (reads_back_within_depth [annotated .null, annotated (nested 124)] ?_ "π" "p").2 ?_
    · simp [hnull, canonical_annotated (canonical_nested 124)]
    · simp [annotated, depth_nested]

/-- The payload that a node writes for what it has read from another one. -/
def rewrite? (payload : List UInt8) : Option (List UInt8) :=
  (decode? payload).map fun batch => encode batch.records batch.pipeline batch.plugin

variable {payload : List UInt8}

theorem ofRecords_records (batch : Batch) :
    ofRecords batch.records batch.pipeline batch.plugin = batch := by
  simp [ofRecords, records, Function.comp_def, Record.ofEvent]

/-- What is written for a batch that was read is read as the same batch. -/
theorem decode?_encode_of_decode? (h : decode? payload = some batch) :
    decode? (encode batch.records batch.pipeline batch.plugin) = some batch := by
  rw [decode?_encode (canonical_of_decode? h), if_pos (fits_of_decode? h), ofRecords_records]

theorem rewrite?_of_decode? (h : decode? payload = some batch) :
    rewrite? payload = some (encode batch.records batch.pipeline batch.plugin) := by
  rw [rewrite?, h, Option.map_some]

/-- However a payload spells a batch, the one that is written for it is read as the same batch and
written once more as it is. All spellings of a batch are written alike, and those of another batch
are not. -/
theorem rewriting_is_stable (h : decode? payload = some batch) :
    ∃ again, rewrite? payload = some again
      ∧ decode? again = some batch ∧ rewrite? again = some again
      ∧ ∀ other, rewrite? other = some again ↔ decode? other = some batch := by
  have hread := decode?_encode_of_decode? h
  refine ⟨_, rewrite?_of_decode? h, hread, rewrite?_of_decode? hread,
    fun other => ⟨fun hother => ?_, rewrite?_of_decode?⟩⟩
  obtain ⟨found, hfound, hwritten⟩ := Option.map_eq_some_iff.mp hother
  rw [hfound, ← decode?_encode_of_decode? hfound, hwritten, hread]

/-- A batch of two events, the first of which is an array, with an attribute that is given twice,
numbers and texts that could be shorter, and a member that is skipped. -/
def verbosePayload : List UInt8 :=
  Text.bytes (" [ [ [\"k\", \x7b\"b\":1, \"a\":-0, \"b\":1.50\x7d, null ],"
    ++ "\x7b\"eventData\": 2e1 , \"x\":[[]], \"eventType\":\"\\u0041\"\x7d ],"
    ++ " \"q\" , \"p\\/1\" ]\n")

theorem rewriting_is_stable_verbose :
    ∃ batch again, decode? verbosePayload = some batch ∧ batch.events.length = 2
      ∧ batch.plugin = "q" ∧ batch.pipeline = "p/1"
      ∧ rewrite? verbosePayload = some again
      ∧ decode? again = some batch ∧ rewrite? again = some again := by
  have hparts : (decode? verbosePayload).map
      (fun batch => (batch.events.length, batch.plugin, batch.pipeline))
        = some (2, "q", "p/1") := by
    decide +kernel
  obtain ⟨batch, hread, hbatch⟩ := Option.map_eq_some_iff.mp hparts
  obtain ⟨hlength, hnames⟩ := Prod.mk.inj hbatch
  obtain ⟨hplugin, hpipeline⟩ := Prod.mk.inj hnames
  obtain ⟨again, hagain, hsame, hstable, -⟩ := rewriting_is_stable hread
  exact ⟨batch, again, hread, hlength, hplugin, hpipeline, hagain, hsame, hstable⟩

end Batch

end RecordRelay
