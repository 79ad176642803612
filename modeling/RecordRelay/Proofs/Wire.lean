import RecordRelay.Batch
import RecordRelay.Proofs.Json.Documents

/-! The payload of a batch is read as the batch when no document inside its events nests too deep,
and otherwise it is not read at all. So a node that takes a batch has all of its events as they
were. -/
namespace RecordRelay
open Text (bytes bytes_append)
open Json (quote)
open Json.Reader

def memberBytes (name : String) (content : List UInt8) : List UInt8 :=
  bytes (quote name) ++ 0x3A :: content

theorem begins_memberBytes (name : String) (content : List UInt8) :
    Begins (memberBytes name content) := (begins_quote name).append _

/-- Members whose values are read back make an object that is read back. -/
theorem object_members {α : Type} (value : String → Json.Reader α)
    (members : List ((String × List UInt8) × Option α))
    (h : ∀ m ∈ members, ∀ rest, Ends rest →
      value m.1.1 (m.1.2 ++ rest) = m.2.map fun v => (v, rest)) (rest : List UInt8) :
    object value (0x7B :: (joined (members.map fun m => memberBytes m.1.1 m.1.2) ++ 0x7D :: rest))
      = (members.mapM Prod.snd).map fun vs => (vs, rest) := by
  refine bracketed_joined 0x7B rfl (.inr rfl) members (fun m _ => begins_memberBytes _ _) ?_ rest
  intro m hm rest hr
  rw [memberBytes, List.append_assoc, List.cons_append, member_quote, h m hm rest hr]

namespace Event

/-- The documents of an event have their fields in order. -/
def Canonical (event : Event) : Prop :=
  (Json.object event.attributes).Canonical ∧ event.data.Canonical

/-- The documents of an event nest no deeper than a depth. -/
def Fits (depth : Nat) (event : Event) : Prop :=
  (Json.object event.attributes).depth ≤ depth ∧ event.data.depth ≤ depth

instance (depth : Nat) (event : Event) : Decidable (event.Fits depth) :=
  inferInstanceAs (Decidable (_ ∧ _))

def Naming.Distinct (naming : Naming) : Prop :=
  naming.kind ≠ naming.attributes ∧ naming.kind ≠ naming.data ∧ naming.attributes ≠ naming.data

variable {naming : Naming} {depth : Nat}

theorem bytes_renderAs (event : Event) :
    bytes (event.renderAs naming)
      = 0x7B :: (joined [memberBytes naming.kind (bytes (quote event.kind)),
          memberBytes naming.attributes (bytes (Json.object event.attributes).render),
          memberBytes naming.data (bytes event.data.render)] ++ [0x7D]) := by
  have hopen : bytes "\x7b" = [0x7B] := rfl
  have hclose : bytes "\x7d" = [0x7D] := rfl
  have hcomma : bytes "," = [0x2C] := rfl
  have hcolon : bytes ":" = [0x3A] := rfl
  delta renderAs
  simp only [bytes_append, hopen, hclose, hcomma, hcolon, joined_cons_cons, joined_singleton,
    memberBytes, List.append_assoc, List.cons_append, List.nil_append]

theorem begins_renderAs (naming : Naming) (event : Event) :
    Begins (bytes (event.renderAs naming)) := by
  rw [bytes_renderAs]
  exact begins_cons rfl _

theorem ofMembers_parts (kind : String) (attributes : Json.Fields) (data : Json) :
    ofMembers [.kind kind, .attributes attributes, .data data] = some ⟨kind, attributes, data⟩ :=
  rfl

/-- An event whose documents are canonical is read back if the reader goes as deep as they do. -/
theorem reader_renderAs (depth : Nat) (hn : naming.Distinct) {event : Event} (h : event.Canonical)
    (rest : List UInt8) :
    reader naming depth (bytes (event.renderAs naming) ++ rest)
      = (if event.Fits depth then some event else none).map fun e => (e, rest) := by
  have hmembers := object_members (member naming depth)
    [((naming.kind, bytes (quote event.kind)), some (.kind event.kind)),
      ((naming.attributes, bytes (Json.object event.attributes).render),
        if (Json.object event.attributes).depth ≤ depth then some (.attributes event.attributes)
          else none),
      ((naming.data, bytes event.data.render),
        if event.data.depth ≤ depth then some (.data event.data) else none)]
    (by
      simp only [List.forall_mem_cons]
      refine ⟨fun rest _ => ?_, fun rest _ => ?_, fun rest hr => ?_, by simp⟩
      · rw [member, if_pos rfl, Json.Reader.map, text_quote]
        rfl
      · rw [member, if_neg hn.1.symm, if_pos rfl, Json.Reader.map, fields_render h.1]
        split_ifs <;> rfl
      · rw [member, if_neg hn.2.1.symm, if_neg hn.2.2.symm, if_pos rfl, Json.Reader.map,
          document_render _ h.2 _ _ hr, upTo]
        split_ifs <;> rfl) rest
  rw [bytes_renderAs, List.cons_append, List.append_assoc, List.singleton_append, reader,
    skipBlanks_cons (b := 0x7B) rfl]
  simp only [List.map_cons, List.map_nil] at hmembers
  simp only [if_neg (show (0x7B : UInt8) ≠ 0x5B by decide), hmembers]
  by_cases hattributes : (Json.object event.attributes).depth ≤ depth <;>
    by_cases hdata : event.data.depth ≤ depth <;>
    simp [hattributes, hdata, Fits, ofMembers_parts]

end Event

/-- The documents of a record have their fields in order. -/
def Record.Canonical (record : Record) : Prop := record.event.Canonical

namespace Batch

theorem eventNaming_distinct : eventNaming.Distinct := by
  simp [Event.Naming.Distinct, eventNaming]

theorem bytes_intercalate (texts : List String) :
    bytes (",".intercalate texts) = joined (texts.map bytes) := by
  have hcomma : bytes "," = [0x2C] := rfl
  induction texts with
  | nil => rfl
  | cons text rest ih =>
    cases rest with
    | nil => rw [String.intercalate_singleton, List.map_singleton, joined_singleton]
    | cons next rest =>
      simp only [List.map_cons] at ih ⊢
      rw [String.intercalate_cons_cons, bytes_append, bytes_append, hcomma, ih, joined_cons_cons,
        List.append_assoc]
      rfl

def eventsBytes (events : List Event) : List UInt8 :=
  0x5B :: (joined (events.map fun event => bytes (event.renderAs eventNaming)) ++ [0x5D])

theorem bytes_render (batch : Batch) :
    bytes batch.render
      = 0x7B :: (joined [memberBytes "events" (eventsBytes batch.events),
          memberBytes "destinationPluginId" (bytes (quote batch.plugin)),
          memberBytes "destinationPipelineName" (bytes (quote batch.pipeline))] ++ [0x7D]) := by
  have hopen : bytes "\x7b" = [0x7B] := rfl
  have hclose : bytes "\x7d" = [0x7D] := rfl
  have hcomma : bytes "," = [0x2C] := rfl
  have hcolon : bytes ":" = [0x3A] := rfl
  have hbracket : bytes ":[" = [0x3A, 0x5B] := rfl
  have hend : bytes "]," = [0x5D, 0x2C] := rfl
  delta render
  simp only [bytes_append, hopen, hclose, hcomma, hcolon, hbracket, hend, joined_cons_cons,
    joined_singleton, memberBytes, eventsBytes, bytes_intercalate, List.map_map, Function.comp_def,
    List.append_assoc, List.cons_append, List.nil_append]

theorem mapM_fits (depth : Nat) (events : List Event) :
    (events.mapM fun event => if event.Fits depth then some event else none)
      = if ∀ event ∈ events, event.Fits depth then some events else none := by
  induction events with
  | nil => simp
  | cons event rest ih =>
    simp only [List.mapM_cons, ih, List.forall_mem_cons]
    split_ifs with h1 h2 h3 h4 h5 h6 <;> simp_all

theorem eventsReader_eventsBytes {events : List Event} (h : ∀ event ∈ events, event.Canonical)
    (rest : List UInt8) :
    eventsReader (eventsBytes events ++ rest)
      = (if ∀ event ∈ events, event.Fits documentDepth then some events else none).map
        fun es => (es, rest) := by
  have hread := bracketed_joined 0x5B rfl (.inl rfl) events
    (fun event _ => Event.begins_renderAs eventNaming event)
    (fun event hevent rest _ =>
      Event.reader_renderAs documentDepth eventNaming_distinct (h event hevent) rest) rest
  rw [eventsBytes, List.cons_append, List.append_assoc, eventsReader, array, List.singleton_append,
    hread, mapM_fits]

theorem ofMembers_parts (events : List Event) (plugin pipeline : String) :
    ofMembers [.events events, .plugin plugin, .pipeline pipeline]
      = some ⟨events, plugin, pipeline⟩ :=
  rfl

/-- The payload of records is read as the batch of the records, if none of them nests too deep. -/
theorem decode?_encode {records : List Record} (h : ∀ record ∈ records, record.Canonical)
    (pipeline plugin : String) :
    decode? (encode records pipeline plugin)
      = if ∀ record ∈ records, record.event.Fits documentDepth
          then some (ofRecords records pipeline plugin) else none := by
  have hcanonical : ∀ event ∈ records.map Record.event, event.Canonical :=
    List.forall_mem_map.mpr h
  have hmembers := object_members member
    [(("events", eventsBytes (records.map Record.event)),
        (if ∀ event ∈ records.map Record.event, event.Fits documentDepth
          then some (.events (records.map Record.event)) else none)),
      (("destinationPluginId", bytes (quote plugin)), some (.plugin plugin)),
      (("destinationPipelineName", bytes (quote pipeline)), some (.pipeline pipeline))]
    (by
      simp only [List.forall_mem_cons]
      refine ⟨fun rest _ => ?_, fun rest _ => ?_, fun rest _ => ?_, by simp⟩
      · rw [member, if_pos rfl, Json.Reader.map, eventsReader_eventsBytes hcanonical]
        split_ifs <;> rfl
      · rw [member, if_neg (by simp), if_pos rfl, Json.Reader.map, text_quote]
        rfl
      · rw [member, if_neg (by simp), if_neg (by simp), if_pos rfl, Json.Reader.map, text_quote]
        rfl) []
  simp only [List.map_cons, List.map_nil] at hmembers
  rw [encode, decode?, whole, reader, bytes_render, skipBlanks_cons (b := 0x7B) rfl]
  simp only [if_neg (show (0x7B : UInt8) ≠ 0x5B by decide), ofRecords, hmembers,
    List.forall_mem_map]
  split_ifs <;>
    simp [ofMembers_parts, skipBlanks]

end Batch

end RecordRelay
