import RecordRelay.Json.Printer
import RecordRelay.Json.Reader
import RecordRelay.Text.Split

/-! An event is a JSON document with a type and attributes. Its fields are addressed by paths whose
segments are separated by slashes or points; empty segments do not count, so `/trace/id`, `trace/id`
and `trace.id` name the same field. Only objects are entered. -/
namespace RecordRelay

namespace Json

/-- The document that a path of names leads to, if every step is a field of an object. -/
def follow : List String → Json → Option Json
  | [], document => some document
  | name :: rest, object fields => (Fields.get? name fields).bind (follow rest)
  | _ :: _, _ => none

/-- The document with the end of a path set to a value. Missing steps become objects, and so does
anything else that stands in the way. -/
def place (value : Json) : List String → Json → Json
  | [], _ => value
  | name :: rest, document =>
    let fields := document.fields?.getD []
    let child := (Fields.get? name fields).getD (object [])
    object (Fields.set name (place value rest child) fields)

end Json

structure Event where
  kind : String
  attributes : Json.Fields
  data : Json
  deriving Inhabited

namespace Event

def empty (kind : String) : Event := ⟨kind, [], .object []⟩

/-- An event with the given data; anything but an object becomes the field `message` of one. -/
def ofData (kind : String) (data : Json) : Event :=
  ⟨kind, [], if data.isObject then data else .object [("message", data)]⟩

/-- The characters between segments. -/
def isSeparator (c : Char) : Bool := c == '/' || c == '.'

/-- The segments of a path: the texts between separators that are not empty. -/
def segments (path : String) : List String :=
  (Text.split isSeparator path).filter (!·.isEmpty)

def get? (event : Event) (path : String) : Option Json := event.data.follow (segments path)

/-- The text of a field: a string as it is, any other document as JSON. Null counts as absent. -/
def textOf : Json → Option String
  | .null => none
  | .string value => some value
  | document => some document.render

def text? (event : Event) (path : String) : Option String := (event.get? path).bind textOf

/-- The event with the field at a path set. A path without segments names no field. -/
def put (event : Event) (path : String) (value : Json) : Event :=
  match segments path with
  | [] => event
  | names => { event with data := Json.place value names event.data }

def setAttribute (event : Event) (name : String) (value : Json) : Event :=
  { event with attributes := Json.Fields.set name value event.attributes }

def eraseAttribute (event : Event) (name : String) : Event :=
  { event with attributes := event.attributes.erase name }

/-- The names that a written form gives to the three parts of an event. -/
structure Naming where
  kind : String
  attributes : String
  data : String

def naming : Naming := ⟨"event_type", "attributes", "data"⟩

/-- An event as a JSON object, type first and data last. -/
def renderAs (naming : Naming) (event : Event) : String :=
  "\x7b" ++ Json.quote naming.kind ++ ":" ++ Json.quote event.kind
    ++ "," ++ Json.quote naming.attributes ++ ":" ++ (Json.object event.attributes).render
    ++ "," ++ Json.quote naming.data ++ ":" ++ event.data.render ++ "\x7d"

/-- One member of the object that writes an event. -/
inductive Member where
  | kind (value : String)
  | attributes (value : Json.Fields)
  | data (value : Json)
  | unknown

namespace Member

def kind? : Member → Option String
  | kind value => some value
  | _ => none

def attributes? : Member → Option Json.Fields
  | attributes value => some value
  | _ => none

def data? : Member → Option Json
  | data value => some value
  | _ => none

end Member

open Json (Reader)

/-- Reads the member of a name; the value of an unknown name is skipped. -/
def member (naming : Naming) (depth : Nat) (name : String) : Reader Member :=
  if name = naming.kind then .map .kind Reader.text
  else if name = naming.attributes then .map .attributes (Reader.fields depth)
  else if name = naming.data then .map .data (Reader.document depth)
  else .map (fun _ => .unknown) Reader.skip

/-- The event that members make: type and data exactly once, attributes at most once. -/
def ofMembers (members : List Member) : Option Event :=
  match members.filterMap Member.kind?, members.filterMap Member.attributes?,
    members.filterMap Member.data? with
  | [kind], [], [data] => some ⟨kind, [], data⟩
  | [kind], [attributes], [data] => some ⟨kind, attributes, data⟩
  | _, _, _ => none

/-- Reads an event, whose attributes and data may nest to the given depth. It is an object, or an
array of the three parts in order. -/
def reader (naming : Naming) (depth : Nat) : Reader Event := fun bytes =>
  match Reader.skipBlanks bytes with
  | b :: _ =>
    if b = 0x5B then
      Reader.map (fun (kind, attributes, data) => ⟨kind, attributes, data⟩)
        (Reader.triple Reader.text (Reader.fields depth) (Reader.document depth)) bytes
    else do
      let (members, rest) ← Reader.object (member naming depth) bytes
      let event ← ofMembers members
      return (event, rest)
  | [] => none

def render (event : Event) : String := event.renderAs naming

def ofText? (text : String) : Option Event :=
  Reader.whole (reader naming (Json.depthLimit - 1)) (Text.bytes text)

end Event

/-- An event on its way through a pipeline, with what the pipeline notes about its origin. -/
structure Record where
  event : Event
  metadata : List (String × String)
  deriving Inhabited

namespace Record

def ofEvent (event : Event) : Record := ⟨event, []⟩

/-- The record without its metadata, as it arrives at another node. -/
def bare (record : Record) : Record := ⟨record.event, []⟩

@[simp] theorem bare_event (record : Record) : record.bare.event = record.event := rfl

end Record

end RecordRelay
