import RecordRelay.Event

/-! A batch travels to another node as one JSON object: its events, and the plugin and the pipeline
they are for. The metadata of a record stays where the record is. The object, the list and each
event take one level of nesting each, which leaves the documents inside an event three levels less
than a document that stands alone. -/
namespace RecordRelay
open Json (Reader)

/-- The events of a batch with the pipeline and plugin they are for. -/
structure Batch where
  events : List Event
  plugin : String
  pipeline : String
  deriving Inhabited

namespace Batch

/-- The names of the parts of an event in a batch. -/
def eventNaming : Event.Naming := ⟨"eventType", "eventAttributes", "eventData"⟩

/-- The greatest depth of the documents inside an event of a batch. -/
def documentDepth : Nat := Json.depthLimit - 3

def ofRecords (records : List Record) (pipeline plugin : String) : Batch :=
  ⟨records.map Record.event, plugin, pipeline⟩

def records (batch : Batch) : List Record := batch.events.map Record.ofEvent

theorem length_records (batch : Batch) : batch.records.length = batch.events.length :=
  List.length_map _

/-- A batch carries its records without their metadata. -/
theorem records_ofRecords (records : List Record) (pipeline plugin : String) :
    (ofRecords records pipeline plugin).records = records.map Record.bare :=
  List.map_map

def render (batch : Batch) : String :=
  "\x7b" ++ Json.quote "events" ++ ":["
    ++ ",".intercalate (batch.events.map (Event.renderAs eventNaming)) ++ "],"
    ++ Json.quote "destinationPluginId" ++ ":" ++ Json.quote batch.plugin ++ ","
    ++ Json.quote "destinationPipelineName" ++ ":" ++ Json.quote batch.pipeline ++ "\x7d"

/-- The payload that carries records to a plugin of a pipeline. -/
def encode (records : List Record) (pipeline plugin : String) : List UInt8 :=
  Text.bytes (ofRecords records pipeline plugin).render

/-- One member of the object that writes a batch. -/
inductive Member where
  | events (value : List Event)
  | plugin (value : String)
  | pipeline (value : String)
  | unknown

namespace Member

def events? : Member → Option (List Event)
  | events value => some value
  | _ => none

def plugin? : Member → Option String
  | plugin value => some value
  | _ => none

def pipeline? : Member → Option String
  | pipeline value => some value
  | _ => none

end Member

def eventsReader : Reader (List Event) := Reader.array (Event.reader eventNaming documentDepth)

/-- Reads the member of a name; the value of an unknown name is skipped. -/
def member (name : String) : Reader Member :=
  if name = "events" then .map .events eventsReader
  else if name = "destinationPluginId" then .map .plugin Reader.text
  else if name = "destinationPipelineName" then .map .pipeline Reader.text
  else .map (fun _ => .unknown) Reader.skip

/-- The batch that members make: each part exactly once. -/
def ofMembers (members : List Member) : Option Batch :=
  match members.filterMap Member.events?, members.filterMap Member.plugin?,
    members.filterMap Member.pipeline? with
  | [events], [plugin], [pipeline] => some ⟨events, plugin, pipeline⟩
  | _, _, _ => none

/-- Reads a batch: an object, or an array of the three parts in order. -/
def reader : Reader Batch := fun bytes =>
  match Reader.skipBlanks bytes with
  | b :: _ =>
    if b = 0x5B then
      Reader.map (fun (events, plugin, pipeline) => ⟨events, plugin, pipeline⟩)
        (Reader.triple eventsReader Reader.text Reader.text) bytes
    else do
      let (members, rest) ← Reader.object member bytes
      let batch ← ofMembers members
      return (batch, rest)
  | [] => none

def decode? (payload : List UInt8) : Option Batch := Reader.whole reader payload

end Batch

end RecordRelay
