import SeriesStream.Execution
import SeriesStream.Json.Decoder

namespace SeriesStream

/-! The JSON forms of what is stored, asked for and sent. -/

open Json (Decoder)
open Json.Decoder (Field)

namespace TagSet

def toJson (t : TagSet) : Json := .ofFields (t.entries.map fun e => (e.1, .ofString e.2))

def ofJson : Decoder TagSet := Decoder.map Decoder.stringKey Decoder.string

end TagSet

namespace Samples

def toJson (s : Samples) : Json :=
  .ofFields (s.entries.map fun e => (toString e.1, .ofFloat e.2))

def ofJson : Decoder Samples := Decoder.map Decoder.instantKey Decoder.float

/-- Behind a tag that may come last, timestamps are no longer told from other keys. -/
def ofBuffered : Decoder Samples :=
  Decoder.map (fun _ => .error .misshapen) Decoder.float

end Samples

namespace TimeSeries

def toJson (s : TimeSeries) : Json :=
  .ofFields [("tags", s.tags.toJson), ("values", s.values.toJson)]

def ofJson : Decoder TimeSeries := fun v => do
  let found ← Decoder.fields [.of "tags" TagSet.ofJson, .of "values" Samples.ofJson] v
  return ⟨← Decoder.required found "tags" TagSet.ofJson,
    ← Decoder.required found "values" Samples.ofJson⟩

end TimeSeries

namespace BaseQuery

def toJson (q : BaseQuery) : Json := .ofString q

def ofJson : Decoder BaseQuery := Decoder.string

end BaseQuery

namespace Window

def toJson (w : Window) : Json :=
  .ofFields [("start", .ofInt w.start), ("end", .ofInt w.stop), ("step", .ofInt w.step)]

def ofJson : Decoder Window := fun v => do
  let found ← Decoder.fields
    [.of "start" Decoder.instant, .of "end" Decoder.instant, .of "step" Decoder.instant] v
  return ⟨← Decoder.required found "start" Decoder.instant,
    ← Decoder.required found "end" Decoder.instant,
    ← Decoder.required found "step" Decoder.instant⟩

end Window

namespace WindowSeries

def toJson (s : WindowSeries) : Json :=
  .ofFields [("expression", .ofString s.expression), ("window", s.window.toJson),
    ("tags", s.tags.toJson), ("values", s.values.toJson)]

def ofJsonWith (samples : Decoder Samples) : Decoder WindowSeries := fun v => do
  let found ← Decoder.fields
    [.of "expression" Decoder.string, .of "window" Window.ofJson, .of "tags" TagSet.ofJson,
      .of "values" samples] v
  return ⟨← Decoder.required found "expression" Decoder.string,
    ← Decoder.required found "window" Window.ofJson,
    ← Decoder.required found "tags" TagSet.ofJson,
    ← Decoder.required found "values" samples⟩

def ofJson : Decoder WindowSeries := ofJsonWith Samples.ofJson

end WindowSeries

namespace FetchRequest

def toJson (r : FetchRequest) : Json :=
  .ofFields [("queries", .array (r.queries.map BaseQuery.toJson)), ("window", r.window.toJson)]

def ofJson : Decoder FetchRequest := fun v => do
  let found ← Decoder.fields
    [.of "queries" (Decoder.list BaseQuery.ofJson), .of "window" Window.ofJson] v
  return ⟨← Decoder.required found "queries" (Decoder.list BaseQuery.ofJson),
    ← Decoder.required found "window" Window.ofJson⟩

end FetchRequest

namespace StreamEvent

/-- The tag `type` comes first and tells what else there is. -/
def toJson : StreamEvent → Json
  | info message => .ofFields [("type", .ofString "info"), ("message", .ofString message)]
  | data results =>
    .ofFields [("type", .ofString "data"), ("results", .array (results.map WindowSeries.toJson))]
  | error message => .ofFields [("type", .ofString "error"), ("message", .ofString message)]
  | close => .ofFields [("type", .ofString "close")]

/-- Nesting that a reader of events puts up with. -/
def depthMax : Nat := 127

/-- Takes the tag out of an event: the only member of its name, or the first item. -/
def splitTag : Json → Option (Json × Json)
  | .array (tag :: items) => some (tag, .array items)
  | .object members =>
    match members.partition fun m => m.1.string? = some "type" with
    | ([(_, tag)], others) => some (tag, .object others)
    | _ => none
  | _ => none

/-- Reads an event whose tag may stand anywhere. All of it has to be sound. -/
def ofJson : Decoder StreamEvent := fun v => do
  let message (v : Json) : Except Json.DecodeError String := do
    let found ← Decoder.fields [.of "message" Decoder.string] v
    Decoder.required found "message" Decoder.string
  let results : Decoder (List WindowSeries) :=
    Decoder.list (WindowSeries.ofJsonWith Samples.ofBuffered)
  if ¬ v.isSound depthMax then throw .malformed
  match splitTag v with
  | none => throw .misshapen
  | some (tag, content) =>
    match ← Decoder.string tag with
    | "info" => return info (← message content)
    | "error" => return error (← message content)
    | "data" =>
      let found ← Decoder.fields [.of "results" results] content
      return data (← Decoder.required found "results" results)
    | "close" =>
      match content with
      | .array (_ :: _) => throw .misshapen
      | _ => return close
    | _ => throw .misshapen

/-- What stands before and behind each event in a stream. -/
def framePrefix : String := "data: "

def frameSuffix : String := "\n\n"

/-- The event as it is sent. -/
def frame (e : StreamEvent) : String := framePrefix ++ e.toJson.toText ++ frameSuffix

end StreamEvent

end SeriesStream
