import SeriesStream.Json.Datum
import SeriesStream.Wire

namespace SeriesStream

/-! How events are made into one text for the client, and how the client takes it apart again. -/

open Json (Datum)

def TagSet.datum (t : TagSet) : Datum := .map (t.entries.map fun e => (.text e.1, .text e.2))

def Samples.datum (s : Samples) : Datum := .map (s.entries.map fun e => (.integer e.1, .float e.2))

def Window.datum (w : Window) : Datum :=
  .record [("start", .integer w.start), ("end", .integer w.stop), ("step", .integer w.step)]

def WindowSeries.datum (s : WindowSeries) : Datum :=
  .record [("expression", .text s.expression), ("window", s.window.datum), ("tags", s.tags.datum),
    ("values", s.values.datum)]

namespace Text

/-- The pieces between the places where `sep` stands, read on after `skip` more characters of it. -/
def piecesAfter (sep : List Char) : Nat → List Char → List (List Char)
  | _, [] => [[]]
  | skip + 1, _ :: rest => piecesAfter sep skip rest
  | 0, c :: rest =>
    if sep.isPrefixOf (c :: rest) then [] :: piecesAfter sep (sep.length - 1) rest
    else (piecesAfter sep 0 rest).modifyHead (c :: ·)

/-- The pieces of a text between the places where `sep` stands, taken from the front. There is always one more
piece than there are such places. -/
def pieces (s sep : String) : List String := (piecesAfter sep.toList 0 s.toList).map String.ofList

/-- What stands behind `front`, if the text begins with it. -/
def behind? (front s : String) : Option String :=
  if front.toList.isPrefixOf s.toList then some (String.ofList (s.toList.drop front.toList.length)) else none

end Text

namespace StreamEvent

def datum : StreamEvent → Datum
  | info message => .record [("type", .text "info"), ("message", .text message)]
  | data results => .record [("type", .text "data"), ("results", .list (results.map WindowSeries.datum))]
  | error message => .record [("type", .text "error"), ("message", .text message)]
  | close => .record [("type", .text "close")]

/-- What is sent in place of an event that cannot be written. -/
def fallbackText : String := "\x7b\"type\":\"error\",\"message\":\"event serialization failed\"\x7d"

/-- The frame of an event, made from what the event consists of. -/
def sent (e : StreamEvent) : String :=
  framePrefix ++ (match e.datum.write with
    | .ok v => v.toText
    | .error _ => fallbackText) ++ frameSuffix

/-- The texts of the events that were sent one behind the other, if it was nothing but frames. -/
def unframed (body : String) : Option (List String) :=
  ((Text.pieces body frameSuffix).filter (· ≠ "")).mapM (Text.behind? framePrefix)

end StreamEvent

end SeriesStream
