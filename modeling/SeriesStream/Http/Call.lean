import SeriesStream.Http.Message
import SeriesStream.Plan
import SeriesStream.Wire

namespace SeriesStream.Http

open Json (Decoder)
open Json.Decoder (Field)

/-- A point to write; without a timestamp it belongs to the time of the write. -/
structure WritePoint where
  timestamp : Option Int
  value : Float

/-- Points for one series of one query. -/
structure WriteCall where
  query : BaseQuery
  tags : TagSet
  points : List WritePoint

/-- An expression as a caller names it. -/
structure ExpressionCall where
  name : String
  function : String
  query : BaseQuery
  deriving DecidableEq, Repr

/-- A range to evaluate expressions over. -/
structure QueryCall where
  start : Int
  stop : Int
  step : Int
  expressions : List ExpressionCall
  deriving DecidableEq, Repr

def WritePoint.ofJson : Decoder WritePoint := fun v => do
  let timestamp := Decoder.optional Decoder.instant
  let found ← Decoder.fields [.of "timestamp" timestamp, .of "value" Decoder.float] v
  return ⟨← Decoder.withDefault found "timestamp" timestamp none,
    ← Decoder.required found "value" Decoder.float⟩

def WriteCall.ofJson : Decoder WriteCall := fun v => do
  let points := Decoder.list WritePoint.ofJson
  let found ← Decoder.fields
    [.of "query" Decoder.string, .of "tags" TagSet.ofJson, .of "points" points] v
  return ⟨← Decoder.required found "query" Decoder.string,
    ← Decoder.withDefault found "tags" TagSet.ofJson OrderedMap.empty,
    ← Decoder.required found "points" points⟩

/-- The function of an expression that names none. -/
def ExpressionCall.standardFunction : String := "raw"

def ExpressionCall.ofJson : Decoder ExpressionCall := fun v => do
  let found ← Decoder.fields
    [.of "name" Decoder.string, .of "function" Decoder.string, .of "query" Decoder.string] v
  return ⟨← Decoder.required found "name" Decoder.string,
    ← Decoder.withDefault found "function" Decoder.string standardFunction,
    ← Decoder.required found "query" Decoder.string⟩

def QueryCall.ofJson : Decoder QueryCall := fun v => do
  let expressions := Decoder.list ExpressionCall.ofJson
  let found ← Decoder.fields
    [.of "start" Decoder.instant, .of "end" Decoder.instant, .of "step" Decoder.instant,
      .of "expressions" expressions] v
  return ⟨← Decoder.required found "start" Decoder.instant,
    ← Decoder.required found "end" Decoder.instant,
    ← Decoder.required found "step" Decoder.instant,
    ← Decoder.required found "expressions" expressions⟩

/-- A text with nothing but blanks in it. -/
def isBlankText (s : String) : Bool := (Text.trim s.toList).isEmpty

/-- Why points are not written. -/
inductive WriteError
  | noPoints
  | blankQuery
  deriving DecidableEq, Repr

def WriteError.message : WriteError → String
  | noPoints => "No points provided"
  | blankQuery => "Query name cannot be empty"

def WriteCall.fault? (w : WriteCall) : Option WriteError :=
  if w.points.isEmpty then some .noPoints
  else if isBlankText w.query then some .blankQuery
  else none

/-- The plan's expression, if its function is known and its query is not blank. -/
def ExpressionCall.toPlanned (e : ExpressionCall) : Except QueryError PlannedExpression := do
  let function ← Function.ofName? e.function
  if isBlankText e.query then
    throw ⟨.validation, s!"expression '{e.name}' has an empty query"⟩
  return ⟨e.name, function.toExpression e.query⟩

/-- The plan of a call with at least one expression. -/
def QueryCall.toPlan (q : QueryCall) : Except QueryError Plan := do
  if q.expressions.isEmpty then
    throw ⟨.validation, "at least one expression is required"⟩
  return ⟨q.start, q.stop, q.step, ← q.expressions.mapM ExpressionCall.toPlanned⟩

/-- What a request asks for. -/
inductive Call
  | health
  | metrics
  | write (w : WriteCall)
  | query (q : QueryCall)
  /-- The body is not announced as JSON. -/
  | foreign
  /-- The body is no JSON, or none of the form that is asked for. -/
  | unreadable (e : Json.DecodeError)

/-- What is served, by its path. -/
inductive Endpoint
  | health
  | metrics
  | write
  | query
  deriving DecidableEq, Repr

namespace Endpoint

def ofPath? : String → Option Endpoint
  | "/health" => some health
  | "/metrics" => some metrics
  | "/api/v1/write" => some write
  | "/api/v1/query/stream" => some query
  | _ => none

/-- The methods an endpoint takes. What can be got can also be asked for without its body. -/
def methods : Endpoint → List Method
  | health | metrics => [.get, .head]
  | write | query => [.post]

/-- The methods as a header lists them. -/
def allow : Endpoint → String
  | health | metrics => "GET,HEAD"
  | write | query => "POST"

/-- The call that a request to the endpoint makes. -/
def call (e : Endpoint) (r : Request) : Call :=
  let ofBody {α : Type} (decode : Decoder α) (make : α → Call) : Call :=
    if ¬ r.isJson then .foreign
    else
      match Decoder.front decode r.body with
      | .ok a => make a
      | .error e => .unreadable e
  match e with
  | health => .health
  | metrics => .metrics
  | write => ofBody WriteCall.ofJson .write
  | query => ofBody QueryCall.ofJson .query

end Endpoint

end SeriesStream.Http
