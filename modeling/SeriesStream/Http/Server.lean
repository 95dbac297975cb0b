import SeriesStream.Http.Call
import SeriesStream.Http.Cors
import SeriesStream.Settings
import SeriesStream.Store

namespace SeriesStream

/-- The version that the program tells of itself. -/
def version : String := "0.1.0"

namespace Store

/-- A store answers at once and never refuses. -/
def toBackend (s : Store) : Backend := fun _ r => ⟨some 0, .data (s.answer r)⟩

end Store

namespace Http

/-- What answers requests: a store, and how it is to be read and by whom. -/
structure Server where
  store : Store
  options : StreamOptions
  cors : CorsPolicy

namespace Server

/-- A server under the settings, with nothing written yet. -/
def ofSettings (s : Settings) : Except Fault Server := do
  return ⟨Store.empty, s.streaming.options, ← CorsPolicy.ofOrigins s.server.corsOrigins⟩

def ofQueryError (e : QueryError) : Response :=
  .json (if e.kind.blamesRequest then 400 else 500)
    (.ofFields [("success", .bool false), ("kind", .ofString e.kind.label),
      ("error", .ofString e.render)])

def ofDecodeError : Json.DecodeError → Response
  | .malformed => .refusal 400 "The body is not JSON"
  | .misshapen => .refusal 422 "The body is not of the form asked for"

/-- The answer to a write, at the time `now`, and the store after it. -/
def answerWrite (s : Server) (now : Int) (w : WriteCall) : Response × Store :=
  match w.fault? with
  | some e =>
    (.json 400 (.ofFields [("success", .bool false), ("points_written", .ofInt 0),
      ("error", .ofString e.message)]), s.store)
  | none =>
    let points := w.points.map fun p => (p.timestamp.getD now, p.value)
    let (written, store) := s.store.write w.query w.tags points
    (.json 200 (.ofFields [("success", .bool true), ("points_written", .ofInt written)]), store)

/-- The answer to a query: a refusal, or all events of its execution. -/
def answerQuery (s : Server) (q : QueryCall) : Except Fault Response :=
  match q.toPlan with
  | .error e => .ok (ofQueryError e)
  | .ok plan => do
    match ← execute plan s.store.toBackend s.options (fun _ => .heartbeat) with
    | .error e => return ofQueryError e.toQueryError
    | .ok x =>
      let (events, _) ← x.drain
      return ⟨200, [("content-type", "text/event-stream"), ("cache-control", "no-cache")],
        String.join (events.map fun e => e.2.frame)⟩

/-- The answer to a call, and the store after it. -/
def answerCall (s : Server) (now : Int) : Call → Except Fault (Response × Store)
  | .health =>
    .ok (.json 200 (.ofFields [("status", .ofString "healthy"), ("version", .ofString version),
      ("series", .ofInt s.store.seriesCount)]), s.store)
  | .metrics =>
    let lines := Metrics.families.flatMap (·.announce)
    .ok (⟨200, [("content-type", "text/plain")], String.join (lines.map (· ++ "\n"))⟩, s.store)
  | .write w => .ok (s.answerWrite now w)
  | .query q => do return (← s.answerQuery q, s.store)
  | .foreign => .ok (.refusal 415 "The body has to be announced as JSON", s.store)
  | .unreadable e => .ok (ofDecodeError e, s.store)

/-- The answer to a request at the time `now`, and the server after it. Who asks before a call is
answered at once, whatever the path. -/
def handle (s : Server) (now : Int) (r : Request) : Except Fault (Response × Server) := do
  let cors := s.cors.originHeaders r
  match Endpoint.ofPath? r.path, r.method with
  | none, .options => return ((Response.empty 200).withHeaders (cors ++ CorsPolicy.askingHeaders), s)
  | none, _ => return ((Response.empty 404).withHeaders cors, s)
  | some endpoint, .options =>
    return ((Response.empty 200).withHeaders
      (cors ++ CorsPolicy.askingHeaders ++ [("allow", endpoint.allow)]), s)
  | some endpoint, method =>
    if endpoint.methods.contains method then
      let (response, store) ← s.answerCall now (endpoint.call r)
      let response := if method = .head then { response with body := "" } else response
      return (response.withHeaders cors, { s with store })
    else return ((Response.empty 405).withHeaders (cors ++ [("allow", endpoint.allow)]), s)

/-- Answers requests one after the other, each at its own time. -/
def handleAll (s : Server) : List (Int × Request) → Except Fault (List Response × Server)
  | [] => .ok ([], s)
  | (now, r) :: rest => do
    let (response, s) ← s.handle now r
    let (responses, s) ← s.handleAll rest
    return (response :: responses, s)

end Server

end Http

end SeriesStream
