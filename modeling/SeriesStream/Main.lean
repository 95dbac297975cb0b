import Std.Http
import SeriesStream.Run

namespace SeriesStream

/-- The environment of this process, with the files that the command line makes it read. -/
def Environment.ofProcess (c : CommandLine) : IO Environment := do
  let vars ← names.filterMapM fun name => do
    return (← IO.getEnv name).map fun value => (name, value)
  let e : Environment := ⟨fun name => vars.lookup name, fun _ => none⟩
  let files ← (Run.paths e c).filterMapM fun (path : String) => do
    try return some (path, (← IO.FS.readBinFile path).data.toList) catch _ => return none
  return { e with file? := fun path => files.lookup path }

def SocketAddress.toNet (a : SocketAddress) : Std.Net.SocketAddress :=
  let service := UInt16.ofNat a.service
  match a.host with
  | .v4 octets => .v4 ⟨⟨Vector.ofFn fun i => UInt8.ofNat (octets.getD i 0)⟩, service⟩
  | .v6 groups _ => .v6 ⟨⟨Vector.ofFn fun i => UInt16.ofNat (groups.getD i 0)⟩, service⟩

namespace Http

def Request.ofIncoming (r : Std.Http.Request Std.Http.Body.Stream) (body : ByteArray) : Request where
  method := .ofString (toString r.line.method)
  target := toString r.line.uri
  headers := r.line.headers.toList.map fun h => (toString h.1, toString h.2)
  body := Glyph.ofBytes body.data.toList

/-- The status and the headers of an outgoing response. -/
def Response.toOutgoing (r : Response) : Std.Http.Response.Builder :=
  let status := (Std.Http.Status.ofCode none (UInt16.ofNat r.status)).getD .internalServerError
  r.headers.foldl (fun b h => (b.header? h.1 h.2).getD b) (Std.Http.Response.withStatus status)

/-- A server that all connections share. -/
structure Shared where
  server : Std.Mutex Server

instance : Std.Http.Server.Handler Shared where
  ResponseBody := Std.Http.Body.Full
  onRequest shared incoming := do
    let body : ByteArray ← incoming.body.readAll
    let now ← Std.Time.Timestamp.now
    let answer ← shared.server.atomically do
      let server ← get
      match server.handle now.toMillisecondsSinceUnixEpoch.toInt (.ofIncoming incoming body) with
      | .ok (response, server) =>
        set server
        return some response
      | .error _ => return none
    match answer with
    | some response => response.toOutgoing.fromBytes response.body.toUTF8
    | none => throw (.userError "the request could not be answered")

end Http

/-- Serves until the process is told to end. -/
def serve (address : SocketAddress) (server : Http.Server) : IO Unit :=
  Std.Async.Async.block do
    let shared : Http.Shared := ⟨← Std.Mutex.new server⟩
    let listening ← Std.Http.Server.serve address.toNet shared
    let interrupt ← Std.Async.Signal.Waiter.mk .sigint false
    let terminate ← Std.Async.Signal.Waiter.mk .sigterm false
    Std.Async.Selectable.one #[
      .case interrupt.selector fun _ => return (),
      .case terminate.selector fun _ => return ()]
    listening.shutdownAndWait

/-- Ends a run with its exit code. -/
def RunEnd.exit : RunEnd → IO UInt32
  | .done output => do
    IO.print output
    return 0
  | .misused => do
    IO.eprintln s!"error: the arguments were not understood\n\nFor more information, try '--help'."
    return 2
  | .failed f => do
    IO.eprintln s!"Error: {f.report}"
    return 1
  | .badAddress => do
    IO.eprintln "Error: AddrParseError(Socket)"
    return 1
  | .broken f => do
    IO.eprintln (f.message?.getD "the settings cannot be used")
    return 101
  | .serving address server => do
    try
      serve address server
      return 0
    catch e =>
      IO.eprintln s!"Error: {e}"
      return 1

end SeriesStream

open SeriesStream in
def main (args : List String) : IO UInt32 := do
  let commandLine := CommandLine.ofArguments args
  let run := Run.ofCommandLine (← Environment.ofProcess commandLine) commandLine
  for note in run.notes do IO.eprintln note
  run.final.exit
