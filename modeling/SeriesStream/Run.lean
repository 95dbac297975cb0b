import SeriesStream.CommandLine
import SeriesStream.Http.Server
import SeriesStream.Settings.Environment
import SeriesStream.SocketAddress

namespace SeriesStream

/-- How a run comes to its end. -/
inductive RunEnd
  /-- Everything was done, and this was printed. -/
  | done (output : String)
  /-- The command line was not understood. -/
  | misused
  | failed (f : Failure)
  /-- The address to listen on is none. -/
  | badAddress
  | broken (f : Fault)
  /-- All is ready to listen. -/
  | serving (address : SocketAddress) (server : Http.Server)

/-- A run, with what it tells about the settings it found. -/
structure Run where
  notes : List String
  final : RunEnd

namespace Run

/-- The file whose settings are used if it is there. -/
def standardPath : String := "application.toml"

/-- The path of the file that is asked for, by option or by variable. -/
def path? (e : Environment) (o : OptionValues) : Option String :=
  o.config <|> e.var? "STREAM_CONFIG"

/-- The settings of a run: those of the file that is asked for, or else those of the standard file if
there is one, or else the standard ones. A standard file that cannot be used is passed over. -/
def chooseSettings (e : Environment) (path : Option String) :
    List String × Except Failure Settings :=
  match path with
  | some path =>
    match Settings.load e path with
    | .ok s => ([s!"[config] Loaded configuration from: {path}"], .ok s)
    | .error f => ([], .error f)
  | none =>
    if (e.file? standardPath).isNone then
      (["[config] Using default configuration"], Settings.ofEnvironment e)
    else
      match Settings.load e standardPath with
      | .ok s => ([s!"[config] Loaded configuration from {standardPath}"], .ok s)
      | .error f =>
        ([s!"[config] Failed to parse {standardPath}: {f.render}. Using defaults."],
          Settings.ofEnvironment e)

/-- The settings as they are shown to the one who had them checked. -/
def settingsReport (s : Settings) : List String :=
  ["Configuration is valid!", "", "Server Settings:",
    s!"  Listen address: {s.server.listenAddress}", s!"  Log level: {s.server.logLevel}", "",
    "Streaming Settings:", s!"  Heartbeat interval: {s.streaming.heartbeat} ms",
    s!"  Fetch timeout: {s.streaming.timeout} ms",
    s!"  Chunk multiplier: {s.streaming.multiplier} steps"]

def printed (lines : List String) : RunEnd := .done (String.join (lines.map (· ++ "\n")))

def checkSettings (e : Environment) (o : OptionValues) : Run :=
  let (notes, settings) := chooseSettings e (path? e o)
  ⟨notes, match settings with
    | .ok s => printed (settingsReport s)
    | .error f => .failed f⟩

/-- Starts the server as far as to the moment at which it would listen. -/
def start (e : Environment) (o : OptionValues) : Run :=
  let (notes, settings) := chooseSettings e (path? e o)
  ⟨notes, match settings with
    | .error f => .failed f
    | .ok s =>
      match Http.Server.ofSettings s with
      | .error fault => .broken fault
      | .ok server =>
        match SocketAddress.ofString? (o.listen.getD s.server.listenAddress) with
        | none => .badAddress
        | some address => .serving address server⟩

/-- The run that a command line asks for. -/
def ofCommandLine (e : Environment) : CommandLine → Run
  | .wrong => ⟨[], .misused⟩
  | .version => ⟨[], printed [s!"{CommandLine.programName} {version}"]⟩
  | .help topic => ⟨[], printed (CommandLine.helpLines topic)⟩
  | .run .checkSettings options => checkSettings e options
  | .run .start options => start e options

/-- The files that the run of a command line reads, if they are there. -/
def paths (e : Environment) : CommandLine → List String
  | .run _ options => [(path? e options).getD standardPath]
  | _ => []

end Run

end SeriesStream
