import SeriesStream.Settings.Document
import SeriesStream.Text.Glyph

namespace SeriesStream

/-- What a run finds around it. -/
structure Environment where
  /-- The variables that hold text. -/
  var? : String → Option String
  /-- The bytes of the files that can be read. -/
  file? : String → Option (List UInt8)

namespace Environment

/-- The names of all variables that matter. -/
def names : List String :=
  ["STREAM_CONFIG", "STREAM_LISTEN_ADDR", "RUST_LOG", "STREAM_HEARTBEAT_MS",
    "STREAM_FETCH_TIMEOUT_MS", "STREAM_CHUNK_MULTIPLIER"]

/-- A count of at most `bits` bits in decimal digits, blanks around it aside. -/
def count? (bits : Nat) (raw : String) : Option Nat :=
  let digits : List Char := match Text.trim raw.toList with
    | '+' :: rest => rest
    | s => s
  let n := Json.Numeral.digitsValue digits
  if ¬ digits.isEmpty ∧ digits.all Char.isDigit ∧ n < Nat.pow 2 bits then some n else none

/-- The count in a variable, or `standard` if it is not set. -/
def count (e : Environment) (name : String) (bits : Nat) (standard : Nat) : Except Failure Nat :=
  match e.var? name with
  | none => .ok standard
  | some raw =>
    match count? bits raw with
    | some n => .ok n
    | none => .error (.settings (.unreadable name raw))

/-- The text of a file. -/
def text (e : Environment) (path : String) : Except Failure String :=
  match e.file? path with
  | none => .error (.file .missing)
  | some bytes =>
    match Glyph.text? (Glyph.ofBytes bytes) with
    | some s => .ok s
    | none => .error (.file .notText)

end Environment

namespace Settings

/-- Lets variables override settings. -/
def override (s : Settings) (e : Environment) : Except Failure Settings := do
  let heartbeat ← e.count "STREAM_HEARTBEAT_MS" 64 s.streaming.heartbeat.toNat
  let timeout ← e.count "STREAM_FETCH_TIMEOUT_MS" 64 s.streaming.timeout.toNat
  let multiplier ← e.count "STREAM_CHUNK_MULTIPLIER" 32 s.streaming.multiplier.toNat
  return {
    server := { s.server with
      listenAddress := (e.var? "STREAM_LISTEN_ADDR").getD s.server.listenAddress
      logLevel := (e.var? "RUST_LOG").getD s.server.logLevel }
    streaming := { s.streaming with
      heartbeat := UInt64.ofNat heartbeat
      timeout := UInt64.ofNat timeout
      multiplier := UInt32.ofNat multiplier } }

/-- The settings, if they keep all rules. -/
def validated (s : Settings) : Except Failure Settings :=
  match s.fault? with
  | none => .ok s
  | some e => .error (.settings e)

/-- The settings in a file, with the overrides of the variables. -/
def load (e : Environment) (path : String) : Except Failure Settings := do
  match ofToml? (← e.text path) with
  | none => throw (.settings (.malformed (some path)))
  | some s => (← s.override e).validated

/-- The standard settings with the overrides of the variables. -/
def ofEnvironment (e : Environment) : Except Failure Settings := do
  (← standard.override e).validated

end Settings

end SeriesStream
