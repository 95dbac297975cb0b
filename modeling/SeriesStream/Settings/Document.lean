import SeriesStream.Failure
import SeriesStream.Json.Decoder
import SeriesStream.Toml.Decoder
import SeriesStream.Toml.Reader
import SeriesStream.Toml.Writer

namespace SeriesStream

/-! Settings as documents. A field that is missing has its standard value. -/

open Json (Decoder)
open Json.Decoder (Field)

namespace ServerSettings

def addressKey : String := "listen_addr"

def logLevelKey : String := "log_level"

def originsKey : String := "cors_allowed_origins"

def ofNode (v : Toml.Node) : Option ServerSettings := do
  let found ← v.fields? [addressKey, logLevelKey, originsKey]
  return ⟨← Toml.Node.field? found addressKey Toml.Node.text? standard.listenAddress,
    ← Toml.Node.field? found logLevelKey Toml.Node.text? standard.logLevel,
    ← Toml.Node.field? found originsKey Toml.Node.texts? standard.corsOrigins⟩

def toToml (s : ServerSettings) : List Char :=
  Toml.writeTable "server"
    [(addressKey, Toml.writeText s.listenAddress), (logLevelKey, Toml.writeText s.logLevel),
      (originsKey, Toml.writeTexts s.corsOrigins)]

def toJson (s : ServerSettings) : Json :=
  .ofFields [(addressKey, .ofString s.listenAddress), (logLevelKey, .ofString s.logLevel),
    (originsKey, .array (s.corsOrigins.map .ofString))]

def ofJson : Decoder ServerSettings := fun v => do
  let origins := Decoder.list Decoder.string
  let found ← Decoder.fields
    [.of addressKey Decoder.string, .of logLevelKey Decoder.string, .of originsKey origins] v
  return ⟨← Decoder.withDefault found addressKey Decoder.string standard.listenAddress,
    ← Decoder.withDefault found logLevelKey Decoder.string standard.logLevel,
    ← Decoder.withDefault found originsKey origins standard.corsOrigins⟩

end ServerSettings

namespace StreamingSettings

def heartbeatKey : String := "heartbeat_interval_ms"

def timeoutKey : String := "fetch_timeout_ms"

def multiplierKey : String := "chunk_multiplier"

def messageKey : String := "heartbeat_message"

def ofNode (v : Toml.Node) : Option StreamingSettings := do
  let wide (v : Toml.Node) : Option UInt64 := (v.natural? 64).map UInt64.ofNat
  let narrow (v : Toml.Node) : Option UInt32 := (v.natural? 32).map UInt32.ofNat
  let found ← v.fields? [heartbeatKey, timeoutKey, multiplierKey, messageKey]
  return ⟨← Toml.Node.field? found heartbeatKey wide standard.heartbeat,
    ← Toml.Node.field? found timeoutKey wide standard.timeout,
    ← Toml.Node.field? found multiplierKey narrow standard.multiplier,
    ← Toml.Node.field? found messageKey Toml.Node.text? standard.message⟩

def toToml? (s : StreamingSettings) : Option (List Char) := do
  return Toml.writeTable "streaming"
    [(heartbeatKey, ← Toml.writeNat? s.heartbeat.toNat),
      (timeoutKey, ← Toml.writeNat? s.timeout.toNat),
      (multiplierKey, ← Toml.writeNat? s.multiplier.toNat),
      (messageKey, Toml.writeText s.message)]

def toJson (s : StreamingSettings) : Json :=
  .ofFields [(heartbeatKey, .ofInt s.heartbeat.toNat), (timeoutKey, .ofInt s.timeout.toNat),
    (multiplierKey, .ofInt s.multiplier.toNat), (messageKey, .ofString s.message)]

def ofJson : Decoder StreamingSettings := fun v => do
  let wide : Decoder UInt64 := fun v => (Decoder.natural 64 v).map UInt64.ofNat
  let narrow : Decoder UInt32 := fun v => (Decoder.natural 32 v).map UInt32.ofNat
  let found ← Decoder.fields
    [.of heartbeatKey wide, .of timeoutKey wide, .of multiplierKey narrow,
      .of messageKey Decoder.string] v
  return ⟨← Decoder.withDefault found heartbeatKey wide standard.heartbeat,
    ← Decoder.withDefault found timeoutKey wide standard.timeout,
    ← Decoder.withDefault found multiplierKey narrow standard.multiplier,
    ← Decoder.withDefault found messageKey Decoder.string standard.message⟩

end StreamingSettings

namespace Settings

/-- Reads a TOML document. -/
def ofToml? (text : String) : Option Settings := do
  let root ← Toml.read text
  return ⟨← Toml.Node.field? root "server" ServerSettings.ofNode ServerSettings.standard,
    ← Toml.Node.field? root "streaming" StreamingSettings.ofNode StreamingSettings.standard⟩

def ofToml (text : String) : Except Failure Settings :=
  match ofToml? text with
  | some s => .ok s
  | none => .error (.settings (.malformed none))

/-- Writes a TOML document with every setting in it. -/
def toToml (s : Settings) : Except Failure String :=
  match s.streaming.toToml? with
  | some streaming => .ok (String.ofList (s.server.toToml ++ '\n' :: streaming))
  | none => .error .unwritable

def toJson (s : Settings) : Json :=
  .ofFields [("server", s.server.toJson), ("streaming", s.streaming.toJson)]

def ofJson : Decoder Settings := fun v => do
  let found ← Decoder.fields
    [.of "server" ServerSettings.ofJson, .of "streaming" StreamingSettings.ofJson] v
  return ⟨← Decoder.withDefault found "server" ServerSettings.ofJson ServerSettings.standard,
    ← Decoder.withDefault found "streaming" StreamingSettings.ofJson StreamingSettings.standard⟩

end Settings

end SeriesStream
