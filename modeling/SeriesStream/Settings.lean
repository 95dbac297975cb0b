import SeriesStream.Execution
import SeriesStream.Text.Ranges

namespace SeriesStream

structure ServerSettings where
  /-- Host and service to listen on. -/
  listenAddress : String
  logLevel : String
  /-- Origins that browsers may call from, all of them if there is none. -/
  corsOrigins : List String
  deriving DecidableEq, Repr

def ServerSettings.standard : ServerSettings := ⟨"0.0.0.0:8086", "info", []⟩

structure StreamingSettings where
  /-- Milliseconds from one heartbeat to the next. -/
  heartbeat : UInt64
  /-- Milliseconds the backend has for each window. -/
  timeout : UInt64
  /-- Steps in a window. -/
  multiplier : UInt32
  /-- The text of a heartbeat. -/
  message : String
  deriving DecidableEq, Repr

def StreamingSettings.standard : StreamingSettings := ⟨10000, 30000, 60, "heartbeat"⟩

/-- The options of every execution under these settings. -/
def StreamingSettings.options (s : StreamingSettings) : StreamOptions :=
  ⟨s.heartbeat.toNat, s.timeout.toNat, s.multiplier.toNat, s.message⟩

structure Settings where
  server : ServerSettings
  streaming : StreamingSettings
  deriving DecidableEq, Repr

/-- Why settings are refused. -/
inductive SettingsError
  /-- The text is no document, or not one of settings; the file is named if it comes from one. -/
  | malformed (path : Option String)
  /-- A variable holds no number of its range. -/
  | unreadable (name raw : String)
  | blankAddress
  | outOfRange (field : String) (value low high : Nat)
  deriving DecidableEq, Repr

def SettingsError.message : SettingsError → String
  | .malformed none => "not a document of settings"
  | .malformed (some path) => s!"{path}: not a document of settings"
  | .unreadable name raw => s!"Invalid format for {name}: cannot parse '{raw}'"
  | .blankAddress => "listen_addr cannot be empty"
  | .outOfRange field value low high =>
    s!"{field} value {value} is out of range [{low}, {high}]"

namespace Settings

def standard : Settings := ⟨.standard, .standard⟩

/-- The greatest number of steps in a window. -/
def multiplierMax : Nat := 100000

/-- The first rule that the settings break. -/
def fault? (s : Settings) : Option SettingsError :=
  if (Text.trim s.server.listenAddress.toList).isEmpty then some .blankAddress
  else if s.streaming.heartbeat = 0 then
    some (.outOfRange "heartbeat_interval_ms" 0 1 (UInt64.size - 1))
  else if s.streaming.timeout = 0 then
    some (.outOfRange "fetch_timeout_ms" 0 1 (UInt64.size - 1))
  else if s.streaming.multiplier = 0 ∨ multiplierMax < s.streaming.multiplier.toNat then
    some (.outOfRange "chunk_multiplier" s.streaming.multiplier.toNat 1 multiplierMax)
  else none

end Settings

end SeriesStream
