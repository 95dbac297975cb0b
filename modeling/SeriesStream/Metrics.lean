import SeriesStream.OrderedMap

namespace SeriesStream

/-- How often each label was counted. -/
abbrev Tally := OrderedMap String Nat

def Tally.count (t : Tally) (label : String) : Tally := t.insert label (t.getD label 0 + 1)

/-- What executions count about themselves. -/
structure Metrics where
  /-- Executions started and not yet finished. -/
  active : Int
  /-- Executions finished, by outcome. -/
  executions : Tally
  /-- Windows fetched from the backend. -/
  fetched : Nat
  /-- Fetches whose latency was observed. -/
  fetchObservations : Nat
  /-- Fetches that failed, by reason. -/
  failures : Tally
  /-- Events handed out, by kind. -/
  events : Tally
  /-- Series dropped because they held no number. -/
  filtered : Nat

namespace Metrics

def zero : Metrics :=
  ⟨0, OrderedMap.empty, 0, 0, OrderedMap.empty, OrderedMap.empty, 0⟩

def recordFetch (m : Metrics) : Metrics :=
  { m with fetched := m.fetched + 1, fetchObservations := m.fetchObservations + 1 }

def recordFailure (m : Metrics) (reason : String) : Metrics :=
  { m with failures := m.failures.count reason }

def recordEvent (m : Metrics) (kind : String) : Metrics :=
  { m with events := m.events.count kind }

def recordFiltered (m : Metrics) (series : Nat) : Metrics :=
  { m with filtered := m.filtered + series }

def executionStarted (m : Metrics) : Metrics := { m with active := m.active + 1 }

def executionFinished (m : Metrics) (outcome : String) : Metrics :=
  { m with active := m.active - 1, executions := m.executions.count outcome }

/-- A family of counters as an exposition announces it. -/
structure Family where
  name : String
  help : String
  type : String

/-- The families in the order of their names. -/
def families : List Family :=
  [⟨"stream_active_executions", "Number of executions currently streaming", "gauge"⟩,
   ⟨"stream_events_total", "Events written to clients by kind", "counter"⟩,
   ⟨"stream_executions_total", "Streaming executions by outcome", "counter"⟩,
   ⟨"stream_fetch_duration_seconds", "Backend fetch latency in seconds", "histogram"⟩,
   ⟨"stream_fetch_failures_total", "Backend fetch failures by reason", "counter"⟩,
   ⟨"stream_series_filtered_total", "Result series dropped because every step was NaN", "counter"⟩,
   ⟨"stream_windows_fetched_total", "Windows fetched from the backend", "counter"⟩]

def Family.announce (f : Family) : List String :=
  [s!"# HELP {f.name} {f.help}", s!"# TYPE {f.name} {f.type}"]

end Metrics

end SeriesStream
