import SeriesStream.Pipeline

namespace SeriesStream

/-- What a client of an execution is told. -/
inductive StreamEvent
  | info (message : String)
  | data (results : List WindowSeries)
  | error (message : String)
  | close
  deriving BEq

def StreamEvent.kind : StreamEvent → String
  | info _ => "info"
  | data _ => "data"
  | error _ => "error"
  | close => "close"

/-- Which of two things that are ready at once an execution turns to. -/
inductive Lead
  | heartbeat
  | batch
  deriving DecidableEq, Repr

structure StreamOptions where
  /-- Milliseconds from one heartbeat to the next. -/
  heartbeat : Nat
  /-- Milliseconds a backend has for each answer. -/
  timeout : Nat
  /-- Steps in a window. -/
  multiplier : Nat
  /-- The text of a heartbeat. -/
  message : String

def StreamOptions.standard : StreamOptions := ⟨10000, 30000, 60, "heartbeat"⟩

inductive StreamPhase
  | streaming
  | closing
  | finished
  deriving DecidableEq, Repr

inductive Outcome
  | completed
  | failed
  | cancelled
  deriving DecidableEq, Repr

def Outcome.label : Outcome → String
  | completed => "completed"
  | failed => "failed"
  | cancelled => QueryErrorKind.cancelled.label

/-- The events of one plan under way: the batches of a pipeline and the beats of a heart, ended by
one `close`. -/
structure Execution where
  pipeline : Pipeline
  options : StreamOptions
  /-- What goes first when the n-th choice is open. -/
  lead : Nat → Lead
  choices : Nat
  /-- When the next beat is due. -/
  nextBeat : Nat
  phase : StreamPhase
  failed : Bool
  /-- Events handed out, by kind. -/
  events : Tally
  /-- How the execution was counted, once it was. -/
  outcome : Option Outcome

/-- One turn of an execution. -/
inductive Turn
  | event (e : StreamEvent)
  /-- A window went by that has nothing to show. -/
  | silent
  | ended

namespace Execution

/-- Beats late by no more than this do not shift those that follow. -/
def tolerance : Nat := 5

def now (x : Execution) : Nat := x.pipeline.fetcher.now

def requests (x : Execution) : List FetchRequest := x.pipeline.fetcher.requests

def beatDue (x : Execution) : Bool := decide (x.nextBeat ≤ x.now)

/-- One beat. The next one is due an interval later: after the time at which this one was due, or
after the present if this one is late. -/
def beat (x : Execution) : Turn × Execution :=
  let base := if x.nextBeat + tolerance < x.now then x.now else x.nextBeat
  (.event (.info x.options.message), { x with nextBeat := base + x.options.heartbeat })

def react (x : Execution) : NextBatch → Turn × Execution
  | none => (.silent, { x with phase := .closing })
  | some (.error e) => (.event (.error e.render), { x with phase := .closing, failed := true })
  | some (.ok batch) =>
    if batch.results.isEmpty then (.silent, x) else (.event (.data batch.results), x)

/-- Nothing is ready: the time passes until the running fetch is over or a beat is due, and a beat
goes first when both fall together. -/
def await (x : Execution) : Except Fault (Turn × Execution) := do
  let fetcher := x.pipeline.fetcher.start
  let waiting (f : Fetcher) : Pipeline := { x.pipeline with fetcher := f }
  if fetcher.due?.any (· < x.nextBeat) then
    match ← (waiting fetcher.waitForTask).poll with
    | (.ready batch, pipeline) => return react { x with pipeline } batch
    | (.pending, pipeline) => return (.silent, { x with pipeline })
  else
    return beat { x with pipeline := waiting (fetcher.waitUntil x.nextBeat) }

/-- One turn: a beat or a batch, whichever comes first. -/
def turn (x : Execution) : Except Fault (Turn × Execution) :=
  match x.phase with
  | .finished => .ok (.ended, x)
  | .closing => .ok (.event .close, { x with phase := .finished })
  | .streaming => do
    let lead := x.lead x.choices
    let x := { x with choices := x.choices + 1 }
    if x.beatDue ∧ lead = .heartbeat then return x.beat
    match ← x.pipeline.poll with
    | (.ready batch, pipeline) => return react { x with pipeline } batch
    | (.pending, pipeline) =>
      let x := { x with pipeline }
      if x.beatDue then return x.beat
      x.await

/-- The outcome by which the execution is counted when it goes away. -/
def verdict (x : Execution) : Outcome :=
  match x.phase, x.failed with
  | .finished, false => .completed
  | .finished, true => .failed
  | _, _ => .cancelled

/-- The consumer goes away, or has seen the end. What is under way is called off, and the
execution is counted once. -/
def drop (x : Execution) : Execution :=
  { x with pipeline := x.pipeline.drop, outcome := some (x.outcome.getD x.verdict) }

/-- A bound on the windows still to come. -/
def windowsLeft (x : Execution) : Nat :=
  x.pipeline.fetcher.pending.length + x.pipeline.fetcher.inFlight.toList.length

/-- Takes turns until one has something to show, at most `turns` of them. -/
def pullWithin : Nat → Execution → Except Fault (Option StreamEvent × Execution)
  | 0, x => .ok (none, x)
  | turns + 1, x => do
    match ← x.turn with
    | (.event e, x) => return (some e, { x with events := x.events.count e.kind })
    | (.silent, x) => pullWithin turns x
    | (.ended, x) => return (none, x.drop)

/-- The next event, or nothing at the end. An execution that has been dropped has ended. -/
def pull (x : Execution) : Except Fault (Option StreamEvent × Execution) :=
  if x.outcome.isSome then .ok (none, x) else pullWithin (x.windowsLeft + 2) x

/-- The consumer does not pull for a while. -/
def sleep (x : Execution) (duration : Nat) : Execution :=
  { x with pipeline := x.pipeline.sleep duration }

/-- More pulls than an execution has events left: the windows, an error, the close, the end, and a
beat for each interval until the last deadline. -/
def pullBound (x : Execution) : Nat :=
  let timeLeft := (x.windowsLeft + 1) * x.options.timeout
  x.windowsLeft + 4 + (x.now + timeLeft) / x.options.heartbeat

/-- Pulls at most `pulls` times, up to the end. Each event comes with the time it was there. -/
def drainWithin : Nat → Execution → Except Fault (List (Nat × StreamEvent) × Execution)
  | 0, x => .ok ([], x)
  | pulls + 1, x => do
    match ← x.pull with
    | (none, x) => return ([], x)
    | (some e, x) =>
      let (rest, final) ← drainWithin pulls x
      return ((x.now, e) :: rest, final)

/-- Pulls without pause up to the end. -/
def drain (x : Execution) : Except Fault (List (Nat × StreamEvent) × Execution) :=
  drainWithin x.pullBound x

/-- What the execution has counted so far. -/
def metrics (x : Execution) : Metrics where
  active := if x.outcome.isNone then 1 else 0
  executions := (x.outcome.toList.map Outcome.label).foldl Tally.count OrderedMap.empty
  fetched := x.pipeline.fetcher.fetched
  fetchObservations := x.pipeline.fetcher.fetched
  failures := x.pipeline.fetcher.failures
  events := x.events
  filtered := x.pipeline.evaluator.filtered

end Execution

/-- Starts a plan against a backend. A range that cannot be cut into windows is told here; every
later failure is told inside the stream. -/
def execute (plan : Plan) (backend : Backend) (options : StreamOptions)
    (lead : Nat → Lead) : Except Fault (Except RangeError Execution) :=
  match partition plan.step plan.start plan.stop options.multiplier with
  | .error e => .ok (.error e)
  | .ok windows =>
    if options.heartbeat = 0 then .error .idleHeartbeat
    else
      .ok (.ok {
        pipeline := ⟨Fetcher.create backend plan.baseQueries windows options.timeout,
          Evaluator.ofPlan plan.expressions⟩
        options := options
        lead := lead
        choices := 0
        nextBeat := 0
        phase := .streaming
        failed := false
        events := OrderedMap.empty
        outcome := none })

end SeriesStream
