import SeriesStream.Plan
import SeriesStream.Store

namespace SeriesStream

/-- Whether the series has no number at any multiple of `step` between the bounds. -/
def TimeSeries.isAllNaN (s : TimeSeries) (start stop step : Int) : Except Fault Bool := do
  if stop < start then throw (.nanCheckRange start stop)
  if step ≤ 0 then throw (.nanCheckStep step)
  let grid ← stepGrid start stop step
  return grid.all fun t => (s.valueAt? t).all Float.isNaN

/-- The samples of one window together with what the backend answered for it. -/
structure Chunk where
  window : Window
  data : RawData

/-- One result series with the expression and the window it belongs to. -/
structure WindowSeries where
  expression : String
  window : Window
  tags : TagSet
  values : Samples
  deriving BEq

/-- What all expressions together yield on one window. -/
structure WindowBatch where
  window : Window
  results : List WindowSeries

inductive EvaluatorPhase
  | idle
  | awaitingChunk
  | evaluating
  | done
  | failed
  deriving DecidableEq, Repr

namespace EvaluatorPhase

def isTerminal : EvaluatorPhase → Bool
  | done | failed => true
  | _ => false

def name : EvaluatorPhase → String
  | idle => "Idle"
  | awaitingChunk => "AwaitingChunk"
  | evaluating => "Evaluating"
  | done => "Done"
  | failed => "Failed"

end EvaluatorPhase

/-- Why the evaluator itself turns a window away. -/
inductive OrderError
  | terminal (phase : EvaluatorPhase)
  | outOfOrder (window : Window) (expected : Int)

def OrderError.toQueryError : OrderError → QueryError
  | .terminal phase => ⟨.internal, s!"evaluator is {phase.name}, cannot accept more windows"⟩
  | .outOfOrder w expected =>
    ⟨.internal, s!"window {w.render} out of order, expected start {expected}"⟩

/-- An expression of the plan with the state it carries. -/
structure Slot where
  planned : PlannedExpression
  state : CarriedState

/-- The expressions of one execution, with their states, between two windows. -/
structure Evaluator where
  slots : List Slot
  nextStart : Option Int
  phase : EvaluatorPhase
  /-- The number of windows that yielded a batch. -/
  evaluated : Nat
  /-- The number of series left out of those batches because they hold no number. -/
  filtered : Nat

/-- Keeps the series with a number on the window's grid and counts the others. -/
def keepInformative (w : Window) : List TimeSeries → Except Fault (List TimeSeries × Nat)
  | [] => .ok ([], 0)
  | s :: rest => do
    let blank ← s.isAllNaN w.start w.stop w.step
    let (kept, filtered) ← keepInformative w rest
    return if blank then (kept, filtered + 1) else (s :: kept, filtered)

/-- The slots after one window, with the results and the number of series left out unless an
expression failed. -/
structure SlotsRun where
  slots : List Slot
  outcome : Except QueryError (List WindowSeries × Nat)

/-- Evaluates the slots in order, up to the first that fails. That one loses its state and those
behind it are left alone. -/
def runSlots (c : Chunk) : List Slot → Except Fault SlotsRun
  | [] => .ok ⟨[], .ok ([], 0)⟩
  | slot :: rest => do
    match ← slot.planned.expression.evaluate c.window c.data slot.state with
    | .error e =>
      return ⟨{ slot with state := .empty } :: rest, .error (e.within slot.planned.name)⟩
    | .ok evaluation =>
      let (kept, filtered) ← keepInformative c.window evaluation.series
      let results := kept.map fun s => ⟨slot.planned.name, c.window, s.tags, s.values⟩
      let run ← runSlots c rest
      return ⟨{ slot with state := evaluation.state } :: run.slots,
        run.outcome.map fun (more, others) => (results ++ more, filtered + others)⟩

namespace Evaluator

def ofPlan (expressions : List PlannedExpression) : Evaluator :=
  ⟨expressions.map (⟨·, .empty⟩), none, .idle, 0, 0⟩

def awaitChunk (e : Evaluator) : Evaluator :=
  if e.phase.isTerminal then e else { e with phase := .awaitingChunk }

def finish (e : Evaluator) : Evaluator :=
  if e.phase.isTerminal then e else { e with phase := .done }

def fail (e : Evaluator) : Evaluator := { e with phase := .failed }

/-- Evaluates the next window. Windows come in contiguous order; every error is final. -/
def evaluate (e : Evaluator) (c : Chunk) :
    Except Fault (Except QueryError WindowBatch × Evaluator) :=
  if e.phase.isTerminal then
    .ok (.error (OrderError.terminal e.phase).toQueryError, e)
  else
    match e.nextStart.filter (· ≠ c.window.start) with
    | some expected =>
      .ok (.error (OrderError.outOfOrder c.window expected).toQueryError, e.fail)
    | none => do
      let run ← runSlots c e.slots
      match run.outcome with
      | .error failure => return (.error failure, { e with slots := run.slots, phase := .failed })
      | .ok (results, filtered) =>
        return (.ok ⟨c.window, results⟩,
          { slots := run.slots, nextStart := some c.window.stop, phase := .idle,
            evaluated := e.evaluated + 1, filtered := e.filtered + filtered })

end Evaluator

end SeriesStream
