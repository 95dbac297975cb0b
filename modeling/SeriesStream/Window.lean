import SeriesStream.Grid
import SeriesStream.QueryError

namespace SeriesStream

/-- A half-open range of instants, evaluated at the multiples of `step` in it. -/
structure Window where
  start : Int
  stop : Int
  step : Int
  deriving DecidableEq, Repr

namespace Window

def duration (w : Window) : Except Fault Int :=
  match Instant.shown? (w.stop - w.start) with
  | some d => .ok d
  | none => .error .overflow

def contains (w : Window) (t : Int) : Bool := decide (w.start ≤ t ∧ t < w.stop)

def grid (w : Window) : Except Fault Grid := stepGrid w.start w.stop w.step

/-- The window's bounds as messages show them. -/
def render (w : Window) : String := s!"[{w.start}, {w.stop})"

end Window

/-- Why a requested range cannot be cut into windows. -/
inductive RangeError
  | startAfterEnd (start stop : Int)
  | stepNotPositive (step : Int)
  | noStepsPerWindow
  | windowTooLong
  | notAlignable (start stop step : Int)
  deriving DecidableEq, Repr

namespace RangeError

def kind : RangeError → QueryErrorKind
  | startAfterEnd _ _ => .invalidRange
  | _ => .validation

def message : RangeError → String
  | startAfterEnd start stop => s!"start {start} is after end {stop}"
  | stepNotPositive step => s!"step must be positive, got {step}"
  | noStepsPerWindow => "chunk multiplier must be positive"
  | windowTooLong => "window span overflows"
  | notAlignable start stop step => s!"range [{start}, {stop}] cannot be aligned to step {step}"

def toQueryError (e : RangeError) : QueryError := ⟨e.kind, e.message⟩

end RangeError

/-- Windows of `span` one after the other from `start` on, the last one cut off at `stop`. -/
def windowsBetween (start stop span step : Int) : List Window :=
  (List.range ((stop - start + span - 1) / span).toNat).map fun (i : Nat) =>
    ⟨start + i * span, min (start + (i + 1) * span) stop, step⟩

/-- Cuts the range from `start` to `stop` into windows of `multiplier` steps. Both bounds are first
rounded down to multiples of `step`; a range that this leaves empty is widened by one step at its
start. -/
def partition (step start stop : Int) (multiplier : Nat) : Except RangeError (List Window) :=
  let first := Instant.floor start step
  let last := Instant.floor stop step
  let opening := if first = last then first - step else first
  if stop < start then .error (.startAfterEnd start stop)
  else if step ≤ 0 then .error (.stepNotPositive step)
  else if multiplier = 0 then .error .noStepsPerWindow
  else if Instant.latest < step * multiplier then .error .windowTooLong
  else if first < Instant.earliest ∨ opening < Instant.earliest then
    .error (.notAlignable start stop step)
  else .ok (windowsBetween opening last (step * multiplier) step)

end SeriesStream
