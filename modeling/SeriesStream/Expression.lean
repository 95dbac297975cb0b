import SeriesStream.TimeSeries
import SeriesStream.Window

namespace SeriesStream

/-- What an expression leaves behind on one window for its next one. -/
inductive CarriedState
  | empty
  /-- A number per tag set. -/
  | totals (byTags : OrderedMap TagSet Float)
  /-- The state of any other kind of expression, coded as a number. -/
  | other (code : Nat)

namespace CarriedState

def isEmpty : CarriedState → Bool
  | empty => true
  | _ => false

/-- States are opaque: their text tells only whether there is one. -/
def render (s : CarriedState) : String :=
  if s.isEmpty then "CarriedState(empty)" else "CarriedState(..)"

/-- The numbers per tag set; a state of another kind counts as none. -/
def byTags : CarriedState → OrderedMap TagSet Float
  | totals m => m
  | _ => OrderedMap.empty

end CarriedState

structure Evaluation where
  series : List TimeSeries
  state : CarriedState

/-- A computation over the data of one window and the state left behind on the one before. -/
structure Expression where
  baseQueries : List BaseQuery
  evaluate : Window → RawData → CarriedState → Except Fault (Except QueryError Evaluation)

/-- The series of `query`, none if the backend did not answer it. -/
def RawData.seriesOf (d : RawData) (query : BaseQuery) : List TimeSeries := d.getD query []

/-- The functions an expression can apply to a query. -/
inductive Function
  | raw
  | runningSum
  | delta
  deriving DecidableEq, Repr

namespace Function

/-- Names are told apart without regard to ASCII case. -/
def ofName? (name : String) : Except QueryError Function :=
  match name.map Char.toLower with
  | "raw" => .ok raw
  | "running_sum" => .ok runningSum
  | "cumsum" => .ok runningSum
  | "delta" => .ok delta
  | other => .error ⟨.validation, s!"unknown function '{other}'"⟩

def name : Function → String
  | raw => "Raw"
  | runningSum => "RunningSum"
  | delta => "Delta"

end Function

/-- Adds up the numbers, with NaN as a gap. -/
def addUp (total : Float) (_ : Int) (v : Float) : Float × Option Float :=
  if v.isNaN then (total, none) else (total + v, some (total + v))

/-- Subtracts from each number the one before it, with NaN as a gap. -/
def subtractLast (last : Option Float) (_ : Int) (v : Float) : Option Float × Option Float :=
  if v.isNaN then (last, none) else (some v, last.map (v - ·))

/-- One series of a running sum, and the totals after it. -/
def runningSumOf (w : Window) (totals : OrderedMap TagSet Float) (s : TimeSeries) :
    Except Fault (OrderedMap TagSet Float × TimeSeries) := do
  let samples ← s.values.between w.start w.stop
  let (total, sums) := samples.scan addUp (totals.getD s.tags 0.0)
  return (totals.insert s.tags total, ⟨s.tags, sums⟩)

/-- One series of differences, and the last numbers after it. -/
def deltaOf (w : Window) (lastSeen : OrderedMap TagSet Float) (s : TimeSeries) :
    Except Fault (OrderedMap TagSet Float × TimeSeries) := do
  let samples ← s.values.between w.start w.stop
  match samples.scan subtractLast (lastSeen.get? s.tags) with
  | (none, differences) => return (lastSeen, ⟨s.tags, differences⟩)
  | (some last, differences) => return (lastSeen.insert s.tags last, ⟨s.tags, differences⟩)

/-- Threads a state through the series from left to right. -/
def throughSeries {σ : Type} (f : σ → TimeSeries → Except Fault (σ × TimeSeries)) :
    σ → List TimeSeries → Except Fault (σ × List TimeSeries)
  | state, [] => .ok (state, [])
  | state, s :: rest => do
    let (state', out) ← f state s
    let (state'', outs) ← throughSeries f state' rest
    return (state'', out :: outs)

/-- The expression that applies `f` to the series of `query`. -/
def Function.toExpression (f : Function) (query : BaseQuery) : Expression where
  baseQueries := [query]
  evaluate w d state :=
    let series := d.seriesOf query
    match f with
    | .raw => .ok (.ok ⟨series.map fun s => s.restrict w.start w.stop, .empty⟩)
    | .runningSum => do
      let (totals, sums) ← throughSeries (runningSumOf w) state.byTags series
      return .ok ⟨sums, .totals totals⟩
    | .delta => do
      let (lastSeen, differences) ← throughSeries (deltaOf w) state.byTags series
      return .ok ⟨differences, .totals lastSeen⟩

end SeriesStream
