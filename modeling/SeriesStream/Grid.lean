import SeriesStream.Fault
import SeriesStream.Instant

namespace SeriesStream

/-- Equally spaced instants before `stop`. An instant that no clock shows ends the grid. -/
structure Grid where
  next : Option Int
  stop : Int
  step : Int
  deriving DecidableEq, Repr

namespace Grid

def pop? (g : Grid) : Option (Int × Grid) :=
  match g.next with
  | none => none
  | some t =>
    if t < g.stop then some (t, { g with next := Instant.shown? (t + g.step) }) else none

/-- The first instants, at most `limit` of them. -/
def take : Nat → Grid → List Int
  | 0, _ => []
  | limit + 1, g =>
    match g.pop? with
    | none => []
    | some (t, g') => t :: take limit g'

/-- Enough steps to use up a grid that rises. -/
def bound (g : Grid) : Nat :=
  match g.next with
  | none => 0
  | some t => ((g.stop - t + g.step - 1) / g.step).toNat

/-- All instants of a grid that rises. -/
def toList (g : Grid) : List Int := g.take g.bound

/-- Whether `p` holds at the first `limit` instants, looking no further than the first where it
fails. -/
def allWithin (p : Int → Bool) : Nat → Grid → Bool
  | 0, _ => true
  | limit + 1, g =>
    match g.pop? with
    | none => true
    | some (t, g') => p t && allWithin p limit g'

/-- Whether `p` holds at every instant of a grid that rises. -/
def all (g : Grid) (p : Int → Bool) : Bool := allWithin p g.bound g

end Grid

/-- What is left of `t` above the multiple of `step` before it. -/
def remainder (t step : Int) : Except Fault Int :=
  if step = 0 ∨ (t = Instant.earliest ∧ step = -1) then .error (.remainder t step)
  else .ok (t % step)

/-- The greatest multiple of `step` at or before `t`, if a clock shows it. -/
def roundDown (t step : Int) : Except Fault (Option Int) := do
  let rest ← remainder t step
  return Instant.shown? (t - rest)

/-- The multiples of `step` from `start` on and before `stop`. -/
def stepGrid (start stop step : Int) : Except Fault Grid := do
  let rest ← remainder start step
  if rest = 0 then return ⟨some start, stop, step⟩
  match Instant.shown? (step - rest) with
  | none => throw .overflow
  | some gap => return ⟨Instant.shown? (start + gap), stop, step⟩

end SeriesStream
