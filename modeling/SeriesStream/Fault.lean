namespace SeriesStream

/-- A call outside its contract. The run that makes it is broken off and answers nothing more. -/
inductive Fault
  /-- The remainder by this step does not exist or cannot be held. -/
  | remainder (instant step : Int)
  /-- The difference of two instants cannot be held. -/
  | overflow
  /-- Samples were asked for between bounds in the wrong order. -/
  | invertedRange (start stop : Int)
  /-- A series was checked for NaN over a window in the wrong order. -/
  | nanCheckRange (start stop : Int)
  /-- A series was checked for NaN on a grid without a positive step. -/
  | nanCheckStep (step : Int)
  /-- A heartbeat was asked for without any interval between beats. -/
  | idleHeartbeat
  /-- The origin that stands for all origins was listed among others. -/
  | wildcardOrigin
  deriving DecidableEq, Repr

/-- What the broken contract says of itself, for the contracts that say something. -/
def Fault.message? : Fault → Option String
  | .nanCheckRange start stop => some s!"NaN check called with start {start} after end {stop}"
  | .nanCheckStep step => some s!"NaN check called with non-positive step {step}"
  | _ => none

end SeriesStream
