import SeriesStream.Fault
import SeriesStream.TagSet

namespace SeriesStream

/-- Values by timestamp. -/
abbrev Samples := OrderedMap Int Float

/-- The samples of the half-open range from `start` to `stop`. -/
def Samples.restrict (s : Samples) (start stop : Int) : Samples :=
  s.filter fun t _ => decide (start ≤ t ∧ t < stop)

/-- The same samples for a reader that insists on bounds in order as soon as there is a sample. -/
def Samples.between (s : Samples) (start stop : Int) : Except Fault Samples :=
  if stop < start ∧ s.isEmpty = false then .error (.invertedRange start stop)
  else .ok (s.restrict start stop)

structure TimeSeries where
  tags : TagSet
  values : Samples
  deriving BEq

namespace TimeSeries

/-- Of points with the same timestamp the last one stays. -/
def ofPoints (tags : TagSet) (points : List (Int × Float)) : TimeSeries :=
  ⟨tags, OrderedMap.ofList points⟩

def insert (s : TimeSeries) (t : Int) (v : Float) : TimeSeries :=
  { s with values := s.values.insert t v }

def valueAt? (s : TimeSeries) (t : Int) : Option Float := s.values.get? t

def restrict (s : TimeSeries) (start stop : Int) : TimeSeries :=
  { s with values := s.values.restrict start stop }

end TimeSeries

/-- The text by which a backend knows a query. -/
abbrev BaseQuery := String

/-- What a backend answers for one window: the series of each query. -/
abbrev RawData := OrderedMap BaseQuery (List TimeSeries)

end SeriesStream
