import SeriesStream.TimeSeries
import SeriesStream.Window

namespace SeriesStream

/-- What a backend is asked for: the series of these queries over one window. -/
structure FetchRequest where
  queries : List BaseQuery
  window : Window
  deriving DecidableEq, Repr

/-- Samples in memory, by query and tag set. -/
structure Store where
  series : OrderedMap BaseQuery (OrderedMap TagSet Samples)
  /-- The number of requests answered. -/
  fetches : Nat

namespace Store

def empty : Store := ⟨OrderedMap.empty, 0⟩

/-- The name a store gives itself. -/
def name : String := "memory"

/-- The series of one query, by tag set. -/
def seriesOf (s : Store) (query : BaseQuery) : OrderedMap TagSet Samples :=
  s.series.getD query OrderedMap.empty

/-- Writes the points and tells their number. Later points win over earlier ones with the same
timestamp, written now or before. A write without points still makes the series known. -/
def write (s : Store) (query : BaseQuery) (tags : TagSet) (points : List (Int × Float)) :
    Nat × Store :=
  let known := (s.seriesOf query).getD tags OrderedMap.empty
  let samples := points.foldl (fun m p => m.insert p.1 p.2) known
  (points.length, { s with series := s.series.insert query ((s.seriesOf query).insert tags samples) })

/-- The number of pairs of a query and a tag set ever written. -/
def seriesCount (s : Store) : Nat := (s.series.values.flatMap OrderedMap.entries).length

/-- The series of one query over a range, in the order of their tag sets. -/
def select (s : Store) (query : BaseQuery) (start stop : Int) : List TimeSeries :=
  (s.seriesOf query).entries.map fun e => ⟨e.1, e.2.restrict start stop⟩

/-- One entry per requested query, empty for a query never written. -/
def answer (s : Store) (r : FetchRequest) : RawData :=
  OrderedMap.ofList (r.queries.map fun q => (q, s.select q r.window.start r.window.stop))

def fetch (s : Store) (r : FetchRequest) : RawData × Store :=
  (s.answer r, { s with fetches := s.fetches + 1 })

end Store

end SeriesStream
