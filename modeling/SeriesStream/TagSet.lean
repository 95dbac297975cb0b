import SeriesStream.OrderedMap

namespace SeriesStream

/-- The labels that tell one series of a query from another. -/
abbrev TagSet := OrderedMap String String

namespace TagSet

def ofPairs (pairs : List (String × String)) : TagSet := OrderedMap.ofList pairs

/-- The labels in key order, as in `{dc=east,host=a}`. -/
def render (t : TagSet) : String :=
  "\x7b" ++ String.intercalate "," (t.entries.map fun e => e.1 ++ "=" ++ e.2) ++ "\x7d"

end TagSet

end SeriesStream
