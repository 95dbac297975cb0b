import SeriesStream.Json.Value

namespace SeriesStream.Json

/-- What a value consists of when it is written. The keys of a map are values themselves. -/
inductive Datum
  | integer (n : Int)
  | float (x : Float)
  | text (s : String)
  | list (items : List Datum)
  | record (fields : List (String × Datum))
  | map (entries : List (Datum × Datum))

/-- Why a value cannot stand as the key of a map. -/
inductive KeyError
  | notText
  | notFinite
  deriving DecidableEq, Repr

namespace Datum

/-- The text of a key. Numbers are put in quotes. -/
def key : Datum → Except KeyError String
  | integer n => .ok (toString n)
  | float x => if x.isFinite then .ok (String.ofList (Numeral.ofFloat x).render) else .error .notFinite
  | text s => .ok s
  | _ => .error .notText

mutual

/-- The document of a value. Only a key can be in its way. -/
def write : Datum → Except KeyError Json
  | integer n => .ok (ofInt n)
  | float x => .ok (ofFloat x)
  | text s => .ok (ofString s)
  | list items => do return array (← writeItems items)
  | record fields => do return ofFields (← writeFields fields)
  | map entries => do return ofFields (← writeEntries entries)

def writeItems : List Datum → Except KeyError (List Json)
  | [] => .ok []
  | item :: rest => do return (← item.write) :: (← writeItems rest)

def writeFields : List (String × Datum) → Except KeyError (List (String × Json))
  | [] => .ok []
  | (name, value) :: rest => do return (name, ← value.write) :: (← writeFields rest)

def writeEntries : List (Datum × Datum) → Except KeyError (List (String × Json))
  | [] => .ok []
  | (k, value) :: rest => do return (← k.key, ← value.write) :: (← writeEntries rest)

end

end Datum

end SeriesStream.Json
