import SeriesStream.Toml.Quoted

namespace SeriesStream.Toml

def writeText (s : String) : List Char := writeString s.toList

/-- The greatest integer that a document can hold is that of 64 bits with a sign. -/
def writeNat? (n : Nat) : Option (List Char) :=
  if (n : Int) ≤ integerHigh then some (Nat.toDigits 10 n) else none

/-- An array of strings, each on a line of its own if there are several. -/
def writeTexts : List String → List Char
  | [] => ['[', ']']
  | [s] => '[' :: writeText s ++ [']']
  | items =>
    '[' :: '\n' :: (items.flatMap fun s => "    ".toList ++ writeText s ++ [',', '\n']) ++ [']']

/-- A pair on a line of its own. -/
def writePair (key : String) (value : List Char) : List Char :=
  key.toList ++ [' ', '=', ' '] ++ value ++ ['\n']

/-- A header with the pairs of its table. -/
def writeTable (key : String) (pairs : List (String × List Char)) : List Char :=
  '[' :: key.toList ++ [']', '\n'] ++ pairs.flatMap fun p => writePair p.1 p.2

end SeriesStream.Toml
