import SeriesStream.Toml.Node

namespace SeriesStream.Toml.Node

/-! What a setting takes out of a value. -/

def text? : Node → Option String
  | string s => some s
  | _ => none

/-- A count of at most `bits` bits, written as an integer. -/
def natural? (bits : Nat) : Node → Option Nat
  | integer n => if 0 ≤ n ∧ n < Nat.pow 2 bits then some n.toNat else none
  | _ => none

/-- The items of an array. Tables under doubly bracketed headers are one. -/
def items? : Node → Option (List Node)
  | array items => some items
  | tables earlier last => some ((earlier ++ [last]).map (table .header))
  | _ => none

def texts? (v : Node) : Option (List String) := do (← v.items?).mapM text?

/-- The fields of a record, by name in a table or in order in an array. What has no name is left
aside. A moment is a table of its own kind, which has none of the fields. -/
def fields? (names : List String) : Node → Option Entries
  | table _ entries => some entries
  | moment => some []
  | v => v.items?.map names.zip

/-- The value of a field, or the one that stands in for it. -/
def field? {α : Type} (fields : Entries) (name : String) (decode : Node → Option α) (standard : α) :
    Option α :=
  match fields.lookup name with
  | some v => decode v
  | none => some standard

end SeriesStream.Toml.Node
