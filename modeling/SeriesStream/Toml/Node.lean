namespace SeriesStream.Toml

/-- How a table came to be, which decides who may add to it. -/
inductive Origin
  /-- By a header of its own. -/
  | header
  /-- By the header of a table inside it. -/
  | passed
  /-- By a key with dots. -/
  | dotted
  /-- By braces. -/
  | braces
  deriving DecidableEq, Repr

/-- What a key stands for. -/
inductive Node
  | string (s : String)
  | integer (n : Int)
  | boolean (b : Bool)
  /-- Any number that is not written as an integer. -/
  | float
  /-- A date, a time of day, or both. -/
  | moment
  | array (items : List Node)
  | table (origin : Origin) (entries : List (String × Node))
  /-- Tables under one doubly bracketed header, at least one. -/
  | tables (earlier : List (List (String × Node))) (last : List (String × Node))

/-- The entries of a table, each key once. -/
abbrev Entries := List (String × Node)

namespace Entries

/-- Gives `key` another value, or adds it behind the others. -/
def put (key : String) (value : Node) : Entries → Entries
  | [] => [(key, value)]
  | (k, v) :: rest => if k = key then (k, value) :: rest else (k, v) :: put key value rest

/-- Adds a value under a key whose dots lead through tables. Such a key makes tables of its own and
goes on in them, and it goes through other tables only to get to one of its own. -/
def assign (value : Node) : List String → Entries → Option Entries
  | [], _ => none
  | [key], t => if (t.lookup key).isSome then none else some (t ++ [(key, value)])
  | key :: next :: rest, t =>
    match t.lookup key with
    | none => do return t ++ [(key, .table .dotted (← assign value (next :: rest) []))]
    | some (.table .dotted sub) => do
      return t.put key (.table .dotted (← assign value (next :: rest) sub))
    | some (.table .passed sub) =>
      if rest.isEmpty then none
      else do return t.put key (.table .passed (← assign value (next :: rest) sub))
    | some (.tables earlier last) =>
      if rest.isEmpty then none
      else do return t.put key (.tables earlier (← assign value (next :: rest) last))
    | some _ => none

/-- Works on the table under `key`, made if it is missing. Of several tables it is the last one. -/
def enter (key : String) (f : Entries → Option Entries) (t : Entries) : Option Entries :=
  match t.lookup key with
  | none => do return t ++ [(key, .table .passed (← f []))]
  | some (.table .braces _) => none
  | some (.table origin sub) => do return t.put key (.table origin (← f sub))
  | some (.tables earlier last) => do return t.put key (.tables earlier (← f last))
  | some _ => none

/-- Works on the table at the end of a path. -/
def within (path : List String) (f : Entries → Option Entries) : Entries → Option Entries :=
  path.foldr enter f

/-- Opens the table of a header. Only one that was passed through so far can be there already. -/
def openTable (key : String) (t : Entries) : Option Entries :=
  match t.lookup key with
  | none => some (t ++ [(key, .table .header [])])
  | some (.table .passed sub) => some (t.put key (.table .header sub))
  | some _ => none

/-- Opens one more table under a doubly bracketed header. -/
def openNext (key : String) (t : Entries) : Option Entries :=
  match t.lookup key with
  | none => some (t ++ [(key, .tables [] [])])
  | some (.tables earlier last) => some (t.put key (.tables (earlier ++ [last]) []))
  | some _ => none

end Entries

/-- One statement of a document. -/
inductive Statement
  | header (parents : List String) (key : String)
  | nextHeader (parents : List String) (key : String)
  | pair (key : List String) (value : Node)

/-- A document as far as it is read, with the path of the table that pairs go to. -/
structure Draft where
  root : Entries
  path : List String

namespace Draft

def add (d : Draft) : Statement → Option Draft
  | .header parents key => do
    return ⟨← Entries.within parents (Entries.openTable key) d.root, parents ++ [key]⟩
  | .nextHeader parents key => do
    return ⟨← Entries.within parents (Entries.openNext key) d.root, parents ++ [key]⟩
  | .pair key value => do
    return { d with root := ← Entries.within d.path (Entries.assign value key) d.root }

/-- The table that the statements describe, unless one goes against another. -/
def assemble (statements : List Statement) : Option Entries := do
  return (← statements.foldlM add ⟨[], []⟩).root

end Draft

end SeriesStream.Toml
