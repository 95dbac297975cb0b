import SeriesStream.Toml.Node
import SeriesStream.Toml.Quoted

namespace SeriesStream.Toml

def skipBlank (s : List Char) : List Char := s.dropWhile isBlank

def skipComment : List Char → List Char
  | '#' :: rest => rest.dropWhile isPlain
  | s => s

/-- The text behind the end of the present line, on which nothing but a comment is left. -/
def lineEnd? (s : List Char) : Option (List Char) :=
  match skipComment (skipBlank s) with
  | [] => some []
  | s => newline? s

/-- Passes over blanks, comments and line ends; `steps` bounds the lines. -/
def skipLines : Nat → List Char → List Char
  | 0, s => s
  | steps + 1, s =>
    match newline? (skipComment (skipBlank s)) with
    | some rest => skipLines steps rest
    | none => skipBlank s

/-- Passes over blanks, comments and line ends. -/
def skipSpace (s : List Char) : List Char := skipLines (s.length + 1) s

def isBare (c : Char) : Bool := c.isAlphanum || c = '-' || c = '_'

/-- One part of a key, between dots. -/
def simpleKey? (s : List Char) : Option (List Char × List Char) :=
  match s with
  | '"' :: rest => scanBasic rest
  | '\'' :: rest => scanLiteral rest
  | _ =>
    match s.takeWhile isBare with
    | [] => none
    | key => some (key, s.dropWhile isBare)

/-- A key of at most `parts` parts, with the blanks around it. -/
def keyWithin : Nat → List Char → Option (List String × List Char)
  | 0, _ => none
  | parts + 1, s => do
    let (part, rest) ← simpleKey? (skipBlank s)
    match skipBlank rest with
    | '.' :: rest =>
      let (key, rest) ← keyWithin parts rest
      return (String.ofList part :: key, rest)
    | rest => return ([String.ofList part], rest)

/-- Parts of a key and brackets inside each other: there are never more than these. -/
def depthMax : Nat := 79

def key? (s : List Char) : Option (List String × List Char) := keyWithin depthMax s

/-- A number, date or time. -/
def readNumber (s : List Char) : Option (Node × List Char) :=
  match moment? s with
  | some rest => some (.moment, rest)
  | none =>
    match decimalFloat? s with
    | some rest => some (.float, rest)
    | none =>
      match wordFloat? s with
      | some rest => some (.float, rest)
      | none => (integer? s).map fun (n, rest) => (.integer n, rest)

mutual

/-- Reads a value with at most `depth` brackets inside each other. Each call below another takes up
some of the text first, so a fuel of twice its length is enough. -/
def readValue : Nat → Nat → List Char → Option (Node × List Char)
  | 0, _, _ => none
  | fuel + 1, depth, s =>
    match s with
    | '"' :: _ => (scanString s).map fun (x, rest) => (.string (String.ofList x), rest)
    | '\'' :: _ => (scanString s).map fun (x, rest) => (.string (String.ofList x), rest)
    | '[' :: rest =>
      match depth with
      | 0 => none
      | depth + 1 => (readItems fuel depth rest).map fun (items, rest) => (.array items, rest)
    | '\x7b' :: rest =>
      match depth with
      | 0 => none
      | depth + 1 =>
        match skipBlank rest with
        | '\x7d' :: rest => some (.table .braces [], rest)
        | rest => do
          let (pairs, rest) ← readPairs fuel depth rest
          let entries ← pairs.foldlM (fun t p => Entries.assign p.2 p.1 t) []
          return (.table .braces entries, rest)
    | 't' :: 'r' :: 'u' :: 'e' :: rest => some (.boolean true, rest)
    | 'f' :: 'a' :: 'l' :: 's' :: 'e' :: rest => some (.boolean false, rest)
    | _ => readNumber s

/-- Reads the items of an array behind its bracket or a comma. A comma may stand behind the last. -/
def readItems : Nat → Nat → List Char → Option (List Node × List Char)
  | 0, _, _ => none
  | fuel + 1, depth, s =>
    match skipSpace s with
    | ']' :: rest => some ([], rest)
    | s => do
      let (item, rest) ← readValue fuel depth s
      match skipSpace rest with
      | ']' :: rest => return ([item], rest)
      | ',' :: rest =>
        let (items, rest) ← readItems fuel depth rest
        return (item :: items, rest)
      | _ => none

/-- Reads the pairs of a table behind its brace or a comma. -/
def readPairs : Nat → Nat → List Char → Option (List (List String × Node) × List Char)
  | 0, _, _ => none
  | fuel + 1, depth, s => do
    let (key, rest) ← key? s
    let (value, rest) ← readValue fuel depth (skipBlank (← behind? '=' rest))
    match skipBlank rest with
    | '\x7d' :: rest => return ([(key, value)], rest)
    | ',' :: rest =>
      let (pairs, rest) ← readPairs fuel depth rest
      return ((key, value) :: pairs, rest)
    | _ => none

end

/-- The path of a header behind its brackets: the tables it leads through and the one it opens. -/
def path? (s : List Char) : Option (List String × String × List Char) := do
  let (key, rest) ← key? s
  return (key.dropLast, ← key.getLast?, rest)

/-- A statement that starts here, and the text behind its line. -/
def statement? (s : List Char) : Option (Statement × List Char) :=
  match s with
  | '[' :: '[' :: rest => do
    let (parents, key, rest) ← path? rest
    return (.nextHeader parents key, ← lineEnd? (← behind? ']' (← behind? ']' rest)))
  | '[' :: rest => do
    let (parents, key, rest) ← path? rest
    return (.header parents key, ← lineEnd? (← behind? ']' rest))
  | _ => do
    let (key, rest) ← key? s
    let s := skipBlank (← behind? '=' rest)
    let (value, rest) ← readValue (2 * s.length + 1) depthMax s
    return (.pair key value, ← lineEnd? rest)

/-- The statements of at most `lines` lines. -/
def readStatements : Nat → List Char → Option (List Statement)
  | 0, _ => none
  | lines + 1, s =>
    match skipSpace s with
    | [] => some []
    | '#' :: rest => if (rest.dropWhile isPlain).isEmpty then some [] else none
    | s => do
      let (first, rest) ← statement? s
      return first :: (← readStatements lines rest)

/-- The text without the mark that some writers put in front of it. -/
def skipMark : List Char → List Char
  | '\ufeff' :: rest => rest
  | s => s

/-- The table that a document describes, if it is one. -/
def read (text : String) : Option Entries := do
  let s := skipMark text.toList
  Draft.assemble (← readStatements (s.length + 1) s)

end SeriesStream.Toml
