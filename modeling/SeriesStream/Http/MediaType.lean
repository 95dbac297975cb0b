namespace SeriesStream.Http

/-- A media type without its parameters. -/
structure MediaType where
  type : List Char
  subtype : List Char
  /-- What stands behind the last plus of the subtype. -/
  suffix : Option (List Char)
  deriving DecidableEq, Repr

namespace MediaType

def isToken (c : Char) : Bool :=
  c.isAlphanum || "!#$%&'*+-.^_|~".toList.contains c || c = '\x60'

/-- A character that may stand between quotes, the quote among them. -/
def isQuotable (c : Char) : Bool := 0x20 ≤ c.toNat && c.toNat < 0x7f

/-- A value in quotes, behind its first character: it ends at the next quote. -/
def quotedRest? : List Char → Option (List Char)
  | '"' :: rest => some rest
  | c :: rest => if isQuotable c then quotedRest? rest else none
  | [] => none

/-- The text behind the value of a parameter and its semicolon, empty at the end. A value in quotes
is not empty. -/
def value? (s : List Char) : Option (List Char) :=
  match s with
  | '"' :: c :: rest =>
    if ¬ isQuotable c then none
    else do
      match (← quotedRest? rest).dropWhile (· = ' ') with
      | [] => some []
      | ';' :: rest => some rest
      | _ => none
  | s =>
    match s.takeWhile isToken, s.dropWhile isToken with
    | _, [] => some []
    | _ :: _, ';' :: rest => some rest
    | _, _ => none

/-- Whether the text is a list of parameters; `limit` bounds their number. -/
def areParameters : Nat → List Char → Bool
  | 0, _ => false
  | limit + 1, s =>
    match s.dropWhile (· = ' ') with
    | [] => true
    | s =>
      match s.takeWhile isToken, s.dropWhile isToken with
      | _ :: _, '=' :: rest => (value? rest).any (areParameters limit)
      | _, _ => false

/-- Splits a subtype at its last plus, unless that comes first. -/
def splitSuffix (s : List Char) : List Char × Option (List Char) :=
  let suffix := (s.reverse.takeWhile (· ≠ '+')).reverse
  let front := (s.take (s.length - suffix.length)).dropLast
  if front.isEmpty then (s, none) else (front, some suffix)

/-- Reads a media type. Case does not matter in it. -/
def ofString? (s : String) : Option MediaType :=
  let s := s.toList.map Char.toLower
  match s.takeWhile isToken, s.dropWhile isToken with
  | type@(_ :: _), '/' :: rest =>
    match rest.takeWhile isToken, rest.dropWhile isToken with
    | [], _ => none
    | name, tail =>
      let (subtype, suffix) := splitSuffix name
      let fits := match tail with
        | [] => true
        | ';' :: parameters => areParameters (parameters.length + 1) parameters
        | _ => false
      if fits then some ⟨type, subtype, suffix⟩ else none
  | _, _ => none

/-- JSON itself, and every type of an application that is written in it. -/
def isJson (m : MediaType) : Bool :=
  m.type = "application".toList &&
    (m.subtype = "json".toList || m.suffix = some "json".toList)

end MediaType

end SeriesStream.Http
