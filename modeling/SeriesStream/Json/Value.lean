import SeriesStream.Json.Numeral

namespace SeriesStream

namespace Json

/-- A string as it stands between its quotes. A unit without a character stands for a part that no
string can hold. -/
structure Quoted where
  content : List Glyph
  /-- No escape was used to write it. -/
  plain : Bool
  deriving DecidableEq, Repr

end Json

/-- A JSON document as read. Where the text ends early or goes wrong, the document is `broken`
there and has nothing behind that place. -/
inductive Json
  | null
  | bool (b : Bool)
  | number (n : Json.Numeral)
  | text (s : Json.Quoted)
  | array (items : List Json)
  | object (members : List (Json.Quoted × Json))
  | broken

namespace Json

/-- The escape of a character that a string cannot hold as it is. -/
def escape? (c : Char) : Option (List Char) :=
  if c = '"' then some ['\\', '"']
  else if c = '\\' then some ['\\', '\\']
  else if c.toNat < 0x20 then
    match c.toNat with
    | 8 => some ['\\', 'b']
    | 9 => some ['\\', 't']
    | 10 => some ['\\', 'n']
    | 12 => some ['\\', 'f']
    | 13 => some ['\\', 'r']
    | n => some ['\\', 'u', '0', '0', Nat.digitChar (n / 16), Nat.digitChar (n % 16)]
  else none

namespace Quoted

def ofString (s : String) : Quoted :=
  ⟨s.toList.map some, s.toList.all fun c => (escape? c).isNone⟩

def string? (q : Quoted) : Option String := Glyph.text? q.content

def render (q : Quoted) : List Char :=
  '"' :: (q.content.flatMap fun g => g.elim [] fun c => (escape? c).getD [c]) ++ ['"']

end Quoted

def ofString (s : String) : Json := .text (Quoted.ofString s)

def ofInt (n : Int) : Json := .number (Numeral.ofInt n)

/-- Numbers that are not finite have no numeral. -/
def ofFloat (x : Float) : Json := if x.isFinite then .number (Numeral.ofFloat x) else .null

def ofFields (fields : List (String × Json)) : Json :=
  .object (fields.map fun f => (Quoted.ofString f.1, f.2))

mutual

def render : Json → List Char
  | null => "null".toList
  | bool true => "true".toList
  | bool false => "false".toList
  | number n => n.render
  | text s => s.render
  | array items => '[' :: renderItems items ++ [']']
  | object members => '\x7b' :: renderMembers members ++ ['\x7d']
  | broken => []

def renderItems : List Json → List Char
  | [] => []
  | [item] => item.render
  | item :: rest => item.render ++ ',' :: renderItems rest

def renderMembers : List (Quoted × Json) → List Char
  | [] => []
  | [(key, value)] => key.render ++ ':' :: value.render
  | (key, value) :: rest => key.render ++ ':' :: value.render ++ ',' :: renderMembers rest

end

/-- The document without any blanks. -/
def toText (v : Json) : String := String.ofList v.render

mutual

/-- Nothing is broken. What the strings and numbers stand for is left open. -/
def isWhole : Json → Bool
  | broken => false
  | array items => areWhole items
  | object members => areMembersWhole members
  | _ => true

def areWhole : List Json → Bool
  | [] => true
  | item :: rest => item.isWhole && areWhole rest

def areMembersWhole : List (Quoted × Json) → Bool
  | [] => true
  | (_, value) :: rest => value.isWhole && areMembersWhole rest

end

mutual

/-- Every string can be held, every number has a value, nothing is broken, and brackets are nested
no deeper than `depth`. -/
def isSound : Nat → Json → Bool
  | _, broken => false
  | _, number n => n.value?.isSome
  | _, text s => s.string?.isSome
  | 0, array _ => false
  | depth + 1, array items => areSound depth items
  | 0, object _ => false
  | depth + 1, object members => areMembersSound depth members
  | _, _ => true

def areSound : Nat → List Json → Bool
  | _, [] => true
  | depth, item :: rest => isSound depth item && areSound depth rest

def areMembersSound : Nat → List (Quoted × Json) → Bool
  | _, [] => true
  | depth, (key, value) :: rest =>
    key.string?.isSome && isSound depth value && areMembersSound depth rest

end

end Json

end SeriesStream
