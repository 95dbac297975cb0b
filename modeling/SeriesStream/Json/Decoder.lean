import SeriesStream.Instant
import SeriesStream.Json.Reader
import SeriesStream.OrderedMap

namespace SeriesStream.Json

/-- Why a document is not read as a value of some type. -/
inductive DecodeError
  /-- The text itself is no document. -/
  | malformed
  /-- The document is not of the form that the type asks for. -/
  | misshapen
  deriving DecidableEq, Repr

/-- Reads a value out of a document, in the order of its text, up to the first error. -/
abbrev Decoder (α : Type) := Json → Except DecodeError α

/-- A document of another form than the one asked for. A string or number is read before it is
found to be out of place. -/
def mismatch : Json → DecodeError
  | broken => .malformed
  | text q => if q.string?.isSome then .misshapen else .malformed
  | number n => if n.value?.isSome then .misshapen else .malformed
  | _ => .misshapen

namespace Decoder

def string : Decoder String
  | text q =>
    match q.string? with
    | some s => .ok s
    | none => .error .malformed
  | v => .error (mismatch v)

/-- An integer between the bounds, written as one. -/
def integer (low high : Int) : Decoder Int
  | number n =>
    match n.value? with
    | none => .error .malformed
    | some (.integer z) => if low ≤ z ∧ z ≤ high then .ok z else .error .misshapen
    | some (.float _) => .error .misshapen
  | v => .error (mismatch v)

def instant : Decoder Int := integer Instant.earliest Instant.latest

/-- A count of at most `bits` bits. -/
def natural (bits : Nat) : Decoder Nat := fun v => (integer 0 (Nat.pow 2 bits - 1 : Nat) v).map Int.toNat

/-- An integer counts as the float nearest to it. -/
def float : Decoder Float
  | number n =>
    match n.value? with
    | none => .error .malformed
    | some (.float x) => .ok x
    | some (.integer z) =>
      let size := (UInt64.ofNat z.natAbs).toFloat
      .ok (if z < 0 then -size else size)
  | v => .error (mismatch v)

def optional {α : Type} (d : Decoder α) : Decoder (Option α)
  | null => .ok none
  | v => (d v).map some

def list {α : Type} (d : Decoder α) : Decoder (List α)
  | array items => items.mapM d
  | v => .error (mismatch v)

/-- An object of any keys. Of members with one key the last one stays. -/
def map {κ α : Type} [Ord κ] [Std.TransOrd κ] [Std.LawfulEqOrd κ]
    (key : Quoted → Except DecodeError κ) (d : Decoder α) : Decoder (OrderedMap κ α)
  | object members => do
    return OrderedMap.ofList (← members.mapM fun (k, v) => do return (← key k, ← d v))
  | v => .error (mismatch v)

def stringKey (q : Quoted) : Except DecodeError String :=
  match q.string? with
  | some s => .ok s
  | none => .error .malformed

/-- An integer in quotes, spelled as it would be without them. -/
def instantKey (q : Quoted) : Except DecodeError Int :=
  match Numeral.scan q.content with
  | some (n, []) => if q.plain then instant (number n) else .error .malformed
  | _ => .error .malformed

/-- The field `name` with what it takes to be well formed. -/
structure Field where
  name : String
  check : Json → Except DecodeError Unit

def Field.of {α : Type} (name : String) (d : Decoder α) : Field := ⟨name, fun v => (d v).map fun _ => ()⟩

/-- Fields by position. No item may be left over. -/
def fieldsByPosition : List Field → List Json → Except DecodeError (List (String × Json))
  | _, [] => .ok []
  | [], _ :: _ => .error .malformed
  | field :: fields, item :: items => do
    field.check item
    return (field.name, item) :: (← fieldsByPosition fields items)

/-- Fields by name. A name that is not known is skipped, and one that comes twice is refused. -/
def fieldsByName (fields : List Field) (seen : List (String × Json)) :
    List (Quoted × Json) → Except DecodeError (List (String × Json))
  | [] => .ok seen
  | (key, value) :: rest => do
    let name ← stringKey key
    match fields.find? (·.name = name) with
    | none => if value.isWhole then fieldsByName fields seen rest else throw .malformed
    | some field =>
      if (seen.lookup name).isSome then throw .misshapen
      field.check value
      fieldsByName fields ((name, value) :: seen) rest

/-- The fields of a record, written as an object or as an array of its fields in order. -/
def fields (fields : List Field) : Decoder (List (String × Json))
  | array items => fieldsByPosition fields items
  | object members => fieldsByName fields [] members
  | v => .error (mismatch v)

def required {α : Type} (found : List (String × Json)) (name : String) (d : Decoder α) :
    Except DecodeError α :=
  match found.lookup name with
  | some v => d v
  | none => .error .misshapen

def withDefault {α : Type} (found : List (String × Json)) (name : String) (d : Decoder α)
    (default : α) : Except DecodeError α :=
  match found.lookup name with
  | some v => d v
  | none => .ok default

/-- The value that stands at the front of a text; what follows it is not looked at. -/
def front {α : Type} (d : Decoder α) (s : List Glyph) : Except DecodeError α := d (read s).1

/-- The value that a text consists of, blanks around it aside. -/
def whole {α : Type} (d : Decoder α) (s : List Glyph) : Except DecodeError α := do
  let (v, rest) := read s
  let value ← d v
  match rest.map skipBlank with
  | some [] => return value
  | _ => throw .malformed

end Decoder

end SeriesStream.Json
