import SeriesStream.Json.Value

namespace SeriesStream.Json

def isBlank (c : Char) : Bool := c = ' ' || c = '\n' || c = '\t' || c = '\r'

def skipBlank : List Glyph → List Glyph
  | some c :: rest => if isBlank c then skipBlank rest else some c :: rest
  | s => s

/-- The text behind `word`, if it starts with `word`. -/
def behind? : List Char → List Glyph → Option (List Glyph)
  | [], s => some s
  | c :: word, some d :: rest => if c = d then behind? word rest else none
  | _ :: _, _ => none

def hexDigit? (c : Char) : Option Nat :=
  if c.isDigit then some (c.toNat - 48)
  else if 'a' ≤ c ∧ c ≤ 'f' then some (c.toNat - 87)
  else if 'A' ≤ c ∧ c ≤ 'F' then some (c.toNat - 55)
  else none

/-- The number of four hexadecimal digits. -/
def hex4? (a b c d : Glyph) : Option Nat := do
  let a ← hexDigit? (← a)
  let b ← hexDigit? (← b)
  let c ← hexDigit? (← c)
  let d ← hexDigit? (← d)
  return ((a * 16 + b) * 16 + c) * 16 + d

def isHighSurrogate (n : Nat) : Bool := 0xD800 ≤ n ∧ n < 0xDC00

def isLowSurrogate (n : Nat) : Bool := 0xDC00 ≤ n ∧ n < 0xE000

/-- The character that a letter stands for behind a backslash. -/
def unescape? (c : Char) : Option Char :=
  match c with
  | '"' => some '"'
  | '\\' => some '\\'
  | '/' => some '/'
  | 'b' => some '\x08'
  | 'f' => some '\x0c'
  | 'n' => some '\n'
  | 'r' => some '\r'
  | 't' => some '\t'
  | _ => none

/-- A string behind its opening quote, up to its closing one. Two escapes that are the halves of one
character make that character; any other half is a part that no string can hold. -/
def scanQuoted : List Glyph → Option (Quoted × List Glyph)
  | some '"' :: rest => some (⟨[], true⟩, rest)
  | some '\\' :: some 'u' :: a :: b :: c :: d :: some '\\' :: some 'u' :: e :: f :: g :: h :: rest =>
    match hex4? a b c d, hex4? e f g h with
    | some high, some low =>
      if isHighSurrogate high ∧ isLowSurrogate low then
        (scanQuoted rest).map fun (q, rest) =>
          (⟨some (Char.ofNat (0x10000 + (high - 0xD800) * 0x400 + (low - 0xDC00))) :: q.content,
            false⟩, rest)
      else
        (scanQuoted (some '\\' :: some 'u' :: e :: f :: g :: h :: rest)).map fun (q, rest) =>
          (⟨(if high.isValidChar then some (Char.ofNat high) else none) :: q.content, false⟩, rest)
    | _, _ => none
  | some '\\' :: some 'u' :: a :: b :: c :: d :: rest =>
    match hex4? a b c d with
    | some n =>
      (scanQuoted rest).map fun (q, rest) =>
        (⟨(if n.isValidChar then some (Char.ofNat n) else none) :: q.content, false⟩, rest)
    | none => none
  | some '\\' :: some c :: rest =>
    match unescape? c with
    | some c => (scanQuoted rest).map fun (q, rest) => (⟨some c :: q.content, false⟩, rest)
    | none => none
  | some c :: rest =>
    if c = '\\' ∨ c.toNat < 0x20 then none
    else (scanQuoted rest).map fun (q, rest) => (⟨some c :: q.content, q.plain⟩, rest)
  | none :: rest => (scanQuoted rest).map fun (q, rest) => (⟨none :: q.content, q.plain⟩, rest)
  | [] => none

/-- A document, and the text behind it unless the document is broken. -/
abbrev Reading := Json × Option (List Glyph)

def readWord (word : String) (v : Json) (s : List Glyph) : Reading :=
  match behind? word.toList s with
  | some rest => (v, some rest)
  | none => (broken, none)

mutual

/-- Reads a document. Each call below another takes up some of the text first, so a fuel of twice
its length is enough. -/
def readValue : Nat → List Glyph → Reading
  | 0, _ => (broken, none)
  | fuel + 1, s =>
    match skipBlank s with
    | some '"' :: rest =>
      match scanQuoted rest with
      | some (q, rest) => (text q, some rest)
      | none => (broken, none)
    | some '[' :: rest =>
      match skipBlank rest with
      | some ']' :: rest => (array [], some rest)
      | rest =>
        let (items, rest) := readItems fuel rest
        (array items, rest)
    | some '\x7b' :: rest =>
      match skipBlank rest with
      | some '\x7d' :: rest => (object [], some rest)
      | rest =>
        let (members, rest) := readMembers fuel rest
        (object members, rest)
    | some 'n' :: rest => readWord "ull" null rest
    | some 't' :: rest => readWord "rue" (bool true) rest
    | some 'f' :: rest => readWord "alse" (bool false) rest
    | s =>
      match Numeral.scan s with
      | some (n, rest) => (number n, some rest)
      | none => (broken, none)

/-- Reads the items of an array behind its bracket or a comma. -/
def readItems : Nat → List Glyph → List Json × Option (List Glyph)
  | 0, _ => ([broken], none)
  | fuel + 1, s =>
    match readValue fuel s with
    | (item, none) => ([item], none)
    | (item, some rest) =>
      match skipBlank rest with
      | some ']' :: rest => ([item], some rest)
      | some ',' :: rest =>
        let (items, rest) := readItems fuel rest
        (item :: items, rest)
      | _ => ([item, broken], none)

/-- Reads the members of an object behind its brace or a comma. -/
def readMembers : Nat → List Glyph → List (Quoted × Json) × Option (List Glyph)
  | 0, _ => ([(⟨[none], false⟩, broken)], none)
  | fuel + 1, s =>
    match skipBlank s with
    | some '"' :: rest =>
      match scanQuoted rest with
      | none => ([(⟨[none], false⟩, broken)], none)
      | some (key, rest) =>
        match skipBlank rest with
        | some ':' :: rest =>
          match readValue fuel rest with
          | (value, none) => ([(key, value)], none)
          | (value, some rest) =>
            match skipBlank rest with
            | some '\x7d' :: rest => ([(key, value)], some rest)
            | some ',' :: rest =>
              let (members, rest) := readMembers fuel rest
              ((key, value) :: members, rest)
            | _ => ([(key, value), (⟨[none], false⟩, broken)], none)
        | _ => ([(key, broken)], none)
    | _ => ([(⟨[none], false⟩, broken)], none)

end

/-- Reads the document at the front of a text. -/
def read (s : List Glyph) : Reading := readValue (2 * s.length + 2) s

end SeriesStream.Json
