import SeriesStream.Decimal.Shortest

namespace SeriesStream.Toml

/-! Numbers, dates and times. Each reader tells the text behind what it has read. -/

/-- The text behind `c`. -/
def behind? (c : Char) : List Char → Option (List Char)
  | d :: rest => if d = c then some rest else none
  | [] => none

def isBinaryDigit (c : Char) : Bool := c = '0' || c = '1'

def isOctalDigit (c : Char) : Bool := '0' ≤ c && c ≤ '7'

def isHexDigit (c : Char) : Bool :=
  c.isDigit || ('a' ≤ c && c ≤ 'f') || ('A' ≤ c && c ≤ 'F')

def digitValue (c : Char) : Nat :=
  if c.isDigit then c.toNat - 48 else if 'a' ≤ c then c.toNat - 87 else c.toNat - 55

/-- The number that digits of a base write. -/
def digitsValue (base : Nat) (digits : List Char) : Nat :=
  digits.foldl (fun n c => n * base + digitValue c) 0

/-- Digits that follow another digit, with single underscores in front of some. -/
def moreDigits (isDigit : Char → Bool) : List Char → List Char × List Char
  | '_' :: c :: rest =>
    if isDigit c then
      let (more, rest) := moreDigits isDigit rest
      (c :: more, rest)
    else ([], '_' :: c :: rest)
  | c :: rest =>
    if isDigit c then
      let (more, rest) := moreDigits isDigit rest
      (c :: more, rest)
    else ([], c :: rest)
  | [] => ([], [])

/-- Digits with single underscores between them. -/
def digits? (isDigit : Char → Bool) : List Char → Option (List Char × List Char)
  | c :: rest =>
    if isDigit c then
      let (more, rest) := moreDigits isDigit rest
      some (c :: more, rest)
    else none
  | [] => none

/-- Decimal digits without a zero in front of others. -/
def wholeDigits? : List Char → Option (List Char × List Char)
  | '0' :: rest => some (['0'], rest)
  | s => digits? Char.isDigit s

/-- Whether a minus is in front, and the text behind the sign. -/
def sign : List Char → Bool × List Char
  | '-' :: rest => (true, rest)
  | '+' :: rest => (false, rest)
  | s => (false, s)

/-- The integers that 64 bits hold. -/
def integerLow : Int := -9223372036854775808

def integerHigh : Int := 9223372036854775807

def inBounds? (n : Int) : Option Int := if integerLow ≤ n ∧ n ≤ integerHigh then some n else none

/-- An integer: decimal with a sign or without, or of another base without one. -/
def integer? (s : List Char) : Option (Int × List Char) :=
  let ofBase (base : Nat) (isDigit : Char → Bool) (s : List Char) : Option (Int × List Char) := do
    let (digits, rest) ← digits? isDigit s
    return (← inBounds? (digitsValue base digits), rest)
  match s with
  | '0' :: 'x' :: rest => ofBase 16 isHexDigit rest
  | '0' :: 'o' :: rest => ofBase 8 isOctalDigit rest
  | '0' :: 'b' :: rest => ofBase 2 isBinaryDigit rest
  | _ => do
    let (negative, s) := sign s
    let (digits, rest) ← wholeDigits? s
    let size : Int := digitsValue 10 digits
    return (← inBounds? (if negative then -size else size), rest)

/-- Numbers from here on are nearer to the power of two above all doubles, or as near. -/
def doubleLimit : Nat := Nat.pow 2 1024 - Nat.pow 2 970

/-- Whether a number passes every double. Only one whose size its digits leave open is worked out. -/
def passesDoubles (d : Decimal) : Bool :=
  let places : Int := (Nat.toDigits 10 d.digits).length + d.exponent
  if d.digits = 0 ∨ places < 300 then false
  else if 400 < places then true
  else if 0 ≤ d.exponent then doubleLimit ≤ d.digits * Nat.pow 10 d.exponent.toNat
  else doubleLimit * Nat.pow 10 (-d.exponent).toNat ≤ d.digits

/-- The exponent of a float, and the text behind it. -/
def exponent? : List Char → Option (Int × List Char)
  | c :: s =>
    if c = 'e' ∨ c = 'E' then do
      let (negative, s) := sign s
      let (digits, rest) ← digits? Char.isDigit s
      let size : Int := digitsValue 10 digits
      return (if negative then -size else size, rest)
    else none
  | [] => none

/-- A float in digits: with a point, an exponent, or both. One that passes every double is refused
unless it is negative. -/
def decimalFloat? (s : List Char) : Option (List Char) := do
  let (negative, s) := sign s
  let (whole, rest) ← wholeDigits? s
  let (d, rest) ← match exponent? rest with
    | some (e, rest) => some ((⟨digitsValue 10 whole, e⟩ : Decimal), rest)
    | none => do
      let (fraction, rest) ← digits? Char.isDigit (← behind? '.' rest)
      let (e, rest) := (exponent? rest).getD (0, rest)
      some (⟨digitsValue 10 (whole ++ fraction), e - fraction.length⟩, rest)
  if ¬ negative ∧ passesDoubles d then none else some rest

/-- An infinity or NaN, with a sign or without. -/
def wordFloat? (s : List Char) : Option (List Char) :=
  match (sign s).2 with
  | 'i' :: 'n' :: 'f' :: rest => some rest
  | 'n' :: 'a' :: 'n' :: rest => some rest
  | _ => none

/-- The number of two digits, if it lies between the bounds. -/
def twoDigits? (low high : Nat) : List Char → Option (Nat × List Char)
  | a :: b :: rest =>
    let n := digitsValue 10 [a, b]
    if a.isDigit ∧ b.isDigit ∧ low ≤ n ∧ n ≤ high then some (n, rest) else none
  | _ => none

def isLeapYear (year : Nat) : Bool :=
  year % 4 = 0 && (year % 100 ≠ 0 || year % 400 = 0)

def daysIn (year month : Nat) : Nat :=
  if month = 2 then if isLeapYear year then 29 else 28
  else if month = 4 ∨ month = 6 ∨ month = 9 ∨ month = 11 then 30
  else 31

def date? : List Char → Option (List Char)
  | a :: b :: c :: d :: '-' :: s => do
    if ¬ [a, b, c, d].all Char.isDigit then none
    let (month, s) ← twoDigits? 1 12 s
    let (day, s) ← twoDigits? 1 31 (← behind? '-' s)
    if day ≤ daysIn (digitsValue 10 [a, b, c, d]) month then some s else none
  | _ => none

/-- A time of day to the second or finer. A minute may have a leap second. -/
def time? (s : List Char) : Option (List Char) := do
  let (_, s) ← twoDigits? 0 23 s
  let (_, s) ← twoDigits? 0 59 (← behind? ':' s)
  let (_, s) ← twoDigits? 0 60 (← behind? ':' s)
  match s with
  | '.' :: c :: rest => some (if c.isDigit then rest.dropWhile Char.isDigit else s)
  | _ => some s

/-- The text behind a distance from universal time, if there is one. -/
def skipOffset (s : List Char) : List Char :=
  match s with
  | 'Z' :: rest => rest
  | 'z' :: rest => rest
  | c :: rest =>
    let offset? : Option (List Char) := do
      if c ≠ '+' ∧ c ≠ '-' then none
      let (_, s) ← twoDigits? 0 23 rest
      let (_, s) ← twoDigits? 0 59 (← behind? ':' s)
      return s
    offset?.getD s
  | [] => s

/-- A date, a time, or a date with a time behind it. -/
def moment? (s : List Char) : Option (List Char) :=
  match date? s with
  | none => time? s
  | some rest =>
    match rest with
    | c :: tail =>
      if c = 'T' ∨ c = 't' ∨ c = ' ' then some ((time? tail).elim rest skipOffset)
      else some rest
    | [] => some rest

end SeriesStream.Toml
