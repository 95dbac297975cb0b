import SeriesStream.Decimal.Shortest
import SeriesStream.Text.Glyph

namespace SeriesStream.Json

/-- The text of a number, part by part. -/
structure Numeral where
  negative : Bool
  whole : List Char
  /-- The digits behind the point, none without a point. -/
  fraction : List Char
  /-- The sign of the exponent, as far as one is written, and its digits. -/
  exponent : Option (Option Bool × List Char)
  deriving DecidableEq, Repr

/-- What a numeral stands for. -/
inductive Number
  | integer (n : Int)
  | float (x : Float)

namespace Numeral

def digitsValue (digits : List Char) : Nat := digits.foldl (fun n c => n * 10 + (c.toNat - 48)) 0

def render (n : Numeral) : List Char :=
  (if n.negative then ['-'] else []) ++ n.whole ++
    (if n.fraction.isEmpty then [] else '.' :: n.fraction) ++
    match n.exponent with
    | none => []
    | some (sign, digits) =>
      'e' :: (match sign with
        | none => []
        | some true => ['-']
        | some false => ['+']) ++ digits

def ofInt (n : Int) : Numeral := ⟨n < 0, Nat.toDigits 10 n.natAbs, [], none⟩

/-- Places of the decimal point, counted from the front of the digits, for which a number is
written without an exponent. -/
def positionalLow : Int := -4

def positionalHigh : Int := 16

/-- The shortest digits that read back, with a point in every number without an exponent. -/
def ofFloat (x : Float) : Numeral :=
  let negative := Nat.pow 2 63 ≤ x.toBits.toNat
  let d := Decimal.ofFloat x
  let digits := Nat.toDigits 10 d.digits
  let count := digits.length
  let point : Int := count + d.exponent
  if d.digits = 0 then ⟨negative, ['0'], ['0'], none⟩
  else if positionalLow ≤ point ∧ point ≤ positionalHigh then
    if point ≤ 0 then
      ⟨negative, ['0'], List.replicate (-point).toNat '0' ++ digits, none⟩
    else if d.exponent < 0 then
      ⟨negative, digits.take point.toNat, digits.drop point.toNat, none⟩
    else ⟨negative, digits ++ List.replicate d.exponent.toNat '0', ['0'], none⟩
  else
    ⟨negative, digits.take 1, digits.drop 1,
      some (some (point - 1 < 0), Nat.toDigits 10 (point - 1).natAbs)⟩

/-- The leading digits, and what comes behind them. -/
def digits : List Glyph → List Char × List Glyph
  | some c :: rest =>
    if c.isDigit then
      let (more, rest) := digits rest
      (c :: more, rest)
    else ([], some c :: rest)
  | rest => ([], rest)

def scanExponent (n : Numeral) (s : List Glyph) : Option (Numeral × List Glyph) :=
  let (sign, s) : Option Bool × List Glyph :=
    match s with
    | some '-' :: rest => (some true, rest)
    | some '+' :: rest => (some false, rest)
    | _ => (none, s)
  match digits s with
  | ([], _) => none
  | (ds, rest) => some ({ n with exponent := some (sign, ds) }, rest)

def scanTail (n : Numeral) (s : List Glyph) : Option (Numeral × List Glyph) :=
  match s with
  | some 'e' :: rest => scanExponent n rest
  | some 'E' :: rest => scanExponent n rest
  | _ => some (n, s)

/-- A numeral at the front of a text: no zero in front of other digits, and digits on both sides
of a point and behind an `e`. -/
def scan (s : List Glyph) : Option (Numeral × List Glyph) :=
  let (negative, s) : Bool × List Glyph :=
    match s with
    | some '-' :: rest => (true, rest)
    | _ => (false, s)
  match digits s with
  | ([], _) => none
  | (whole, rest) =>
    if whole.head? = some '0' ∧ whole.length ≠ 1 then none
    else
      match rest with
      | some '.' :: rest =>
        match digits rest with
        | ([], _) => none
        | (fraction, rest) => scanTail ⟨negative, whole, fraction, none⟩ rest
      | _ => scanTail ⟨negative, whole, [], none⟩ rest

/-- The greatest number a significand can hold. -/
def significandMax : Nat := 18446744073709551615

/-- Takes up digits as long as the significand can hold them. The rest is not looked at. -/
def takeUp : Nat → List Char → Nat × List Char
  | significand, [] => (significand, [])
  | significand, c :: rest =>
    let next := significand * 10 + (c.toNat - 48)
    if significandMax < next then (significand, c :: rest) else takeUp next rest

/-- The powers of ten that one step of scaling can use. -/
def exponentMax : Nat := 308

/-- Scales `x` by `10 ^ exponent` in steps that each round; `none` if that passes every float. -/
def scaleWithin : Nat → Float → Int → Option Float
  | 0, x, _ => some x
  | steps + 1, x, exponent =>
    if exponent.natAbs ≤ exponentMax then
      let power := Float.ofScientific 1 false exponent.natAbs
      if 0 ≤ exponent then
        let y := x * power
        if y.isInf then none else some y
      else some (x / power)
    else if x == 0.0 then some x
    else if 0 ≤ exponent then none
    else scaleWithin steps (x / Float.ofScientific 1 false exponentMax) (exponent + exponentMax)

def scale (significand : Nat) (exponent : Int) : Option Float :=
  scaleWithin (exponent.natAbs / exponentMax + 1) (UInt64.ofNat significand).toFloat exponent

/-- Exponents are held in 32 signed bits and stay at the ends of that range. -/
def exponentLow : Int := -2147483648

def exponentHigh : Int := 2147483647

/-- The float of a numeral with a point, with an exponent, or with more digits than an integer can
hold; `none` if it passes every float. -/
def float? (n : Numeral) : Option Float :=
  let (significand, restWhole) := takeUp 0 n.whole
  let (significand, restFraction) := takeUp significand n.fraction
  let shift : Int := restWhole.length - (n.fraction.length - restFraction.length : Nat)
  let signed (x : Float) : Float := if n.negative then -x else x
  match n.exponent with
  | none => (scale significand shift).map signed
  | some (sign, ds) =>
    let size := digitsValue ds
    let down := sign = some true
    if exponentHigh < size then
      if significand ≠ 0 ∧ ¬ down then none else some (signed 0.0)
    else
      let exponent := if down then shift - size else shift + size
      (scale significand (min exponentHigh (max exponentLow exponent))).map signed

/-- What the numeral stands for: an integer if it is written as one and 64 bits can hold it, and
otherwise a float. A minus in front of zero makes a float. -/
def value? (n : Numeral) : Option Number :=
  let size := digitsValue n.whole
  if n.fraction.isEmpty ∧ n.exponent.isNone ∧ size ≤ significandMax then
    if n.negative then
      if 0 < size ∧ size ≤ 9223372036854775808 then some (.integer (-size))
      else some (.float (-(UInt64.ofNat size).toFloat))
    else some (.integer size)
  else n.float?.map .float

end Numeral

end SeriesStream.Json
