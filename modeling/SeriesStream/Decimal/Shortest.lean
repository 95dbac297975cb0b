namespace SeriesStream

/-- The number `digits * 10 ^ exponent`. -/
structure Decimal where
  digits : Nat
  exponent : Int
  deriving DecidableEq, Repr

namespace Decimal

/-- The number without zeros at the end of its digits, at most `limit` of which are taken off. -/
def trim : Nat → Decimal → Decimal
  | 0, d => d
  | limit + 1, d =>
    if d.digits ≠ 0 ∧ d.digits % 10 = 0 then trim limit ⟨d.digits / 10, d.exponent + 1⟩ else d

end Decimal

/-- A positive floating-point number with the numbers around it that round to it, all of them
counted in the unit `numerator / denominator`. -/
structure RoundingInterval where
  value : Nat
  low : Nat
  high : Nat
  /-- Whether the ends themselves round to the number. -/
  closed : Bool
  numerator : Nat
  denominator : Nat
  deriving Repr

namespace RoundingInterval

/-- The interval of the double `significand * 2 ^ exponent`. Below the least significand of an
exponent the doubles lie half as far apart, unless they are the smallest ones. -/
def ofDouble (significand : Nat) (exponent : Int) (narrowBelow : Bool) : RoundingInterval where
  value := 4 * significand
  low := 4 * significand - (if narrowBelow then 1 else 2)
  high := 4 * significand + 2
  closed := significand % 2 = 0
  numerator := Nat.pow 2 (exponent - 2).toNat
  denominator := Nat.pow 2 (2 - exponent).toNat

/-- Whether `digits` units of `scale / perScale` round to the number. -/
def holds (i : RoundingInterval) (digits scale perScale : Nat) : Bool :=
  let point := digits * scale * i.denominator
  let unit := i.numerator * perScale
  if i.closed then i.low * unit ≤ point ∧ point ≤ i.high * unit
  else i.low * unit < point ∧ point < i.high * unit

/-- Of the two neighbours of the number among the multiples of `10 ^ exponent` the one that rounds
to it, the nearer one if both do, the even one if both are equally near. -/
def onGrid? (i : RoundingInterval) (exponent : Int) : Option Decimal :=
  let scale := Nat.pow 10 exponent.toNat
  let perScale := Nat.pow 10 (-exponent).toNat
  let value := i.value * i.numerator * perScale
  let unit := scale * i.denominator
  let below := value / unit
  let rest := value % unit
  match i.holds below scale perScale, i.holds (below + 1) scale perScale with
  | false, false => none
  | true, false => some ⟨below, exponent⟩
  | false, true => some ⟨below + 1, exponent⟩
  | true, true =>
    if 2 * rest < unit ∨ (2 * rest = unit ∧ below % 2 = 0) then some ⟨below, exponent⟩
    else some ⟨below + 1, exponent⟩

/-- The first of `grids` ever finer decimal grids, starting with that of `10 ^ exponent`, which
has a point that rounds to the number. -/
def shortestFrom : Nat → Int → RoundingInterval → Option Decimal
  | 0, _, _ => none
  | grids + 1, exponent, i =>
    (i.onGrid? exponent).orElse fun _ => shortestFrom grids (exponent - 1) i

/-- The least count of tenfold steps, at most `limit`, that brings `n` up to `bound`. -/
def stepsUpTo (bound : Nat) : Nat → Nat → Nat
  | 0, _ => 0
  | limit + 1, n => if bound ≤ n then 0 else stepsUpTo bound limit (n * 10) + 1

/-- The power of ten of the number's first digit. -/
def magnitude (i : RoundingInterval) : Int :=
  let value := i.value * i.numerator
  if i.denominator ≤ value then ((Nat.toDigits 10 (value / i.denominator)).length : Int) - 1
  else - (stepsUpTo i.denominator 400 value : Nat)

/-- The decimal with the fewest digits that rounds to the number, the nearest one of those. -/
def shortest (i : RoundingInterval) : Decimal :=
  ((shortestFrom 18 i.magnitude i).getD ⟨0, 0⟩).trim 400

end RoundingInterval

/-- The decimal with the fewest digits that reads back as the absolute value of a finite `x`. -/
def Decimal.ofFloat (x : Float) : Decimal :=
  let bits : Nat := x.toBits.toNat
  let fraction : Nat := bits % Nat.pow 2 52
  let exponent : Nat := bits / Nat.pow 2 52 % Nat.pow 2 11
  if exponent = 0 then
    if fraction = 0 then ⟨0, 0⟩ else (RoundingInterval.ofDouble fraction (-1074) false).shortest
  else
    (RoundingInterval.ofDouble (Nat.pow 2 52 + fraction) (Int.ofNat exponent - 1075)
      (fraction = 0 ∧ 1 < exponent)).shortest

end SeriesStream
