import BlockScript.Number.Binary64
import BlockScript.Number.Decimal

/-!
# The shortest decimal of a double

Among the decimals that read back as a given double, `shortest` takes one with the fewest digits,
and of those the nearest. `floatText` writes it out in full, never with an exponent, and always
with a point, so that a double is not mistaken for an integer.
-/

namespace BlockScript.Number

/-- The positive decimal `digits * 10 ^ power`. -/
structure Scientific where
  digits : Nat
  power : Int
  deriving Repr, DecidableEq

/-- A positive double in quarter units of its last place, with the ends of the interval of the
reals that round to it: the numbers are `value`, `low` and `high`, all times `2 ^ exponent`. The
ends belong to the interval when `closed`. -/
structure Interval where
  low : Nat
  value : Nat
  high : Nat
  exponent : Int
  closed : Bool
  deriving Repr, DecidableEq

/-- The interval of `mantissa * 2 ^ exponent`. Below a power of two the doubles lie twice as
dense, so there the lower end is nearer. -/
def Interval.ofParts (mantissa : Nat) (exponent : Int) : Interval where
  low := if mantissa = Nat.pow 2 52 ∧ -1074 < exponent then 4 * mantissa - 1 else 4 * mantissa - 2
  value := 4 * mantissa
  high := 4 * mantissa + 2
  exponent := exponent - 2
  closed := mantissa % 2 = 0

/-- Whether `num / den` of the units lies in the interval. -/
def Interval.contains (i : Interval) (num den : Nat) : Bool :=
  if i.closed then i.low * den ≤ num && num ≤ i.high * den
  else i.low * den < num && num < i.high * den

/-- The ratio by which a decimal `d * 10 ^ power` becomes `d * num / den` of the units. -/
def Interval.grid (i : Interval) (power : Int) : Nat × Nat :=
  let (a, b) := if 0 ≤ power then (Nat.pow 10 power.toNat, 1) else (1, Nat.pow 10 (-power).toNat)
  scaleRatio a b (-i.exponent)

/-- The multiple of `10 ^ power` in the interval that is nearest to the value, if there is one. -/
def Interval.onGrid? (i : Interval) (power : Int) : Option Nat :=
  let (num, den) := i.grid power
  let below := i.value * den / num
  let above := below + 1
  let belowFits := 0 < below && i.contains (below * num) den
  let aboveFits := i.contains (above * num) den
  if belowFits && aboveFits then
    let toBelow := i.value * den - below * num
    let toAbove := above * num - i.value * den
    if toBelow < toAbove || (toBelow = toAbove && below % 2 = 0) then some below else some above
  else if belowFits then some below
  else if aboveFits then some above
  else none

/-- The first grid, from `power` downwards, that has a decimal in the interval. -/
def Interval.search (i : Interval) : Nat → Int → Scientific
  | 0, power => ⟨(i.onGrid? power).getD i.value, power⟩
  | tries + 1, power =>
    match i.onGrid? power with
    | some d => ⟨d, power⟩
    | none => i.search tries (power - 1)

/-- How many digits stand before the point of `num / den`, or, as a negative number, how many
zeros stand behind it before the first digit. -/
def magnitude (num den : Nat) : Int :=
  if den ≤ num then (digitsOf (num / den)).length
  else 1 - (digitsOf (den / num)).length

/-- The shortest decimal of a positive double. -/
def shortest (mantissa : Nat) (exponent : Int) : Scientific :=
  let (num, den) := scaleRatio mantissa 1 exponent
  (Interval.ofParts mantissa exponent).search 20 (magnitude num den)

/-- A decimal written without exponent, with a point. -/
def positional (d : Scientific) : List Char :=
  let digits := digitsOf d.digits
  if 0 ≤ d.power then digits ++ List.replicate d.power.toNat '0' ++ ['.', '0']
  else
    let places := (-d.power).toNat
    if digits.length ≤ places then
      ['0', '.'] ++ List.replicate (places - digits.length) '0' ++ digits
    else digits.take (digits.length - places) ++ ['.'] ++ digits.drop (digits.length - places)

/-- The text of a double. -/
def floatText (x : Float) : String :=
  match parts x with
  | .nan => "NaN"
  | .infinite negative => if negative then "-Inf" else "+Inf"
  | .finite negative mantissa exponent =>
    let body := if mantissa = 0 then ['0', '.', '0'] else positional (shortest mantissa exponent)
    String.ofList (if negative then '-' :: body else body)

end BlockScript.Number
