/-!
# Double precision, exactly

A finite double is a sign and a product `mantissa * 2 ^ exponent` of integers. `parts` takes a
double apart, and `nearest?` finds the double next to a ratio of natural numbers, so that text is
read and written with exact arithmetic. `multiplyAdd` joins a product and a sum in one rounding.
-/

namespace BlockScript.Number

/-- What the bits of a double mean. -/
inductive Parts where
  | nan
  | infinite (negative : Bool)
  | finite (negative : Bool) (mantissa : Nat) (exponent : Int)
  deriving Repr, DecidableEq

/-- The parts of the double with the given bits: a sign, eleven bits of exponent and fifty-two of
fraction. -/
def partsOfBits (bits : Nat) : Parts :=
  let negative := Nat.pow 2 63 ≤ bits
  let biased : Nat := bits / Nat.pow 2 52 % Nat.pow 2 11
  let fraction := bits % Nat.pow 2 52
  if biased = 2047 then if fraction = 0 then .infinite negative else .nan
  else if biased = 0 then .finite negative fraction (-1074)
  else .finite negative (fraction + Nat.pow 2 52) (biased - 1075)

/-- The parts of a double. -/
def parts (x : Float) : Parts :=
  partsOfBits x.toBits.toNat

/-- `num / den` scaled by a power of two, as a ratio. -/
def scaleRatio (num den : Nat) (power : Int) : Nat × Nat :=
  if 0 ≤ power then (num * Nat.pow 2 power.toNat, den) else (num, den * Nat.pow 2 (-power).toNat)

/-- The largest `k` with `2 ^ k ≤ num / den`, for positive `num` and `den`. -/
def floorLog2 (num den : Nat) : Int :=
  let k : Int := num.log2 - den.log2
  let (a, b) := scaleRatio num den (-k)
  if b ≤ a then k else k - 1

/-- A quotient rounded to the nearest integer, a tie to the even one. -/
def roundDiv (num den : Nat) : Nat :=
  let q := num / den
  let r := num % den
  if 2 * r < den then q
  else if den < 2 * r then q + 1
  else if q % 2 = 0 then q else q + 1

/-- The bits of the double nearest to `num / den`, a tie going to the even mantissa; `none` if the
ratio rounds beyond the largest double. -/
def nearestBits? (num den : Nat) : Option Nat :=
  if num = 0 then some 0
  else
    let exponent := max (floorLog2 num den - 52) (-1074)
    let (a, b) := scaleRatio num den (-exponent)
    let bits := (exponent + 1074).toNat * Nat.pow 2 52 + roundDiv a b
    if bits < 2047 * Nat.pow 2 52 then some bits else none

/-- The double with the given sign whose distance from zero has these bits. -/
def ofMagnitude (negative : Bool) (bits : Nat) : Float :=
  Float.ofBits (UInt64.ofNat (if negative then bits + Nat.pow 2 63 else bits))

/-- The double nearest to a signed ratio, if it is in range. -/
def nearest? (negative : Bool) (num den : Nat) : Option Float :=
  (nearestBits? num den).map (ofMagnitude negative)

/-- The integer with the given sign and distance from zero. -/
def signed (negative : Bool) (magnitude : Nat) : Int :=
  if negative then -magnitude else magnitude

/-- `a * b + c`, rounded once and not after each operation. -/
def multiplyAdd (a b c : Float) : Float :=
  match parts a, parts b, parts c with
  | .finite na ma ea, .finite nb mb eb, .finite nc mc ec =>
    let exponent := min (ea + eb) ec
    let product := signed (na != nb) (ma * mb) * Int.pow 2 (ea + eb - exponent).toNat
    let sum := product + signed nc mc * Int.pow 2 (ec - exponent).toNat
    let (num, den) := scaleRatio sum.natAbs 1 exponent
    if sum = 0 then a * b + c
    else (nearest? (sum < 0) num den).getD (a * b + c)
  | _, _, _ => a * b + c

end BlockScript.Number
