import BlockScript.Number.Binary64

/-!
# Powers

`power x y` is `x` to the `y` in double precision. The whole part of the exponent is worked off by
repeated squaring of the mantissa, with the exponent of two kept apart so that nothing overflows on
the way; the fractional part goes through the logarithm.

* `logarithm`, `exponential`: the functions behind fractional exponents.
* `powerWhole`: repeated squaring.
* `power`: with the limiting cases at zero, one, the infinities and the undefined number.
-/

namespace BlockScript.Number

/-- Evaluates a polynomial whose coefficients are given from the highest degree down, where `step`
computes `a * x + c`. -/
def horner (step : Float → Float → Float → Float) (coefficients : List Float) (x : Float) :
    Float :=
  match coefficients with
  | [] => 0
  | c :: rest => rest.foldl (fun acc a => step acc x a) c

/-- `a * x + c`, rounded after each operation. -/
def roundedTwice (a x c : Float) : Float :=
  a * x + c

/-- The mantissa, at least a half and below one, and the exponent of a positive number, taken
straight from its bits. The leading bit of the mantissa counts as set, also in a subnormal number,
which has none: such a number is taken for a larger one. -/
def splitBits (x : Float) : Float × Int :=
  let bits := x.toBits.toNat
  let biased : Nat := bits / Nat.pow 2 52 % Nat.pow 2 11
  (ofMagnitude false (1022 * Nat.pow 2 52 + bits % Nat.pow 2 52), biased - 1022)

/-- The natural logarithm of a positive finite number `f * 2 ^ k`, where `f` lies within a factor
of the square root of two around one: a series in `s = (f - 1) / (f + 1)`, and `k` times the
logarithm of two in two parts. For subnormal numbers see `splitBits`. -/
def logarithm (x : Float) : Float :=
  let (f₁, k₁) := splitBits x
  let (f₁, k₁) := if f₁ ≤ 0.7071067811865476 then (f₁ * 2, k₁ - 1) else (f₁, k₁)
  let f := f₁ - 1
  let k := Float.ofInt k₁
  let s := f / (2 + f)
  let s2 := s * s
  let s4 := s2 * s2
  let odd := s2 * horner roundedTwice [0.1479819860511658591, 0.1818357216161805012,
    0.2857142874366239149, 0.6666666666666735130] s4
  let even := s4 * horner roundedTwice [0.1531383769920937332, 0.2222219843214978396,
    0.3999999999940941908] s4
  let r := odd + even
  let half := 0.5 * f * f
  k * 6.93147180369123816490e-01 -
    ((half - (s * (half + r) + k * 1.90821492927058770002e-10)) - f)

/-- The exponential of a number of moderate size. The nearest multiple of the logarithm of two is
taken out, a sixteenth of the remainder goes through a Taylor series for `e ^ r - 1`, and squaring
four times undoes the division. -/
def exponential (x : Float) : Float :=
  let scaled := x * 1.4426950408889634
  let whole := scaled.floor
  let rest := scaled - whole
  let k := if rest < 0.5 then whole
    else if 0.5 < rest then whole + 1
    else if (whole / 2).floor * 2 == whole then whole else whole + 1
  let r := multiplyAdd (-k) 0.69314718055966295651160180568695068359375 x
  let r := multiplyAdd (-k) 0.28235290563031577122588448175013436025525412068e-12 r
  let r := r * 0.0625
  let series := horner multiplyAdd [2.4801587301587301587e-5, 1.9841269841269841270e-4,
    1.3888888888888888889e-3, 8.3333333333333333333e-3, 4.1666666666666666667e-2,
    1.6666666666666666667e-1, 0.5, 1.0] r
  let e := r * series
  let e := e * (e + 2)
  let e := e * (e + 2)
  let e := e * (e + 2)
  let e := e * (e + 2)
  (e + 1).scaleB (if k < 0 then -((-k).toUInt64.toNat : Int) else (k.toUInt64.toNat : Int))

/-- Multiplies `acc * 2 ^ accExp` by the `n`-th power of `base * 2 ^ baseExp`, where `base` is at
least a half and below one. It takes at most `steps` squarings, and stops when the exponent alone
decides the result. -/
def powerWhole : Nat → Nat → Float → Int → Float → Int → Float × Int
  | 0, _, _, _, acc, accExp => (acc, accExp)
  | steps + 1, n, base, baseExp, acc, accExp =>
    if n = 0 then (acc, accExp)
    else if baseExp < -4096 ∨ 4096 < baseExp then (acc, accExp + baseExp)
    else
      let (acc, accExp) := if n % 2 = 1 then (acc * base, accExp + baseExp) else (acc, accExp)
      let square := base * base
      let squareExp := 2 * baseExp
      if square < 0.5 then powerWhole steps (n / 2) (square + square) (squareExp - 1) acc accExp
      else powerWhole steps (n / 2) square squareExp acc accExp

/-- Whether a number is an odd integer. -/
def isOddInteger (y : Float) : Bool :=
  let a := y.abs
  a < 9007199254740992 && a.floor == a && a.toUInt64 % 2 == 1

/-- Whether the sign bit is set, also for a negative zero. -/
def isNegative (x : Float) : Bool :=
  Nat.pow 2 63 ≤ x.toBits.toNat

/-- The infinity above all numbers. -/
def infinity : Float := 1.0 / 0.0

/-- The power of a zero with a positive or negative exponent. -/
def powerOfZero (x y : Float) : Float :=
  let odd := isNegative x && isOddInteger y
  if y < 0 then if odd then -infinity else infinity
  else if odd then x else 0

/-- The power with an exponent so large that only the base's distance from one matters. -/
def powerToExtreme (x y : Float) : Float :=
  if x == -1 then 1
  else if (x.abs < 1) == (0 < y) then 0
  else infinity

/-- The power of a positive or negative infinity. -/
def powerOfInfinity (x y : Float) : Float :=
  if x < 0 then powerOfZero (1 / x) (-y)
  else if y < 0 then 0 else infinity

/-- The power with a finite nonzero base and a finite nonzero exponent. -/
def powerFinite (x y : Float) : Float :=
  let whole := y.abs.floor
  let part := y.abs - whole
  if part != 0 && x < 0 then 0.0 / 0.0
  else if 9223372036854775808.0 ≤ whole then powerToExtreme x y
  else
    let (part, whole) := if 0.5 < part then (part - 1, whole + 1) else (part, whole)
    let start := if part != 0 then exponential (part * logarithm x) else 1
    let (base, baseExp) := x.frExp
    let (acc, accExp) := powerWhole 64 whole.toUInt64.toNat base baseExp start 0
    if y < 0 then (1 / acc).scaleB (-accExp) else acc.scaleB accExp

/-- `x` to the power `y`. -/
def power (x y : Float) : Float :=
  if y == 0 || x == 1 then 1
  else if y == 1 then x
  else if x.isNaN || y.isNaN then 0.0 / 0.0
  else if x == 0 then powerOfZero x y
  else if y.isInf then powerToExtreme x y
  else if x.isInf then powerOfInfinity x y
  else if y == 0.5 then x.sqrt
  else if y == -0.5 then 1 / x.sqrt
  else powerFinite x y

end BlockScript.Number
