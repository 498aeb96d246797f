import BlockScript.Number.Binary64
import BlockScript.Number.Decimal
import BlockScript.Text.Blank
import BlockScript.Text.Letter

/-!
# Numbers in text

How a text is read as a number. All of the text has to be the number, without blanks around it.

* `readInt?`: an optional sign and decimal digits, within the range of a 64-bit integer.
* `readFloat?`: an optional sign and a decimal or hexadecimal fraction, or the name of an infinity
  or of the undefined number in any case. The result is the nearest double; a text beyond the
  largest double is refused.
-/

namespace BlockScript.Number

open Text (isAsciiDigit)

/-- Splits off a sign: whether it is a minus, and the text behind it. -/
def splitSign : List Char → Bool × List Char
  | '+' :: rest => (false, rest)
  | '-' :: rest => (true, rest)
  | cs => (false, cs)

/-- Whether an integer fits in 64 bits. -/
def fitsInt64 : Int → Bool
  | .ofNat n => n < Nat.pow 2 63
  | .negSucc n => n < Nat.pow 2 63

/-- An integer, if it fits in 64 bits. -/
def toInt64? (n : Int) : Option Int64 :=
  if fitsInt64 n then some (Int64.ofInt n) else none

/-- Reads an optional sign and decimal digits. -/
def readInt? (cs : List Char) : Option Int64 :=
  let (negative, digits) := splitSign cs
  if digits ≠ [] ∧ digits.all isAsciiDigit then
    toInt64? (if negative then -(valueOf digits : Int) else valueOf digits)
  else none

/-! ## Fractions -/

/-- A digit in base sixteen. -/
def isHexDigit (c : Char) : Bool :=
  isAsciiDigit c || ('a' ≤ c.toLower && c.toLower ≤ 'f')

/-- The number a digit in base sixteen stands for. -/
def hexDigitValue (c : Char) : Nat :=
  if isAsciiDigit c then digitValue c else c.toLower.toNat - 'a'.toNat + 10

/-- The number that digits in base sixteen stand for. -/
def hexValueOf (digits : List Char) : Nat :=
  digits.foldl (fun n c => n * 16 + hexDigitValue c) 0

/-- A positive decimal `mantissa * 10 ^ power` as a double. The bounds keep powers of ten that are
sure to round to nothing or to be out of range from being computed. -/
def ofDecimal? (negative : Bool) (mantissa : Nat) (power : Int) : Option Float :=
  let size : Int := (digitsOf mantissa).length
  if mantissa = 0 ∨ size + power < -330 then some (ofMagnitude negative 0)
  else if 310 < size + power then none
  else if 0 ≤ power then nearest? negative (mantissa * Nat.pow 10 power.toNat) 1
  else nearest? negative mantissa (Nat.pow 10 (-power).toNat)

/-- A positive number `mantissa * 2 ^ power` as a double, with bounds of the same kind. -/
def ofBinary? (negative : Bool) (mantissa : Nat) (power : Int) : Option Float :=
  let size : Int := mantissa.log2
  if mantissa = 0 ∨ size + power < -1080 then some (ofMagnitude negative 0)
  else if 1030 < size + power then none
  else
    let (num, den) := scaleRatio mantissa 1 power
    nearest? negative num den

/-- Digits before and behind an optional point, and what follows them. -/
def splitFraction (isDigit : Char → Bool) (cs : List Char) :
    List Char × List Char × List Char :=
  let whole := cs.takeWhile isDigit
  match cs.dropWhile isDigit with
  | '.' :: rest => (whole, rest.takeWhile isDigit, rest.dropWhile isDigit)
  | rest => (whole, [], rest)

/-- An exponent: an optional sign and decimal digits up to the end of the text. -/
def readExponent? (cs : List Char) : Option Int :=
  let (negative, digits) := splitSign cs
  if digits ≠ [] ∧ digits.all isAsciiDigit then
    some (if negative then -(valueOf digits : Int) else valueOf digits)
  else none

/-- A decimal fraction without sign, with an optional exponent of ten. -/
def readDecimal? (negative : Bool) (cs : List Char) : Option Float := do
  let (whole, places, rest) := splitFraction isAsciiDigit cs
  if whole ++ places = [] then none
  else
    let exponent ← match rest with
      | [] => some 0
      | c :: tail => if c = 'e' ∨ c = 'E' then readExponent? tail else none
    ofDecimal? negative (valueOf (whole ++ places)) (exponent - places.length)

/-- A hexadecimal fraction without sign and base mark. Its exponent, of two, has to be there. -/
def readHexadecimal? (negative : Bool) (cs : List Char) : Option Float := do
  let (whole, places, rest) := splitFraction isHexDigit cs
  if whole ++ places = [] then none
  else
    let exponent ← match rest with
      | [] => none
      | c :: tail => if c = 'p' ∨ c = 'P' then readExponent? tail else none
    ofBinary? negative (hexValueOf (whole ++ places)) (exponent - 4 * places.length)

/-- The double for the name of an infinity or of the undefined number, which takes no sign. -/
def readName? (cs : List Char) : Option Float :=
  let (negative, rest) := splitSign cs
  let name := rest.map Char.toLower
  if name = "inf".toList ∨ name = "infinity".toList then
    some (if negative then -1.0 / 0.0 else 1.0 / 0.0)
  else if cs.map Char.toLower = "nan".toList then some (0.0 / 0.0)
  else none

/-- Whether every underscore stands between two digits, given whether a digit stands in front. -/
def separatesDigits (isDigit : Char → Bool) : Bool → List Char → Bool
  | _, [] => true
  | _, ['_'] => false
  | afterDigit, '_' :: c :: rest => afterDigit && isDigit c && separatesDigits isDigit true rest
  | _, c :: rest => separatesDigits isDigit (isDigit c) rest

/-- Whether the underscores of a numeral are in order. A base mark counts as a digit in front. -/
def underscoresInOrder (cs : List Char) : Bool :=
  match (splitSign cs).2 with
  | '0' :: 'x' :: rest => separatesDigits isHexDigit true rest
  | '0' :: 'X' :: rest => separatesDigits isHexDigit true rest
  | rest => separatesDigits isAsciiDigit false rest

/-- Reads a double. -/
def readFloat? (cs : List Char) : Option Float :=
  if cs.contains '_' && !underscoresInOrder cs then none
  else
    let cs := cs.filter (· ≠ '_')
    let (negative, rest) := splitSign cs
    readName? cs <|>
      match rest with
      | '0' :: 'x' :: digits => readHexadecimal? negative digits
      | '0' :: 'X' :: digits => readHexadecimal? negative digits
      | digits => readDecimal? negative digits

end BlockScript.Number
