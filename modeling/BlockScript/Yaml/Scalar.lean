import BlockScript.Number.Read
import BlockScript.Yaml

/-!
# The meaning of scalars

What a scalar stands for depends on what is wanted and on whether it is plain: a number or a truth
value in quotes is a text.

* `Node.isNull`: nothing is given.
* `Node.bool?`, `Node.integer?`, `Node.text?`: the kinds of scalars that settings use.
-/

namespace BlockScript.Yaml

open Text (isAsciiDigit)

/-! ## Integers -/

/-- Digits in a base of at most sixteen. -/
def valueInBase? (base : Nat) (digits : List Char) : Option Nat :=
  digits.foldl (fun value? c => value?.bind fun n =>
    if Number.isHexDigit c && Number.hexDigitValue c < base then
      some (n * base + Number.hexDigitValue c)
    else none) (some 0)

/-- A whole number without sign: hexadecimal, octal or binary behind its mark, octal behind a zero,
and otherwise decimal. -/
def magnitude? : List Char → Option Nat
  | [] => none
  | '0' :: mark :: digit :: rest =>
    match mark.toLower with
    | 'x' => valueInBase? 16 (digit :: rest)
    | 'o' => valueInBase? 8 (digit :: rest)
    | 'b' => valueInBase? 2 (digit :: rest)
    | _ => valueInBase? 8 (mark :: digit :: rest)
  | '0' :: rest => valueInBase? 8 rest
  | cs => valueInBase? 10 cs

/-- A decimal fraction without sign, with an optional exponent. -/
def isFraction (cs : List Char) : Bool :=
  let (whole, places, rest) := Number.splitFraction isAsciiDigit cs
  !(whole ++ places).isEmpty && match rest with
    | [] => true
    | c :: tail => (c = 'e' || c = 'E') && (Number.readExponent? tail).isSome

/-- A fraction without what is behind its point, unless it is too large for 64 bits. -/
def truncated? (x : Float) : Option Int :=
  if x < 9223372036854775808 then some x.toInt64.toInt else none

/-- A number that starts with a digit or a sign. Underscores in it do not matter. A whole number
beyond 64 bits counts as a fraction. -/
def numeral? (cs : List Char) : Option Int :=
  let plain := cs.filter (· ≠ '_')
  let (negative, rest) := Number.splitSign plain
  let fraction? := if isFraction rest then (Number.readFloat? plain).bind truncated? else none
  match magnitude? rest with
  | some n =>
    let value : Int := if negative then -n else n
    if Number.fitsInt64 value then some value else fraction?
  | none => fraction?

/-- The number that a plain scalar stands for, without what is behind its point. -/
def number? (text : String) : Option Int :=
  if text = "-.inf" ∨ text = "-.Inf" ∨ text = "-.INF" then some Int64.minValue.toInt
  else
    match text.toList with
    | [] => none
    | c :: rest =>
      if isAsciiDigit c || c = '+' || c = '-' then numeral? (c :: rest)
      else if c = '.' then (Number.readFloat? (c :: rest)).bind truncated?
      else none

/-! ## Scalars -/

namespace Node

/-- Whether nothing is given. -/
def isNull : Node → Bool
  | .scalar text true => ["", "~", "null", "Null", "NULL"].contains text
  | _ => false

/-- A truth value. The words among its names may stand in quotes. -/
def bool? : Node → Option Bool
  | .scalar text plain =>
    if plain && ["true", "True", "TRUE"].contains text then some true
    else if plain && ["false", "False", "FALSE"].contains text then some false
    else if ["y", "Y", "yes", "on"].contains text then some true
    else if ["n", "N", "no", "off"].contains text then some false
    else none
  | _ => none

/-- An integer. A fraction is cut off. -/
def integer? : Node → Option Int
  | .scalar text true => number? text
  | _ => none

/-- The text of any scalar. -/
def text? : Node → Option String
  | .scalar text _ => some text
  | _ => none

end Node

end BlockScript.Yaml
