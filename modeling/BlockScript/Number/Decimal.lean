/-!
# Decimal digits

Natural numbers and integers as decimal text, and back.

* `digitsOf`, `valueOf`: the digits of a number, and the number that digits stand for.
* `integerText`: an integer with a minus sign in front if it is negative.
-/

namespace BlockScript.Number

/-- The digit for a number below ten. -/
def digit (n : Nat) : Char :=
  Char.ofNat (48 + n)

/-- The number a decimal digit stands for. -/
def digitValue (c : Char) : Nat :=
  c.toNat - 48

/-- The decimal digits of a number, without leading zeros; zero has one digit. -/
def digitsOf (n : Nat) : List Char :=
  if n < 10 then [digit n] else digitsOf (n / 10) ++ [digit (n % 10)]

/-- The number that a sequence of decimal digits stands for. -/
def valueOf (digits : List Char) : Nat :=
  digits.foldl (fun n c => n * 10 + digitValue c) 0

/-- The decimal text of an integer. -/
def integerText (n : Int) : String :=
  String.ofList (if n < 0 then '-' :: digitsOf n.natAbs else digitsOf n.natAbs)

end BlockScript.Number
