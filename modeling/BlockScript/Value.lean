import BlockScript.Number.Read
import BlockScript.Number.Shortest

/-!
# Values

The values a program computes with, and the coercions between them. Coercion never fails: what
has no number in it counts as zero.

* `Value`: nothing, integers of 64 bits, doubles, texts, truth values, and the kind reserved for
  arrays, which nothing produces.
* `Value.toText`, `Value.toFloat`, `Value.toInteger`, `Value.truthy`: a value as a text, a number or
  a truth value.
* `Value.equal`: equality, which no two values of different kinds have.
-/

namespace BlockScript

/-- The kinds of values. -/
inductive Kind where
  | void
  | integer
  | float
  | text
  | boolean
  | array
  | unknown
  deriving Repr, DecidableEq

/-- The name under which a program knows a kind. -/
def Kind.name : Kind → String
  | .void => "void"
  | .integer => "redstone"
  | .float => "emerald"
  | .text => "obsidian"
  | .boolean => "nether"
  | .array => "ender"
  | .unknown => "unknown"

/-- The kinds in their order; a number beyond them is no kind. -/
def Kind.ofNumber : Nat → Kind
  | 0 => .void
  | 1 => .integer
  | 2 => .float
  | 3 => .text
  | 4 => .boolean
  | 5 => .array
  | _ => .unknown

/-- A value of a running program. -/
inductive Value where
  | void
  | integer (n : Int64)
  | float (x : Float)
  | text (s : String)
  | boolean (b : Bool)
  | array
  | unknown
  deriving Repr, Inhabited

namespace Value

/-- The kind of a value. -/
def kind : Value → Kind
  | .void => .void
  | .integer _ => .integer
  | .float _ => .float
  | .text _ => .text
  | .boolean _ => .boolean
  | .array => .array
  | .unknown => .unknown

/-- How a value is printed. -/
def toText : Value → String
  | .integer n => Number.integerText n.toInt
  | .float x => Number.floatText x
  | .text s => s
  | .boolean b => if b then "true" else "false"
  | .void | .array | .unknown => "void"

/-- The number in a text, once the blanks around it are trimmed; zero if there is none. -/
def floatOfText (s : String) : Float :=
  (Number.readFloat? (Text.trim s.toList)).getD 0

/-- A value as a double. -/
def toFloat : Value → Float
  | .integer n => n.toFloat
  | .float x => x
  | .text s => floatOfText s
  | .boolean b => if b then 1 else 0
  | .void | .array | .unknown => 0

/-- A value as an integer: fractions are cut off. -/
def toInteger : Value → Int64
  | .integer n => n
  | .text s =>
    match Number.readInt? (Text.trim s.toList) with
    | some n => n
    | none => (floatOfText s).toInt64
  | v => v.toFloat.toInt64

/-- Whether a condition holds with this value: numbers other than zero and texts other than the
empty one do. -/
def truthy : Value → Bool
  | .boolean b => b
  | .integer n => n != 0
  | .float x => x != 0
  | .text s => s != ""
  | .void | .array | .unknown => false

/-- Equality of kind and content. An integer is never equal to a double. -/
def equal : Value → Value → Bool
  | .integer m, .integer n => m == n
  | .float x, .float y => x == y
  | .text s, .text t => s == t
  | .boolean b, .boolean c => b == c
  | v, w => v.kind == w.kind

/-- Whether the value is nothing. -/
def isVoid : Value → Bool
  | .void => true
  | _ => false

/-- Whether the value is a text. -/
def isText : Value → Bool
  | .text _ => true
  | _ => false

/-- Whether the value is a double. -/
def isFloat : Value → Bool
  | .float _ => true
  | _ => false

end Value

end BlockScript
