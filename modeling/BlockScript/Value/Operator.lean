import BlockScript.Value
import BlockScript.Fault

/-!
# Operators

The twelve binary operators and what they do to values. Operands are coerced: addition prefers
text, then doubles, then integers; the other arithmetic prefers doubles; order is always that of
doubles. Both operands of a connective are there before it is applied.

* `Operator.apply`: fails only for a division by zero and for a spelling that names no operator.
-/

namespace BlockScript

/-- A binary operator. A tree built by hand may hold a spelling that is none of the twelve. -/
inductive Operator where
  | add
  | subtract
  | multiply
  | divide
  | equal
  | notEqual
  | less
  | greater
  | lessEqual
  | greaterEqual
  | and
  | or
  | other (spelling : String)
  deriving Repr, DecidableEq

namespace Operator

/-- How an operator is written. -/
def spelling : Operator → String
  | .add => "+"
  | .subtract => "-"
  | .multiply => "*"
  | .divide => "/"
  | .equal => "=="
  | .notEqual => "!="
  | .less => "<"
  | .greater => ">"
  | .lessEqual => "<="
  | .greaterEqual => ">="
  | .and => "&&"
  | .or => "||"
  | .other s => s

/-- The operator with a given spelling. -/
def ofSpelling (s : String) : Operator :=
  match s with
  | "+" => .add
  | "-" => .subtract
  | "*" => .multiply
  | "/" => .divide
  | "==" => .equal
  | "!=" => .notEqual
  | "<" => .less
  | ">" => .greater
  | "<=" => .lessEqual
  | ">=" => .greaterEqual
  | "&&" => .and
  | "||" => .or
  | s => .other s

/-- Arithmetic on doubles if either operand is one, and otherwise on integers, which wrap around. -/
def arithmetic (onFloats : Float → Float → Float) (onIntegers : Int64 → Int64 → Int64)
    (l r : Value) : Value :=
  if l.isFloat || r.isFloat then .float (onFloats l.toFloat r.toFloat)
  else .integer (onIntegers l.toInteger r.toInteger)

/-- The value of an operator on two values. -/
def apply (op : Operator) (l r : Value) : Except Cause Value :=
  match op with
  | .add =>
    if l.isText || r.isText then .ok (.text (l.toText ++ r.toText))
    else .ok (arithmetic (· + ·) (· + ·) l r)
  | .subtract => .ok (arithmetic (· - ·) (· - ·) l r)
  | .multiply => .ok (arithmetic (· * ·) (· * ·) l r)
  | .divide =>
    if r.toFloat == 0 then .error .divisionByZero
    else .ok (.float (l.toFloat / r.toFloat))
  | .equal => .ok (.boolean (l.equal r))
  | .notEqual => .ok (.boolean (!l.equal r))
  | .less => .ok (.boolean (l.toFloat < r.toFloat))
  | .greater => .ok (.boolean (r.toFloat < l.toFloat))
  | .lessEqual => .ok (.boolean (l.toFloat ≤ r.toFloat))
  | .greaterEqual => .ok (.boolean (r.toFloat ≤ l.toFloat))
  | .and => .ok (.boolean (l.truthy && r.truthy))
  | .or => .ok (.boolean (l.truthy || r.truthy))
  | .other _ => .error .unsupportedOperator

theorem spelling_ofSpelling (s : String) : (ofSpelling s).spelling = s := by
  unfold ofSpelling
  split <;> rfl

end Operator

end BlockScript
