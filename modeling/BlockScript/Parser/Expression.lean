import BlockScript.Parser.Basic

/-!
# Expressions

An expression is a chain of operands with operators between them. `operand`, `chain`, `arguments`
and `expressionWithin` read it; `assemble` then makes a tree of the chain, in which an operator of
higher precedence binds tighter and operators of equal precedence group to the left.

The readers take a bound on how deep they may go into each other, which each call lowers by one.
Of four such calls in a row one at least reads a token, so there is room enough in four times the
number of tokens that are left.
-/

namespace BlockScript.Parser

/-! ## Precedence -/

/-- The expression of an operator token and its operands. -/
def binaryOf (op : Token) (left right : Expr) : Expr :=
  .binary op.line (Operator.ofSpelling op.text) left right

/-- Completes the pending operations that bind at least as tightly as `precedence`. The pending
ones are left operands with their operators, the last one first. -/
def complete (precedence : Nat) : List (Expr × Token) → Expr → List (Expr × Token) × Expr
  | [], e => ([], e)
  | (left, op) :: pending, e =>
    if precedence ≤ op.kind.precedence then complete precedence pending (binaryOf op left e)
    else ((left, op) :: pending, e)

/-- The tree of a chain: pending operations, the operand before the chain, and the chain. -/
def assembleFrom : List (Expr × Token) → Expr → List (Token × Expr) → Expr
  | pending, e, [] => (complete 0 pending e).2
  | pending, e, (op, operand) :: chain =>
    let (pending, e) := complete op.kind.precedence pending e
    assembleFrom ((e, op) :: pending) operand chain

/-- The tree of an operand and the chain behind it. -/
def assemble (first : Expr) (chain : List (Token × Expr)) : Expr :=
  assembleFrom [] first chain

/-! ## Reading -/

open Source

variable {σ : Type}

/-- A literal number: its token has to carry one. -/
def numberLiteral (t : Token) : Reader σ Expr := fun s =>
  match t.literal with
  | some (.integer n) => .ok (.literal t.line (.integer n), s)
  | some (.float x) => .ok (.literal t.line (.float x), s)
  | _ => .error ⟨.malformedNumber t, s, 0⟩

variable [Source σ]

mutual

/-- One operand: a literal, a name, a call, or an expression in parentheses. -/
def operand : Nat → Reader σ Expr
  | 0 => failHere .exhausted
  | bound + 1 => fun s =>
    match cur? s with
    | none => failHere .unexpected s
    | some t =>
      match t.kind with
      | .number => numberLiteral t (advance s)
      | .string => .ok (.literal t.line (.text t.text), advance s)
      | .torchOn => .ok (.literal t.line (.boolean true), advance s)
      | .torchOff => .ok (.literal t.line (.boolean false), advance s)
      | .identifier => nameOrCall bound t (advance s)
      | .openParen => inParentheses bound (advance s)
      | _ => failHere .unexpected s

/-- What stands behind an opening parenthesis. -/
def inParentheses : Nat → Reader σ Expr
  | 0 => failHere .exhausted
  | bound + 1 => do
    let e ← expressionWithin bound
    let _ ← expect .closeParen .closeParen
    return e

/-- A name just read, or the call that it starts. -/
def nameOrCall : Nat → Token → Reader σ Expr
  | 0, _ => failHere .exhausted
  | bound + 1, t => do
    if ← accept .openParen then
      let args ← argumentsWithin bound
      let _ ← expect .closeParen .closeParen
      return .call t.line t.text args
    else
      return .ident t.line t.text

/-- The arguments of a call up to its closing parenthesis: none, or a sequence. -/
def argumentsWithin : Nat → Reader σ (List Expr)
  | 0 => failHere .exhausted
  | bound + 1 => do
    if (← nextKind?) = some .closeParen then return []
    else sequence bound

/-- One or more expressions with commas between them. -/
def sequence : Nat → Reader σ (List Expr)
  | 0 => failHere .exhausted
  | bound + 1 => do
    let e ← expressionWithin bound
    if ← accept .comma then
      let es ← sequence bound
      return e :: es
    else
      return [e]

/-- The operators and operands behind the first operand. -/
def chain : Nat → Reader σ (List (Token × Expr))
  | 0 => failHere .exhausted
  | bound + 1 => fun s =>
    match cur? s with
    | none => .ok ([], s)
    | some op =>
      if op.kind.precedence = 0 then .ok ([], s)
      else (do
        let e ← operand bound
        let more ← chain bound
        return (op, e) :: more : Reader σ (List (Token × Expr))) (advance s)

/-- An expression, with the given bound. -/
def expressionWithin : Nat → Reader σ Expr
  | 0 => failHere .exhausted
  | bound + 1 => do
    let first ← operand bound
    let more ← chain bound
    return assemble first more

end

/-- An expression. -/
def expression : Reader σ Expr :=
  withRoom expressionWithin

end BlockScript.Parser
