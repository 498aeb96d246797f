import BlockScript.Parser.Expression

/-!
# Statements

The statements of a program and its declarations. A semicolon may end each of them. Functions are
declared at the top level only.

* `statement`, `statements`: with a bound on how deep blocks are read, as for expressions.
* `declaration`: what stands at the top level.
-/

namespace BlockScript.Parser

open Source

variable {σ : Type} [Source σ]

/-- A result with the semicolon that may stand behind it. -/
def terminated {α : Type} (a : α) : Reader σ α := do
  let _ ← accept .semicolon
  return a

/-- The name of a type. -/
def annotation : Reader σ Annotation := do
  let t ← expect .typeName .typeName
  return ⟨t.line, t.text, DeclaredType.ofName t.text⟩

/-- A colon and a type, if a colon stands next. -/
def annotation? : Reader σ (Option Annotation) := do
  if ← accept .colon then
    let a ← annotation
    return some a
  else
    return none

/-- The value of a variable, if an arrow stands next. -/
def initializer? : Reader σ (Option Expr) := do
  if ← accept .assign then
    let e ← expression
    return some e
  else
    return none

/-- The declaration of a variable, behind its keyword. -/
def variableBehind (keyword : Token) : Reader σ Stmt := do
  let name ← expect .identifier .variableName
  let type ← annotation?
  let value ← initializer?
  terminated (.declare keyword.line name.text type value)

/-- An assignment, behind the name and the arrow. -/
def assignmentBehind (name : Token) : Reader σ Stmt := do
  let value ← expression
  terminated (.assign name.line name.text value)

/-- What a function gives back, behind the keyword. There is no value before a semicolon, the end
of a block or of the input, or a token on a later line. -/
def giveBackBehind (keyword : Token) : Reader σ Stmt := do
  let bare : Bool := match ← next? with
    | none => true
    | some t => t.kind = .semicolon || t.kind = .blockClose || keyword.line < t.line
  if bare then terminated (.giveBack keyword.line none)
  else
    let value ← expression
    terminated (.giveBack keyword.line (some value))

/-- What is printed, behind the keyword. -/
def printBehind (keyword : Token) : Reader σ Stmt := do
  let value ← expression
  terminated (.print keyword.line value)

/-- An expression that stands for itself. -/
def evaluation (line : Int) : Reader σ Stmt := do
  let value ← expression
  terminated (.evaluate line value)

/-- A block with the given body: the line it opens on, and its statements. -/
def blockOf (body : Reader σ (List Stmt)) : Reader σ (Int × List Stmt) := do
  let opening ← expect .blockOpen .blockOpen
  let statements ← nested do
    let statements ← body
    let _ ← expect .blockClose .blockClose
    return statements
  return (opening.line, statements)

/-- A statement that starts with an identifier: an assignment if an arrow follows. -/
def assignmentOrEvaluation (t : Token) : Reader σ Stmt := fun s =>
  match peek? s with
  | some arrow =>
    if arrow.kind = .assign then assignmentBehind t (advance (advance s)) else evaluation t.line s
  | none => evaluation t.line s

mutual

/-- A branch, behind its keyword. Its other side is a block or again a branch. -/
def branchBehind : Nat → Token → Reader σ Stmt
  | 0, _ => failHere .exhausted
  | bound + 1, keyword => do
    let cond ← expression
    let (thenLine, thenBody) ← blockOf (statements bound)
    if ← accept .otherwise then
      let otherwise ← otherSide bound
      terminated (.branch keyword.line cond thenLine thenBody (some otherwise))
    else
      terminated (.branch keyword.line cond thenLine thenBody none)

/-- The other side of a branch. -/
def otherSide : Nat → Reader σ Stmt
  | 0 => failHere .exhausted
  | bound + 1 => fun s =>
    match cur? s with
    | some t =>
      if t.kind = .branch then branchBehind bound t (advance s)
      else (do
        let (line, body) ← blockOf (statements bound)
        return .block line body : Reader σ Stmt) s
    | none => failHere (.expected .blockOpen) s

/-- A statement other than a declaration. -/
def statement : Nat → Reader σ Stmt
  | 0 => failHere .exhausted
  | bound + 1 => fun s =>
    match cur? s with
    | none => failHere .unexpected s
    | some t =>
      match t.kind with
      | .branch => branchBehind bound t (advance s)
      | .loop => (do
          let cond ← expression
          let (bodyLine, body) ← blockOf (statements bound)
          terminated (.loop t.line cond bodyLine body) : Reader σ Stmt) (advance s)
      | .giveBack => giveBackBehind t (advance s)
      | .print => printBehind t (advance s)
      | .blockOpen => (do
          let (line, body) ← blockOf (statements bound)
          terminated (.block line body) : Reader σ Stmt) s
      | .identifier => assignmentOrEvaluation t s
      | _ => evaluation t.line s

/-- The statements of a block, up to its end or the end of the input. -/
def statements : Nat → Reader σ (List Stmt)
  | 0 => failHere .exhausted
  | bound + 1 => fun s =>
    match cur? s with
    | none => .ok ([], s)
    | some t =>
      match t.kind with
      | .blockClose => .ok ([], s)
      | .function => .error ⟨.nestedFunction t, s, 0⟩
      | .declare => (do
          let first ← variableBehind t
          let more ← statements bound
          return first :: more : Reader σ (List Stmt)) (advance s)
      | _ => (do
          let first ← statement bound
          let more ← statements bound
          return first :: more : Reader σ (List Stmt)) s

end

/-- One or more parameters with commas between them. -/
def parameterSequence : Nat → Reader σ (List Parameter)
  | 0 => failHere .exhausted
  | bound + 1 => do
    let t ← expect .identifier .parameterName
    if ← accept .comma then
      let ps ← parameterSequence bound
      return ⟨t.line, t.text⟩ :: ps
    else
      return [⟨t.line, t.text⟩]

/-- The parameters of a function, up to the closing parenthesis. -/
def parameters : Reader σ (List Parameter) := do
  if (← nextKind?) = some .closeParen then return []
  else withRoom parameterSequence

/-- A function, behind its keyword. -/
def functionBehind (keyword : Token) : Reader σ Stmt := do
  let name ← expect .identifier .functionName
  let _ ← expect .openParen .openParen
  let params ← parameters
  let _ ← expect .closeParen .closeParen
  let returns ← annotation?
  let (bodyLine, body) ← blockOf (withRoom statements)
  terminated (.function keyword.line name.text params returns bodyLine body)

/-- What stands at the top level: a function, a variable or a statement. -/
def declaration : Reader σ Stmt := fun s =>
  match cur? s with
  | none => failHere .unexpected s
  | some t =>
    match t.kind with
    | .function => functionBehind t (advance s)
    | .declare => variableBehind t (advance s)
    | _ => statement (room s) s

end BlockScript.Parser
