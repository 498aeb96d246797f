import BlockScript.Diagnostic
import BlockScript.Native
import BlockScript.Tree

/-!
# Checking names

The checker finds names that are used but not declared, used as what they are not, or declared
twice, and returns that do not fit their function. It goes on after each finding.

The global scope holds the native functions, then all functions of the program, so that a function
may be used before its declaration, and then variables as they are declared. Of several
declarations of a name in one scope the first counts.

* `SemanticError`: what can be wrong, with its wording.
* `Checker.expr`, `Checker.stmt`: the findings of a tree within a chain of scopes.
* `Program.check`: the findings of a program.
-/

namespace BlockScript

/-- What a name is declared as. -/
structure Symbol where
  name : String
  type : DeclaredType
  isFunction : Bool
  deriving Repr, DecidableEq

/-- What can be wrong with a name or a return. -/
inductive SemanticError where
  | alreadyDeclared (name : String)
  | undeclaredVariable (name : String)
  | notVariable (name : String)
  | undeclaredFunction (name : String)
  | notFunction (name : String)
  | returnOutside
  | missingValue (function : String) (type : DeclaredType)
  deriving Repr, DecidableEq

/-- The wording of a semantic error. -/
def SemanticError.message : SemanticError → String
  | .alreadyDeclared name => s!"'{name}' is already declared in this scope"
  | .undeclaredVariable name => s!"variable '{name}' is not declared"
  | .notVariable name => s!"'{name}' is a function, not a variable"
  | .undeclaredFunction name => s!"function '{name}' is not declared"
  | .notFunction name => s!"'{name}' is not a function"
  | .returnOutside => "return outside of a function"
  | .missingValue function type => s!"function '{function}' must return a {type.name} value"

/-- A semantic error at a line. -/
structure Problem where
  line : Int
  error : SemanticError
  deriving Repr, DecidableEq

/-- The diagnostic of a semantic error. -/
def Problem.diagnostic (p : Problem) : Diagnostic :=
  ⟨p.line, p.error.message, .semantic⟩

namespace Checker

/-- The problem of a name that is used as a variable. -/
def variableUse (scopes : Chain Symbol) (line : Int) (name : String) : List Problem :=
  match scopes.find? name with
  | none => [⟨line, .undeclaredVariable name⟩]
  | some s => if s.isFunction then [⟨line, .notVariable name⟩] else []

/-- The problem of a name that is called. -/
def functionUse (scopes : Chain Symbol) (line : Int) (name : String) : List Problem :=
  match scopes.find? name with
  | none => [⟨line, .undeclaredFunction name⟩]
  | some s => if s.isFunction then [] else [⟨line, .notFunction name⟩]

mutual

/-- The problems of an expression. -/
def expr (scopes : Chain Symbol) : Expr → List Problem
  | .literal _ _ => []
  | .ident line name => variableUse scopes line name
  | .binary _ _ left right => expr scopes left ++ expr scopes right
  | .call line name args => functionUse scopes line name ++ exprs scopes args
  | .missing => []

/-- The problems of the arguments of a call. -/
def exprs (scopes : Chain Symbol) : List Expr → List Problem
  | [] => []
  | e :: es => expr scopes e ++ exprs scopes es

end

/-- The problems of an expression that may be absent. -/
def expr? (scopes : Chain Symbol) (e : Option Expr) : List Problem :=
  match e with
  | some e => expr scopes e
  | none => []

/-- Declares a symbol in the innermost scope, unless it holds the name already. -/
def declare (scopes : Chain Symbol) (line : Int) (symbol : Symbol) :
    Chain Symbol × List Problem :=
  match scopes with
  | [] => ([], [])
  | s :: outer =>
    if s.binds symbol.name then (scopes, [⟨line, .alreadyDeclared symbol.name⟩])
    else (s.insert symbol.name symbol :: outer, [])

/-- Declares the parameters of a function. -/
def declareParams (scopes : Chain Symbol) : List Parameter → Chain Symbol × List Problem
  | [] => (scopes, [])
  | p :: ps =>
    let (scopes, found) := declare scopes p.line ⟨p.name, .unknown, false⟩
    let (scopes, more) := declareParams scopes ps
    (scopes, found ++ more)

/-- The symbol of a function. -/
def symbolOf (f : Function) : Symbol :=
  ⟨f.name, f.type, true⟩

/-- The symbol by which the returns in a function are judged: the global function of that name, or
the function itself if there is none. -/
def currentFunction (scopes : Chain Symbol) (f : Function) : Symbol :=
  match scopes.getLast?.bind (·.find? f.name) with
  | some s => if s.isFunction then s else symbolOf f
  | none => symbolOf f

/-- The problem of a return: outside of a function, or without the value that the function is to
give. -/
def giveBack (scopes : Chain Symbol) (current : Option Symbol) (line : Int)
    (value : Option Expr) : List Problem :=
  match current, value with
  | none, value => ⟨line, .returnOutside⟩ :: expr? scopes value
  | some _, some e => expr scopes e
  | some f, none => if f.type = .void then [] else [⟨line, .missingValue f.name f.type⟩]

mutual

/-- The problems of a statement in a function, or outside of all, and the scopes behind it. -/
def stmt (current : Option Symbol) (scopes : Chain Symbol) : Stmt → Chain Symbol × List Problem
  | .block _ body => (scopes, stmts current ([] :: scopes) body)
  | .function line name params returns _ body =>
    let f := currentFunction scopes ⟨line, name, params, returns, body⟩
    let (inner, found) := declareParams ([] :: scopes) params
    (scopes, found ++ stmts (some f) ([] :: inner) body)
  | .declare line name type value =>
    let found := expr? scopes value
    let (scopes, more) := declare scopes line ⟨name, (type.map (·.type)).getD .unknown, false⟩
    (scopes, found ++ more)
  | .assign line name value => (scopes, variableUse scopes line name ++ expr scopes value)
  | .branch _ cond _ thenBody otherwise =>
    let (after, found) := stmt? current scopes otherwise
    (after, expr scopes cond ++ stmts current ([] :: scopes) thenBody ++ found)
  | .loop _ cond _ body => (scopes, expr scopes cond ++ stmts current ([] :: scopes) body)
  | .giveBack line value => (scopes, giveBack scopes current line value)
  | .print _ value => (scopes, expr scopes value)
  | .evaluate _ value => (scopes, expr scopes value)

/-- The problems of statements in sequence. -/
def stmts (current : Option Symbol) (scopes : Chain Symbol) : List Stmt → List Problem
  | [] => []
  | s :: ss =>
    let (scopes, found) := stmt current scopes s
    found ++ stmts current scopes ss

/-- The problems of a statement that may be absent, and the scopes behind it. -/
def stmt? (current : Option Symbol) (scopes : Chain Symbol) :
    Option Stmt → Chain Symbol × List Problem
  | none => (scopes, [])
  | some s => stmt current scopes s

end

/-- Declares functions in the innermost scope. -/
def declareFunctions (scopes : Chain Symbol) : List Function → Chain Symbol × List Problem
  | [] => (scopes, [])
  | f :: fs =>
    let (scopes, found) := declare scopes f.line (symbolOf f)
    let (scopes, more) := declareFunctions scopes fs
    (scopes, found ++ more)

/-- The scope that holds the native functions. -/
def nativeScope (natives : Natives) : Scope Symbol :=
  natives.map fun (name, _) => (name, ⟨name, .unknown, true⟩)

/-- The problems of a program. -/
def program (natives : Natives) (p : Program) : List Problem :=
  let (scopes, found) := declareFunctions [nativeScope natives] p.functions
  found ++ stmts none scopes p.declarations

end Checker

/-- What is wrong with the names of a program. -/
def Program.check (natives : Natives) (p : Program) : List Diagnostic :=
  (Checker.program natives p).map Problem.diagnostic

end BlockScript
