import BlockScript.Checker
import BlockScript.Proofs.Parser.Shape

/-!
# Scoping rules

What a program must not do with its names, said of single positions in its tree and of what stands
around them, whatever order the tree is gone through in.

* `Position`: the way from a tree down to one of its nodes.
* `Place`: the scopes around a node, with their declarations in order, and the function around it.
* `Stmt.Mentions`, `Program.Mentions`: what stands at a position, and in which place.
* `Violation`: what is wrong with it there, and what is to be reported.
* `Program.Violates`: the violations of a program.
-/

namespace BlockScript

/-! ## Positions -/

/-- One step down a tree: to the expression of a statement, an operand or an argument, a parameter
of a function, a statement of a body, or the other side of a branch. -/
inductive Turn where
  | value
  | left
  | right
  | argument (i : Nat)
  | parameter (i : Nat)
  | statement (i : Nat)
  | otherwise
  deriving DecidableEq

/-- The way down to a node. -/
abbrev Position := List Turn

/-- What a node says by itself: it uses a name as a variable, calls it or declares it, or it gives
back, with or without a value. -/
inductive Mention where
  | variable (line : Int) (name : String)
  | callee (line : Int) (name : String)
  | declaration (line : Int) (name : String)
  | giveBack (line : Int) (hasValue : Bool)

/-- The surroundings of a node: its scopes, the innermost first, each with its declarations in
order, and the name of the function that it is in. -/
structure Place where
  scopes : List (List Symbol)
  function : Option String

/-! ## What stands where -/

/-- What is mentioned in an expression. -/
inductive Expr.Mentions : Expr → Position → Mention → Prop
  | ident {line : Int} {name : String} : Mentions (.ident line name) [] (.variable line name)
  | call {line : Int} {name : String} {args : List Expr} :
      Mentions (.call line name args) [] (.callee line name)
  | left {line : Int} {op : Operator} {l r : Expr} {q : Position} {m : Mention} :
      Mentions l q m → Mentions (.binary line op l r) (.left :: q) m
  | right {line : Int} {op : Operator} {l r : Expr} {q : Position} {m : Mention} :
      Mentions r q m → Mentions (.binary line op l r) (.right :: q) m
  | argument {line : Int} {name : String} {args before after : List Expr} {e : Expr}
      {q : Position} {m : Mention} : args = before ++ e :: after → Mentions e q m →
      Mentions (.call line name args) (.argument before.length :: q) m

/-- What a statement says by itself. -/
@[simp] def Stmt.mention? : Stmt → Option Mention
  | .declare line name _ _ => some (.declaration line name)
  | .assign line name _ => some (.variable line name)
  | .giveBack line value => some (.giveBack line value.isSome)
  | _ => none

/-- The expression of a statement. -/
@[simp] def Stmt.value? : Stmt → Option Expr
  | .declare _ _ _ value | .giveBack _ value => value
  | .assign _ _ value | .print _ value | .evaluate _ value => some value
  | .branch _ cond _ _ _ | .loop _ cond _ _ => some cond
  | .block .. | .function .. => none

/-- The statements that make up a block of their own within a statement. -/
@[simp] def Stmt.block? : Stmt → Option (List Stmt)
  | .block _ body | .branch _ _ _ body _ | .loop _ _ _ body => some body
  | _ => none

/-- The other side of a branch. -/
@[simp] def Stmt.side? : Stmt → Option Stmt
  | .branch _ _ _ _ otherwise => otherwise
  | _ => none

/-- The variable that a statement declares. -/
def Stmt.variable? : Stmt → Option Symbol
  | .declare _ name type _ => some ⟨name, (type.map (·.type)).getD .unknown, false⟩
  | _ => none

/-- The variables that statements declare, not counting what stands inside of them. -/
def variableSymbols (ss : List Stmt) : List Symbol :=
  ss.filterMap Stmt.variable?

/-- Within a block, behind these statements of it. -/
def Place.inner (pl : Place) (before : List Stmt) : Place :=
  { pl with scopes := variableSymbols before :: pl.scopes }

/-- What is mentioned in a statement that stands in a place, and in which place within it. The
expression of a declaration is outside of what it declares. -/
inductive Stmt.Mentions : Place → Stmt → Position → Place → Mention → Prop
  | own {pl : Place} {s : Stmt} {m : Mention} : s.mention? = some m → Mentions pl s [] pl m
  | value {pl : Place} {s : Stmt} {e : Expr} {q : Position} {m : Mention} : s.value? = some e →
      e.Mentions q m → Mentions pl s (.value :: q) pl m
  | statement {pl pl' : Place} {s t : Stmt} {before after : List Stmt} {q : Position}
      {m : Mention} : s.block? = some (before ++ t :: after) →
      Mentions (pl.inner before) t q pl' m →
      Mentions pl s (.statement before.length :: q) pl' m
  | otherwise {pl pl' : Place} {s t : Stmt} {q : Position} {m : Mention} : s.side? = some t →
      Mentions pl t q pl' m → Mentions pl s (.otherwise :: q) pl' m

/-- The native functions as declarations. -/
def nativeSymbols (natives : Natives) : List Symbol :=
  natives.map fun (name, _) => ⟨name, .unknown, true⟩

/-- The function that a statement declares. What it gives back is the type in its heading, and
nothing if there is none. -/
def Stmt.functionSymbol? : Stmt → Option Symbol
  | .function _ name _ (some annotation) _ _ => some ⟨name, annotation.type, true⟩
  | .function _ name _ none _ _ => some ⟨name, .void, true⟩
  | _ => none

/-- The functions that statements declare. -/
def functionSymbols (ss : List Stmt) : List Symbol :=
  ss.filterMap Stmt.functionSymbol?

/-- The parameters of a function as declarations. -/
def parameterSymbols (ps : List Parameter) : List Symbol :=
  ps.map fun p => ⟨p.name, .unknown, false⟩

namespace Program

/-- All functions of a program, the native ones first. -/
def globalFunctions (p : Program) (natives : Natives) : List Symbol :=
  nativeSymbols natives ++ functionSymbols p.declarations

/-- The global scope behind some of the declarations: all functions wherever they stand, and the
variables declared so far. -/
def globals (p : Program) (natives : Natives) (before : List Stmt) : List Symbol :=
  p.globalFunctions natives ++ variableSymbols before

/-- What is mentioned in a program, and in which place. A function is declared behind the native
ones and those in front of it, a parameter behind those in front of it. The body of a function has a
scope of its own within the one with the parameters. -/
inductive Mentions (p : Program) (natives : Natives) : Position → Place → Mention → Prop
  | function {before after : List Stmt} {s : Stmt} {f : Function} :
      p.declarations = before ++ s :: after → s.function? = some f →
      Mentions p natives [.statement before.length]
        ⟨[nativeSymbols natives ++ functionSymbols before], none⟩ (.declaration f.line f.name)
  | parameter {before after : List Stmt} {s : Stmt} {f : Function} {earlier later : List Parameter}
      {a : Parameter} : p.declarations = before ++ s :: after → s.function? = some f →
      f.params = earlier ++ a :: later →
      Mentions p natives [.statement before.length, .parameter earlier.length]
        ⟨[parameterSymbols earlier, p.globals natives before], some f.name⟩
        (.declaration a.line a.name)
  | body {before after earlier later : List Stmt} {s t : Stmt} {f : Function} {q : Position}
      {pl : Place} {m : Mention} : p.declarations = before ++ s :: after →
      s.function? = some f → f.body = earlier ++ t :: later →
      t.Mentions ⟨[variableSymbols earlier, parameterSymbols f.params, p.globals natives before],
        some f.name⟩ q pl m →
      Mentions p natives (.statement before.length :: .statement earlier.length :: q) pl m
  | statement {before after : List Stmt} {s : Stmt} {q : Position} {pl : Place} {m : Mention} :
      p.declarations = before ++ s :: after → s.function? = none →
      s.Mentions ⟨[p.globals natives before], none⟩ q pl m →
      Mentions p natives (.statement before.length :: q) pl m

end Program

/-! ## What is wrong there -/

/-- The scope does not hold the name. -/
def Lacks (scope : List Symbol) (name : String) : Prop :=
  ∀ s ∈ scope, s.name ≠ name

/-- The first declaration of a name in a scope. -/
def First (scope : List Symbol) (name : String) (s : Symbol) : Prop :=
  ∃ earlier later, scope = earlier ++ s :: later ∧ s.name = name ∧ Lacks earlier name

/-- The innermost scope that holds a name declares it as this. -/
def Resolves (scopes : List (List Symbol)) (name : String) (s : Symbol) : Prop :=
  ∃ inner scope outer, scopes = inner ++ scope :: outer ∧ (∀ l ∈ inner, Lacks l name) ∧
    First scope name s

/-- What is wrong with a mention in a place, and how it is reported: with the line of the mention
and a wording. A name must be held by a scope around it, as what it is used as, and not be declared
twice in one scope. A function must be returned from with a value if the first global declaration of
its name has a type other than void. -/
inductive Violation (p : Program) (natives : Natives) : Place → Mention → Diagnostic → Prop
  | undeclaredVariable {pl : Place} {line : Int} {name : String} :
      (∀ l ∈ pl.scopes, Lacks l name) →
      Violation p natives pl (.variable line name)
        ⟨line, "variable '" ++ name ++ "' is not declared", .semantic⟩
  | notVariable {pl : Place} {line : Int} {name : String} {s : Symbol} :
      Resolves pl.scopes name s → s.isFunction = true →
      Violation p natives pl (.variable line name)
        ⟨line, "'" ++ name ++ "' is a function, not a variable", .semantic⟩
  | undeclaredFunction {pl : Place} {line : Int} {name : String} :
      (∀ l ∈ pl.scopes, Lacks l name) →
      Violation p natives pl (.callee line name)
        ⟨line, "function '" ++ name ++ "' is not declared", .semantic⟩
  | notFunction {pl : Place} {line : Int} {name : String} {s : Symbol} :
      Resolves pl.scopes name s → s.isFunction = false →
      Violation p natives pl (.callee line name)
        ⟨line, "'" ++ name ++ "' is not a function", .semantic⟩
  | alreadyDeclared {pl : Place} {line : Int} {name : String} {scope : List Symbol}
      {outer : List (List Symbol)} : pl.scopes = scope :: outer → ¬ Lacks scope name →
      Violation p natives pl (.declaration line name)
        ⟨line, "'" ++ name ++ "' is already declared in this scope", .semantic⟩
  | returnOutside {pl : Place} {line : Int} {hasValue : Bool} : pl.function = none →
      Violation p natives pl (.giveBack line hasValue)
        ⟨line, "return outside of a function", .semantic⟩
  | missingValue {pl : Place} {line : Int} {name : String} {s : Symbol} :
      pl.function = some name → First (p.globalFunctions natives) name s → s.type ≠ .void →
      Violation p natives pl (.giveBack line false)
        ⟨line, "function '" ++ name ++ "' must return a " ++ s.type.name ++ " value", .semantic⟩

/-- What is to be reported of a position of a program. -/
def Program.Violates (p : Program) (natives : Natives) (q : Position) (d : Diagnostic) : Prop :=
  ∃ pl m, p.Mentions natives q pl m ∧ Violation p natives pl m d

/-! ## The programs that the rules are for -/

mutual

/-- No function stands inside the statement, and the other side of a branch is a block or a
branch. -/
def Stmt.orderly : Stmt → Bool
  | .block _ body => Stmt.allOrderly body
  | .function .. => false
  | .branch _ _ _ thenBody otherwise => Stmt.allOrderly thenBody && Stmt.orderlySide otherwise
  | .loop _ _ _ body => Stmt.allOrderly body
  | .declare .. | .assign .. | .giveBack .. | .print .. | .evaluate .. => true

/-- The same for the statements of a block. -/
def Stmt.allOrderly : List Stmt → Bool
  | [] => true
  | s :: ss => s.orderly && Stmt.allOrderly ss

/-- The same for the other side of a branch. -/
def Stmt.orderlySide : Option Stmt → Bool
  | none => true
  | some s => s.isSide && s.orderly

end

/-- The same at the top level, where functions may stand. -/
def Stmt.orderlyTop : Stmt → Bool
  | .function _ _ _ _ _ body => Stmt.allOrderly body
  | s => s.orderly

/-- Functions stand at the top level only, and the other side of a branch is a block or a branch. -/
def Program.orderly (p : Program) : Bool :=
  p.declarations.all Stmt.orderlyTop

end BlockScript
