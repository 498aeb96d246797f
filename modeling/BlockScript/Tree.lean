import BlockScript.Value.Operator

/-!
# Program trees

What a program is: expressions, statements and the sequence of its declarations. Every node has
the line of the token that defines it.

* `DeclaredType`, `Annotation`: the types a program can write.
* `Expr`, `Stmt`, `Program`: the tree.
* `Function`: what a function declaration declares.
-/

namespace BlockScript

/-- The types that variables and functions are declared with. -/
inductive DeclaredType where
  | unknown
  | integer
  | float
  | text
  | boolean
  | array
  | void
  deriving Repr, DecidableEq

namespace DeclaredType

/-- The name of a type. -/
def name : DeclaredType → String
  | .unknown => "unknown"
  | .integer => "redstone"
  | .float => "emerald"
  | .text => "obsidian"
  | .boolean => "nether"
  | .array => "ender"
  | .void => "void"

/-- The type with a name, which may also be its plain alias. -/
def ofName (s : String) : DeclaredType :=
  match s with
  | "redstone" | "int" => .integer
  | "emerald" | "float" => .float
  | "obsidian" | "string" => .text
  | "nether" | "boolean" => .boolean
  | "ender" | "array" => .array
  | "void" => .void
  | _ => .unknown

/-- The place of a type in their order. -/
def number : DeclaredType → Nat
  | .unknown => 0
  | .integer => 1
  | .float => 2
  | .text => 3
  | .boolean => 4
  | .array => 5
  | .void => 6

/-- The type at a place in their order. -/
def ofNumber : Nat → DeclaredType
  | 1 => .integer
  | 2 => .float
  | 3 => .text
  | 4 => .boolean
  | 5 => .array
  | 6 => .void
  | _ => .unknown

end DeclaredType

/-- A type as a program writes it. -/
structure Annotation where
  line : Int
  name : String
  type : DeclaredType
  deriving Repr, DecidableEq

/-- A parameter of a function. -/
structure Parameter where
  line : Int
  name : String
  deriving Repr, DecidableEq

/-- An expression. `missing` stands where a tree built by hand leaves one out. -/
inductive Expr where
  | literal (line : Int) (value : Value)
  | ident (line : Int) (name : String)
  | binary (line : Int) (op : Operator) (left right : Expr)
  | call (line : Int) (name : String) (args : List Expr)
  | missing
  deriving Repr, Inhabited

/-- A statement. The bodies of functions, branches and loops are blocks, with a line of their
own. -/
inductive Stmt where
  | block (line : Int) (body : List Stmt)
  | function (line : Int) (name : String) (params : List Parameter) (returns : Option Annotation)
      (bodyLine : Int) (body : List Stmt)
  | declare (line : Int) (name : String) (type : Option Annotation) (value : Option Expr)
  | assign (line : Int) (name : String) (value : Expr)
  | branch (line : Int) (cond : Expr) (thenLine : Int) (thenBody : List Stmt)
      (otherwise : Option Stmt)
  | loop (line : Int) (cond : Expr) (bodyLine : Int) (body : List Stmt)
  | giveBack (line : Int) (value : Option Expr)
  | print (line : Int) (value : Expr)
  | evaluate (line : Int) (value : Expr)
  deriving Repr, Inhabited

/-- The line of a statement. -/
def Stmt.line : Stmt → Int
  | .block line _ | .function line .. | .declare line .. | .assign line .. | .branch line ..
  | .loop line .. | .giveBack line _ | .print line _ | .evaluate line _ => line

/-- A program: its declarations and statements in order. -/
structure Program where
  line : Int
  declarations : List Stmt
  deriving Repr, Inhabited

/-- A declared function. -/
structure Function where
  line : Int
  name : String
  params : List Parameter
  returns : Option Annotation
  body : List Stmt
  deriving Repr, Inhabited

/-- The type a function returns: nothing, unless it says otherwise. -/
def Function.type (f : Function) : DeclaredType :=
  match f.returns with
  | some a => a.type
  | none => .void

/-- The function that a statement declares. -/
def Stmt.function? : Stmt → Option Function
  | .function line name params returns _ body => some ⟨line, name, params, returns, body⟩
  | _ => none

/-- The functions that a program declares at its top level, in order. -/
def Program.functions (p : Program) : List Function :=
  p.declarations.filterMap Stmt.function?

end BlockScript
