import BlockScript.Text.Quoted
import BlockScript.Tree

/-!
# The tree as text

`Program.dump` writes a tree as nested lists in parentheses, one statement a line, each level two
blanks further in.
-/

namespace BlockScript

/-- Two blanks in front of every line of a text, unless it is empty. -/
def indent (s : String) : String :=
  if s = "" then ""
  else s.foldl (fun text c => if c = '\n' then text ++ "\n  " else text.push c) "  "

/-- The items between parentheses, with blanks between them. -/
def parenthesized (items : List String) : String :=
  "(" ++ " ".intercalate items ++ ")"

/-- The statements of a block between its parentheses; an empty block has no second line. -/
def blockText (statements : List String) : String :=
  if statements.isEmpty then "(block)"
  else "(block\n" ++ indent ("\n".intercalate statements) ++ ")"

/-- A literal: texts are quoted. -/
def Value.dump (v : Value) : String :=
  match v with
  | .text s => Text.quote s
  | v => v.toText

mutual

/-- The text of an expression. -/
def Expr.dump : Expr → String
  | .literal _ value => value.dump
  | .ident _ name => name
  | .binary _ op left right => parenthesized [op.spelling, left.dump, right.dump]
  | .call _ name args => parenthesized (name :: dumpArgs args)
  | .missing => "(unknown <nil>)"

/-- The texts of the arguments of a call. -/
def Expr.dumpArgs : List Expr → List String
  | [] => []
  | e :: es => e.dump :: dumpArgs es

end

/-- The text of a type annotation: the type's own name, whichever alias was written. -/
def Annotation.dump (a : Annotation) : String :=
  ":" ++ a.type.name

/-- The head of a function's text: its name, its parameters and what it returns. -/
def functionHead (name : String) (params : List Parameter) (returns : Option Annotation) :
    List String :=
  ["func", name, parenthesized (params.map Parameter.name),
    (returns.map Annotation.name).getD "void"]

mutual

/-- The text of a statement. -/
def Stmt.dump : Stmt → String
  | .block _ body => blockText (Stmt.dumpBody body)
  | .function _ name params returns _ body =>
    parenthesized (functionHead name params returns ++ [blockText (Stmt.dumpBody body)])
  | .declare _ name type value =>
    parenthesized (["var", name] ++ (type.map Annotation.dump).toList ++
      (value.map Expr.dump).toList)
  | .assign _ name value => parenthesized ["=", name, value.dump]
  | .branch _ cond _ thenBody otherwise =>
    parenthesized (["if", cond.dump, blockText (Stmt.dumpBody thenBody)] ++
      Stmt.dumpOption otherwise)
  | .loop _ cond _ body => parenthesized ["while", cond.dump, blockText (Stmt.dumpBody body)]
  | .giveBack _ value => parenthesized ("return" :: (value.map Expr.dump).toList)
  | .print _ value => parenthesized ["print", value.dump]
  | .evaluate _ value => value.dump

/-- The texts of a sequence of statements. -/
def Stmt.dumpBody : List Stmt → List String
  | [] => []
  | s :: ss => s.dump :: Stmt.dumpBody ss

/-- The text of a statement that may be absent. -/
def Stmt.dumpOption : Option Stmt → List String
  | none => []
  | some s => [s.dump]

end

/-- The text of a program. -/
def Program.dump (p : Program) : String :=
  "(program\n" ++ indent ("\n".intercalate (Stmt.dumpBody p.declarations)) ++ ")"

end BlockScript
