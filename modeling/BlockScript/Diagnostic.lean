import BlockScript.Fault

/-!
# Diagnostics

What the analyses of a program report: a line, a message, and which analysis found it.

* `Diagnostic.text`: one line of text.
* `Diagnostic.render`: several lines that quote the source, set off by a `Painter`.
-/

namespace BlockScript

/-- The analysis that a diagnostic comes from. -/
inductive Category where
  | lexical
  | syntactic
  | semantic
  | other (number : Int)
  deriving Repr, DecidableEq

/-- The wording of a category. -/
def Category.name : Category → String
  | .lexical => "lexical error"
  | .syntactic => "syntax error"
  | .semantic => "semantic error"
  | .other _ => "error"

/-- The categories in their order. -/
def Category.ofNumber (n : Int) : Category :=
  if n = 0 then .lexical else if n = 1 then .syntactic else if n = 2 then .semantic else .other n

/-- A finding about a line. -/
structure Diagnostic where
  line : Int
  message : String
  category : Category
  deriving Repr, DecidableEq

namespace Diagnostic

/-- A diagnostic in one line. -/
def text (d : Diagnostic) : String :=
  atLine d.line (d.category.name ++ ": " ++ d.message)

/-- The diagnostics of one category. -/
def ofCategory (c : Category) (ds : List Diagnostic) : List Diagnostic :=
  ds.filter (·.category = c)

end Diagnostic

/-! ## Source files -/

/-- A source text with the name under which it is reported. -/
structure SourceFile where
  name : String
  contents : String
  deriving Repr, DecidableEq

/-- The lines of a text, each with the line break that ends it. There is always a last line without
one, which may be empty. -/
def splitLines : List Char → List (List Char)
  | [] => [[]]
  | c :: rest =>
    if c = '\n' then [c] :: splitLines rest
    else
      match splitLines rest with
      | line :: lines => (c :: line) :: lines
      | [] => [[c]]

/-- The lines of a source file. -/
def SourceFile.lines (f : SourceFile) : List String :=
  (splitLines f.contents.toList).map String.ofList

/-- A line without the line break at its end. -/
def trimBreak (s : String) : String :=
  String.ofList (s.toList.reverse.dropWhile fun c => c = '\r' || c = '\n').reverse

/-- The line with a given number, which starts at one. -/
def SourceFile.line? (f : SourceFile) (n : Int) : Option String :=
  if 1 ≤ n then f.lines[(n - 1).toNat]? else none

/-! ## Rendering -/

/-- How the parts of a rendered diagnostic are set off from each other. -/
structure Painter where
  headline : String → String
  margin : String → String
  message : String → String

/-- Nothing is set off. -/
def Painter.plain : Painter := ⟨id, id, id⟩

/-- The name under which a source is reported: one without a name is an input. -/
def SourceFile.shownName (file : Option SourceFile) : String :=
  match file with
  | some f => if f.name = "" then "<input>" else f.name
  | none => "<input>"

/-- The diagnostic with the place it is about and, if the file has that line, the line itself. -/
def Diagnostic.render (d : Diagnostic) (file : Option SourceFile) (paint : Painter) : String :=
  let number := toString d.line
  let pad := "".pushn ' ' number.length
  let quoted := match file.bind (·.line? d.line) with
    | some line =>
      [" " ++ paint.margin number ++ " " ++ paint.margin "|" ++ " " ++ trimBreak line]
    | none => []
  "\n".intercalate <|
    [paint.headline ("error: " ++ d.category.name),
     " " ++ pad ++ paint.margin "-->" ++ " " ++ SourceFile.shownName file ++ ":" ++ number,
     paint.margin (" " ++ pad ++ " |")] ++ quoted ++
    [" " ++ pad ++ " " ++ paint.margin "|" ++ " " ++ paint.message d.message]

end BlockScript
