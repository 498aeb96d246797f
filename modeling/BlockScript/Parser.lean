import BlockScript.Parser.Window
import BlockScript.Token.Scan

/-!
# From tokens to a program

`Program.ofTokens` reads a whole token sequence up to the token that ends it. It always gives a
program, made of the declarations that could be read, and the diagnostics of those that could not.
Error tokens are reported and otherwise passed over.

Diagnostics come in the order of their lines, and on one line in the order in which they were found.
-/

namespace BlockScript

/-- A program with what was found wrong on the way to it. -/
structure Parsed where
  program : Program
  diagnostics : List Diagnostic

/-- The program of a token sequence. -/
def Program.ofTokens (ts : List Token) : Parsed :=
  let (steps, last) := Parser.run (Parser.Window.ofTokens ts)
  { program := ⟨1, steps.filterMap Parser.Step.stmt?⟩
    diagnostics := last.diagnostics.toList.mergeSort (·.line ≤ ·.line) }

/-- The program of a source text. -/
def Program.ofSource (source : String) : Parsed :=
  Program.ofTokens (Token.scan source.toList)

end BlockScript
