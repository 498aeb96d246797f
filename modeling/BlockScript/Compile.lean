import BlockScript.Checker
import BlockScript.Folder
import BlockScript.Parser

/-!
# Compiling

`compile` takes a source text through all analyses. A program is fit to run if they report nothing.
-/

namespace BlockScript

/-- A program and everything that was found wrong with it: what scanning and parsing report, in the
order of lines, and then what checking reports. -/
structure Compiled where
  program : Program
  diagnostics : List Diagnostic

/-- Analyses a source text. -/
def compile (natives : Natives) (source : String) : Compiled :=
  let parsed := Program.ofSource source
  ⟨parsed.program, parsed.diagnostics ++ parsed.program.check natives⟩

/-- What is said of a source file that cannot be read. -/
def unreadableSource (path : String) (cause : FileError) : String :=
  s!"lexer: read {path}: {cause.message}"

end BlockScript
