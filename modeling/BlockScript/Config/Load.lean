import BlockScript.Config
import BlockScript.Folder
import BlockScript.Yaml.Scalar

/-!
# Settings in files

A file with settings is a YAML mapping. Every setting may be left out, and nothing else may be in
it.

* `Config.ofNode?`: the settings in a document.
* `Config.load`: the settings in a file.
-/

namespace BlockScript.Config

open Yaml (Node)

/-! ## Documents -/

/-- The settings as they are written: those that are missing are `none`. -/
structure Written where
  debug : Option Bool
  trace : Option Bool
  color : Option Bool
  breakpoints : Option (List Int)
  loop : Option Int
  calls : Option Int
  deriving Repr, DecidableEq

/-- Reads a part of a document unless nothing is given there. -/
def unlessNull? {α : Type} (read : Node → Option α) (n : Node) : Option (Option α) :=
  if n.isNull then some none else (read n).map some

/-- Whether a name occurs twice. -/
def hasRepetition : List String → Bool
  | [] => false
  | name :: names => names.contains name || hasRepetition names

/-- The entries of a mapping by name, all of them among the known names and none twice. Entries
under an empty name are passed over. -/
def fields? (known : List String) : Node → Option (List (String × Node))
  | .mapping entries => do
    let names ← entries.mapM fun entry => entry.1.text?
    let named := (names.zip entries).filter fun (_, entry) => !entry.1.isNull
    if hasRepetition names then none
    else if named.all fun (name, _) => known.contains name then
      return named.map fun (name, entry) => (name, entry.2)
    else none
  | _ => none

/-- Reads the field with a given name, if there is one and something is given in it. -/
def field? {α : Type} (fields : List (String × Node)) (name : String) (read : Node → Option α) :
    Option (Option α) :=
  match fields.lookup name with
  | some n => unlessNull? read n
  | none => some none

/-- A list of lines. Items where nothing is given are passed over. -/
def lines? : Node → Option (List Int)
  | .sequence items => (items.filter (!·.isNull)).mapM Node.integer?
  | _ => none

/-- The limits of a run, each of which may be missing. -/
def writtenLimits? (n : Node) : Option (Option Int × Option Int) := do
  let fields ← fields? ["max_loop_iterations", "max_call_depth"] n
  return (← field? fields "max_loop_iterations" Node.integer?,
    ← field? fields "max_call_depth" Node.integer?)

/-- The settings written in a mapping. -/
def Written.ofMapping? (n : Node) : Option Written := do
  let fields ← fields? ["debug", "trace", "color", "breakpoints", "limits"] n
  let limits := (← field? fields "limits" writtenLimits?).getD (none, none)
  return {
    debug := ← field? fields "debug" Node.bool?
    trace := ← field? fields "trace" Node.bool?
    color := ← field? fields "color" Node.bool?
    breakpoints := ← field? fields "breakpoints" lines?
    loop := limits.1
    calls := limits.2 }

/-- A written limit, where zero is as good as none, or else the default. -/
def limitOr (default : Int) : Option Int → Int
  | some 0 => default
  | some n => n
  | none => default

/-- The settings with defaults for all that is missing, and the breakpoints in order. -/
def ofWritten (w : Written) : Config where
  debug := w.debug.getD standard.debug
  trace := w.trace.getD standard.trace
  color := w.color.getD standard.color
  breakpoints := (w.breakpoints.getD standard.breakpoints).mergeSort (· ≤ ·)
  limits := ⟨limitOr standard.limits.loop w.loop, limitOr standard.limits.calls w.calls⟩

/-- The settings in a document; an empty one has none. -/
def ofNode? (n : Node) : Option Config :=
  if n.isNull then some standard else (Written.ofMapping? n).map ofWritten

/-! ## Files -/

/-- Why settings cannot be loaded. -/
inductive LoadError where
  | emptyPath
  | unreadable (cause : FileError)
  | malformed (path : String)
  | refused (path : String) (problem : Problem)
  deriving Repr, DecidableEq

/-- The wording of it. -/
def LoadError.message : LoadError → String
  | .emptyPath => "config: empty path"
  | .unreadable cause => cause.message
  | .malformed path => s!"config: parse {path}"
  | .refused path problem => s!"config: {path}: {problem.message}"

/-- The settings in a source text that comes from the given path. -/
def ofSource (path source : String) : Except LoadError Config :=
  match (Node.ofSource? source).bind ofNode? with
  | none => .error (.malformed path)
  | some config =>
    match config.problem? with
    | some problem => .error (.refused path problem)
    | none => .ok config

/-- The settings in a file. -/
def load (folder : Folder) (path : String) : Except LoadError Config :=
  if path = "" then .error .emptyPath
  else
    let path := folder.resolve path
    match folder.read path with
    | .error (.isDirectory _) => .error (.malformed path)
    | .error cause => .error (.unreadable cause)
    | .ok source => ofSource path source

end BlockScript.Config
