import BlockScript.CommandLine.Arguments
import BlockScript.Config.Load
import BlockScript.Session
import BlockScript.Terminal
import BlockScript.Text.Quoted
import BlockScript.Tree.Dump

/-!
# The command line

What a command prints, given its arguments, the files in reach, the input from the terminal, the
functions of the host and its colours.

* `Host`: what the host brings along.
* `CommandLine.readSources`: the source files among the arguments.
* `CommandLine.digest`, `runFile`, `debugFile`, `tokenList`: what is done with one file.
* `CommandLine.perform`: a whole command line.
-/

namespace BlockScript.CommandLine

/-- What a command line comes to: its exit status and what it prints. -/
structure Report where
  status : Nat
  output : String
  deriving Repr, DecidableEq

/-- What the host brings along: native functions, and a way to set off text if colours are on. -/
structure Host where
  natives : Natives
  paint : Painter

/-- The painter for some settings. -/
def Host.painter (host : Host) (config : Config) : Painter :=
  if config.color then host.paint else .plain

/-! ## Source files -/

/-- The ends of the names of source files. -/
def sourceExtensions : List String := [".mc", ".minecode"]

/-- Reads one source file, or says why it is passed over. -/
def readSource (folder : Folder) (name : String) : Except String SourceFile :=
  let path := folder.resolve name
  let extension := Path.extension path
  if sourceExtensions.contains extension then
    match folder.read path with
    | .ok contents => .ok ⟨path, contents⟩
    | .error cause => .error cause.message
  else .error s!"could not use '{path}' with extension '{extension}'"

/-- Reads source files: the lines about those that are passed over, and the others. -/
def readSources (folder : Folder) : List String → String × List SourceFile
  | [] => ("", [])
  | name :: names =>
    let (complaints, files) := readSources folder names
    match readSource folder name with
    | .ok file => (complaints, file :: files)
    | .error why => (why ++ "\n" ++ complaints, files)

/-! ## One file -/

/-- A text about a file under its name. -/
def headed (file : SourceFile) (text : String) : String :=
  "# " ++ file.name ++ "\n" ++ text

/-- The tree of a program under a headline. -/
def treeText (p : Program) : String :=
  "#######################\n##        AST        ##\n#######################\n\n" ++
    p.dump ++ "\n\n"

/-- Analyses a file: what is printed about it, and the program if it is fit to run. -/
def digest (host : Host) (config : Config) (showTree : Bool) (file : SourceFile) :
    String × Option Program :=
  let compiled := compile host.natives file.contents
  if compiled.diagnostics.isEmpty then
    (if showTree then treeText compiled.program else "", some compiled.program)
  else
    let lines := compiled.diagnostics.map fun d =>
      d.render (some file) (host.painter config) ++ "\n"
    (headed file (String.join lines), none)

/-- The end of what is printed about a run. -/
def faultText (file : SourceFile) : Option Fault → String
  | some fault => headed file ("runtime error: " ++ fault.message ++ "\n")
  | none => ""

/-- Runs a file without pauses. -/
def runFile (host : Host) (config : Config) (showTree : Bool) (file : SourceFile) : String :=
  let (text, program?) := digest host config showTree file
  match program? with
  | none => text
  | some program =>
    let interpreter := ((config.interpreter host.natives).1.control (.setEnabled false)).1
    let outcome := (interpreter.run [] program).1
    text ++ outcome.journal.printedText ++ faultText file outcome.fault

/-- The variables at a pause, in the order of their names. -/
def variablesText (visible : Scope Value) : String :=
  let sorted := visible.mergeSort fun a b => decide (a.1 ≤ b.1)
  String.join (sorted.map fun (name, v) => s!"   {name} ({v.kind.name}) = {v.toText}\n")

/-- What is printed at a pause. -/
def pauseText (line : Int) (visible : Scope Value) : String :=
  s!"-- paused at line {line}\n" ++ variablesText visible ++ "-- press enter to continue "

/-- What an entry of a journal prints. -/
def entryText : Entry → String
  | .printed text => text ++ "\n"
  | .event (.hit line visible) => pauseText line visible
  | .event _ | .logged _ => ""

/-- The pauses in a journal. -/
def pauses (j : Journal) : Nat :=
  j.events.countP fun
    | .paused _ => true
    | _ => false

/-- What is done at the pauses: every line of input resumes the run, and when there is none left,
debug mode is switched off. -/
def pauseScript (terminal : Terminal) : List (List Control) :=
  List.replicate terminal.answers [] ++ [[.setEnabled false]]

/-- Runs a file with pauses at its breakpoints: what is printed, and the input left over. -/
def debugFile (host : Host) (config : Config) (input : List UInt8) (file : SourceFile) :
    String × List UInt8 :=
  let (text, program?) := digest host config false file
  match program? with
  | none => (text, input)
  | some program =>
    let terminal := Terminal.fresh input
    let session := (Session.start config host.natives).watch ⟨true, false⟩
    let outcome := (session.interpreter.run (pauseScript terminal) program).1
    (text ++ String.join (outcome.journal.toList.map entryText) ++ faultText file outcome.fault,
     (terminal.skip (pauses outcome.journal)).waiting)

/-- Runs files with pauses, one after the other on the same input. -/
def debugFiles (host : Host) (config : Config) : List UInt8 → List SourceFile → String
  | _, [] => ""
  | input, file :: files =>
    let (text, input) := debugFile host config input file
    text ++ debugFiles host config input files

/-- A text with blanks in front of it, up to a width. -/
def alignRight (width : Nat) (s : String) : String :=
  "".pushn ' ' (width - s.length) ++ s

/-- A text with blanks behind it, up to a width. -/
def alignLeft (width : Nat) (s : String) : String :=
  s.pushn ' ' (width - s.length)

/-- The tokens of a file, one in a line. -/
def tokenList (file : SourceFile) : String :=
  headed file <| String.join <| (Token.scan file.contents.toList).map fun t =>
    alignRight 4 (toString t.line) ++ "  " ++ alignLeft 16 t.kind.name ++ " " ++
      Text.quote t.text ++ "\n"

/-! ## Commands -/

/-- The settings of a command: those of the file that is named, if any, changed by the flags. -/
def settings (folder : Folder) (o : Options) : Except Config.LoadError Config := do
  let config ← if o.config = "" then .ok Config.standard else Config.load folder o.config
  return { config with
    color := config.color && !o.noColor
    trace := config.trace || o.trace
    breakpoints := config.breakpoints ++ o.breakpoints }

/-- What a command prints about source files. -/
def Command.text (command : Command) (host : Host) (config : Config) (showTree : Bool)
    (input : List UInt8) (files : List SourceFile) : String :=
  match command with
  | .run => String.join (files.map (runFile host config showTree))
  | .check => String.join (files.map fun file => (digest host config showTree file).1)
  | .tree => String.join (files.map fun file => (digest host config true file).1)
  | .debug => debugFiles host config input files
  | .tokens => String.join (files.map tokenList)

/-- Carries out a command line. Without usable settings, nothing is done. -/
def perform (host : Host) (folder : Folder) (input : List UInt8) (words : List String) :
    Report :=
  match Request.ofArguments words with
  | .help => ⟨0, ""⟩
  | .noSuchTopic => ⟨3, ""⟩
  | .misused => ⟨1, ""⟩
  | .files command options names =>
    match settings folder options with
    | .error _ => ⟨1, ""⟩
    | .ok config =>
      let (complaints, files) := readSources folder names
      ⟨0, complaints ++ command.text host config options.showTree input files⟩

end BlockScript.CommandLine
