import BlockScript.Number.Read

/-!
# Arguments

The words of a command line: a command, flags that belong to it, and files.

* `Command`: what can be asked for.
* `Request.ofArguments`: what is asked for.
-/

namespace BlockScript.CommandLine

/-- What can be done with files. -/
inductive Command where
  | run
  | check
  | debug
  | tokens
  | tree
  deriving Repr, DecidableEq

/-- The command with a given name. Some have a short name too. -/
def Command.ofName? : String → Option Command
  | "run" | "r" => some .run
  | "check" | "c" => some .check
  | "debug" | "d" => some .debug
  | "tokens" => some .tokens
  | "ast" => some .tree
  | _ => none

/-- What can be said with a flag. -/
inductive Flag where
  | noColor
  | showTree
  | trace
  | config
  | breakpoint (short : Bool)
  | help
  deriving Repr, DecidableEq

/-- The flags of a command other than the request for help. -/
def Command.flags : Command → List (String × Flag)
  | .run =>
    [("no-color", .noColor), ("debug-ast", .showTree), ("trace", .trace), ("config", .config)]
  | .check => [("no-color", .noColor), ("debug-ast", .showTree), ("config", .config)]
  | .debug =>
    [("no-color", .noColor), ("trace", .trace), ("config", .config),
     ("break", .breakpoint false), ("b", .breakpoint true)]
  | .tokens => []
  | .tree => [("no-color", .noColor)]

/-- The flags that ask for help, which is there with and without a command. -/
def helpFlags : List (String × Flag) :=
  [("help", .help), ("h", .help)]

/-- Everything that flags say. Breakpoints have two spellings, of which only one may be used. -/
structure Options where
  noColor : Bool
  showTree : Bool
  trace : Bool
  help : Bool
  config : String
  breakpoints : List Int
  spelling : Option Bool
  deriving Repr, DecidableEq

/-- What holds without flags. -/
def Options.none : Options :=
  ⟨false, false, false, false, "", [], .none⟩

/-- A truth value. -/
def bool? (s : String) : Option Bool :=
  if ["1", "t", "T", "TRUE", "true", "True"].contains s then some true
  else if ["0", "f", "F", "FALSE", "false", "False"].contains s then some false
  else none

/-- Whether a flag is followed by a value. Others hold a truth value and may stand alone. -/
def Flag.takesValue : Flag → Bool
  | .config | .breakpoint _ => true
  | .noColor | .showTree | .trace | .help => false

/-- The options with one flag set, unless its value is of the wrong kind. -/
def Options.set? (o : Options) (flag : Flag) (value : String) : Option Options :=
  match flag with
  | .noColor => (bool? value).map fun b => { o with noColor := b }
  | .showTree => (bool? value).map fun b => { o with showTree := b }
  | .trace => (bool? value).map fun b => { o with trace := b }
  | .help => (bool? value).map fun b => { o with help := b }
  | .config => some { o with config := value }
  | .breakpoint short => do
    let line ← Number.readInt? value.toList
    if o.spelling = some (!short) then .none
    else
      return { o with breakpoints := o.breakpoints ++ [line.toInt], spelling := some short }

/-- The name of a flag and the value written to it with an equals sign. -/
def splitFlag (cs : List Char) : String × Option String :=
  let name := String.ofList (cs.takeWhile (· ≠ '='))
  match cs.dropWhile (· ≠ '=') with
  | _ :: value => (name, some (String.ofList value))
  | [] => (name, .none)

/-- What a word is: a flag with its name and value, the end of all flags, or something else. -/
inductive Word where
  | flag (name : String) (value : Option String)
  | stop
  | malformed
  | other
  deriving Repr, DecidableEq

/-- A word behind its dash or dashes. -/
def Word.ofFlag (cs : List Char) : Word :=
  match cs with
  | [] | '-' :: _ | '=' :: _ => .malformed
  | cs => .flag (splitFlag cs).1 (splitFlag cs).2

/-- Tells what a word is. -/
def Word.of (word : String) : Word :=
  match word.toList with
  | ['-', '-'] => .stop
  | '-' :: '-' :: rest => .ofFlag rest
  | ['-'] => .other
  | '-' :: rest => .ofFlag rest
  | _ => .other

/-- Reads the flags at the front: what they say, and the words behind them; `none` if they are not
in order. -/
def readFlags? (known : List (String × Flag)) (o : Options) :
    List String → Option (Options × List String)
  | [] => some (o, [])
  | word :: words =>
    match Word.of word with
    | .other => some (o, word :: words)
    | .stop => some (o, words)
    | .malformed => .none
    | .flag name value =>
      match known.lookup name, value with
      | .none, _ => .none
      | some flag, some value => (o.set? flag value).bind (readFlags? known · words)
      | some flag, .none =>
        if flag.takesValue then
          match words with
          | value :: words => (o.set? flag value).bind (readFlags? known · words)
          | [] => .none
        else (o.set? flag "true").bind (readFlags? known · words)

/-- The name that a word has as a flag: what stands behind its dashes and before an equals sign. -/
def flagName? (word : String) : Option String :=
  match word.toList with
  | ['-'] | ['-', '-'] => .none
  | '-' :: '-' :: '-' :: rest => some (splitFlag rest).1
  | '-' :: '-' :: rest => some (splitFlag rest).1
  | '-' :: rest => some (splitFlag rest).1
  | _ => .none

/-- Whether a word is one of the flags of a command. -/
def isFlag (known : List (String × Flag)) (word : String) : Bool :=
  match flagName? word with
  | some name => (known.lookup name).isSome
  | .none => false

/-- Moves the flags of a command to the front, each with the word behind it unless the flag holds
an equals sign or that word is a flag too. Two dashes end this, and stand in front of all words that
are not moved. -/
def flagsFirst (known : List (String × Flag)) (expecting : Bool) (front rest : List String) :
    List String → List String
  | [] => front ++ rest
  | word :: words =>
    if expecting && !isFlag known word then flagsFirst known false (front ++ [word]) rest words
    else if word = "--" then front ++ ["--"] ++ rest ++ words
    else if isFlag known word then
      flagsFirst known (!word.toList.contains '=') (front ++ [word]) rest words
    else flagsFirst known expecting front (rest ++ [word]) words

/-- What a command line asks for. -/
inductive Request where
  | files (command : Command) (options : Options) (names : List String)
  | help
  | noSuchTopic
  | misused
  deriving Repr, DecidableEq

/-- The request for help with something. -/
def Request.helpWith : List String → Request
  | [] => .help
  | topic :: _ =>
    if (Command.ofName? topic).isSome || topic = "help" || topic = "h" then .help
    else .noSuchTopic

/-- The request behind the name of a command. -/
def Request.ofCommand (command : Command) (words : List String) : Request :=
  let known := command.flags ++ helpFlags
  match readFlags? known Options.none (flagsFirst known false [] [] words) with
  | .none => .misused
  | some (options, names) => if options.help then .help else .files command options names

/-- Reads a command line. Without a command that is known, help is what is asked for. -/
def Request.ofArguments (words : List String) : Request :=
  match readFlags? helpFlags Options.none words with
  | .none => .misused
  | some (_, []) => .help
  | some (options, name :: words) =>
    if options.help then .help
    else if name = "help" || name = "h" then .helpWith words
    else
      match Command.ofName? name with
      | some command => .ofCommand command words
      | .none => .help

end BlockScript.CommandLine
