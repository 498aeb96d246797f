import BlockScript.Scope
import BlockScript.Value

/-!
# Journals

A run leaves a journal: all it showed to the outside, in order. What was printed, what the debugger
reported and what was logged are parts of it.
-/

namespace BlockScript

/-- A line of the log: a message with named details. -/
structure Record where
  message : String
  details : List (String × String)
  deriving Repr, DecidableEq

/-- An event of the debugger. -/
inductive DebugEvent where
  | line (line : Int) (visible : Scope Value)
  | hit (line : Int) (visible : Scope Value)
  | paused (line : Int)

/-- An entry of a journal. -/
inductive Entry where
  | printed (text : String)
  | event (event : DebugEvent)
  | logged (record : Record)

/-- What a run showed, in order. -/
abbrev Journal := Array Entry

namespace Journal

/-- A journal in which nothing but these lines was printed. -/
def ofOutput (lines : List String) : Journal :=
  (lines.map Entry.printed).toArray

/-- The printed lines. -/
def output (j : Journal) : List String :=
  j.toList.filterMap fun
    | .printed text => some text
    | _ => none

@[simp] theorem output_push_printed (j : Journal) (text : String) :
    output (j.push (.printed text)) = output j ++ [text] := by
  simp [output]

@[simp] theorem output_push_event (j : Journal) (event : DebugEvent) :
    output (j.push (.event event)) = output j := by
  simp [output]

@[simp] theorem output_push_logged (j : Journal) (record : Record) :
    output (j.push (.logged record)) = output j := by
  simp [output]

/-- The events of the debugger. -/
def events (j : Journal) : List DebugEvent :=
  j.toList.filterMap fun
    | .event event => some event
    | _ => none

/-- The lines of the log. -/
def log (j : Journal) : List Record :=
  j.toList.filterMap fun
    | .logged record => some record
    | _ => none

/-- The printed lines as they come out, each ended by a line break. -/
def printedText (j : Journal) : String :=
  String.join (j.output.map (· ++ "\n"))

end Journal

end BlockScript
