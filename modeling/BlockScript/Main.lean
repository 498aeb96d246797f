import BlockScript.CommandLine
import BlockScript.Text.Utf8

/-!
# The program

Collects what a command line needs and prints what it comes to.
-/

namespace BlockScript

/-- The file with a given name, if it can be read. -/
def readFile? (name : String) : IO (Option (String × String)) := do
  try
    let bytes ← IO.FS.readBinFile name
    return some (name, Text.Utf8.decode bytes.toList)
  catch _ => return none

/-- The files that the words of a command line may name, also behind an equals sign. -/
def readFolder (words : List String) : IO Folder := do
  let directory := (← IO.currentDir).toString
  let values := words.filterMap fun word => (CommandLine.splitFlag word.toList).2
  let files ← (words ++ values).filterMapM readFile?
  return ⟨directory, files⟩

/-- A number below a bound, drawn behind `n` others. -/
def drawn (seed bound n : Nat) : Nat :=
  let gen := Nat.repeat (fun gen => (stdNext gen).2) n (mkStdGen seed)
  (randNat gen 0 (bound - 1)).1

/-- The world as it is now, with a random number and another weather for every request. -/
def readSurroundings : IO Surroundings := do
  let seed ← IO.rand 0 (Nat.pow 2 31)
  let now ← IO.monoMsNow
  return {
    random n := (drawn seed (Nat.pow 2 53) n).toFloat / (Nat.pow 2 53).toFloat
    time _ := Int64.ofNat (now % 24000)
    weather n := weathers[drawn seed weathers.length n]?.getD "" }

/-- The colours of a terminal: red for what is wrong, blue for the margin. -/
def terminalPainter : Painter where
  headline s := "\x1b[31;1m" ++ s ++ "\x1b[0;22m"
  margin s := "\x1b[34m" ++ s ++ "\x1b[0m"
  message s := "\x1b[31m" ++ s ++ "\x1b[0m"

/-- The whole input, for a command that may pause. -/
def readInput : List String → IO (List UInt8)
  | "debug" :: _ | "d" :: _ => do
    return (← (← IO.getStdin).readBinToEnd).toList
  | _ => return []

end BlockScript

/-- Carries out a command line. -/
def main (words : List String) : IO UInt32 := do
  let folder ← BlockScript.readFolder words
  let input ← BlockScript.readInput words
  let natives := BlockScript.Natives.standard (← BlockScript.readSurroundings)
  let report := BlockScript.CommandLine.perform ⟨natives, BlockScript.terminalPainter⟩ folder input
    words
  IO.print report.output
  return UInt32.ofNat report.status
