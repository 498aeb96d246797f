/-!
# Paths

Paths are names divided by slashes. They are resolved by their names alone.

* `Path.clean`: the shortest path to the same place.
* `Path.absolute`: a path seen from a directory.
* `Path.extension`: the end of a file name, from its last dot on.
-/

namespace BlockScript.Path

/-- One more name behind the names of a path, the last of them first. Empty names and `.` change
nothing, and `..` takes back the name in front of it. Above the root there is nothing. -/
def enter (rooted : Bool) (names : List (List Char)) (name : List Char) : List (List Char) :=
  if name = [] || name = ['.'] then names
  else if name = ['.', '.'] then
    match names with
    | [] => if rooted then [] else [name]
    | last :: rest => if last = ['.', '.'] then name :: names else rest
  else name :: names

/-- A path without detours. -/
def clean (path : String) : String :=
  let cs := path.toList
  let rooted := cs.head? = some '/'
  let names := ((cs.splitOn '/').foldl (enter rooted) []).reverse
  let cleaned := (if rooted then ['/'] else []) ++ ['/'].intercalate names
  if cleaned.isEmpty then "." else String.ofList cleaned

/-- A path that does not depend on the directory it is seen from. -/
def absolute (directory path : String) : String :=
  if path.toList.head? = some '/' then clean path
  else clean (directory ++ "/" ++ path)

/-- The end of the last name of a path, from its last dot on; empty without a dot. -/
def extension (path : String) : String :=
  let name := path.toList.reverse.takeWhile (· ≠ '/')
  if name.contains '.' then String.ofList (name.takeWhile (· ≠ '.') ++ ['.']).reverse else ""

/-- Whether a path lies below another one. -/
def isBelow (path above : String) : Bool :=
  (above.toList ++ ['/']).isPrefixOf path.toList

end BlockScript.Path
