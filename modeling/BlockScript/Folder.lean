import BlockScript.Path

/-!
# Folders

The files that are in reach, as they are before the program starts: nothing that it does changes
them.
-/

namespace BlockScript

/-- Files by name, and the directory from which names are seen. -/
structure Folder where
  directory : String
  files : List (String × String)

/-- Why a file cannot be read. -/
inductive FileError where
  | missing (path : String)
  | notDirectory (path : String)
  | isDirectory (path : String)
  deriving Repr, DecidableEq

/-- The wording of it. -/
def FileError.message : FileError → String
  | .missing path => s!"open {path}: no such file or directory"
  | .notDirectory path => s!"open {path}: not a directory"
  | .isDirectory path => s!"read {path}: is a directory"

namespace Folder

/-- The absolute path of a file. -/
def resolve (f : Folder) (path : String) : String :=
  Path.absolute f.directory path

/-- The contents of the file at an absolute path. -/
def read (f : Folder) (path : String) : Except FileError String :=
  match f.files.find? fun file => f.resolve file.1 = path with
  | some file => .ok file.2
  | none =>
    let names := f.files.map fun file => f.resolve file.1
    if names.any (Path.isBelow path) then .error (.notDirectory path)
    else if (f.directory :: names).any fun name => name = path || Path.isBelow name path then
      .error (.isDirectory path)
    else .error (.missing path)

end Folder

end BlockScript
