import BlockScript.Scope

/-!
# Forests of scopes

Scopes that share their outer scopes. A scope is numbered when it is made, counting from zero, and
its parent is an older one, so what is visible from a scope is a chain towards older scopes.

* `Forest.chain`: the chain of a scope, the scope itself first.
* `Forest.find?`, `Forest.define`, `Forest.assign`: as for chains, but a change is seen through
  every scope that shares the changed one.
* `Forest.declare`: binds a name in a scope that does not bind it yet.
-/

namespace BlockScript

/-- A scope and the number of the scope around it. -/
structure Forest.Node (α : Type) where
  parent : Option Nat
  scope : Scope α

/-- Scopes, the newest first. -/
abbrev Forest (α : Type) := List (Forest.Node α)

namespace Forest

variable {α : Type}

/-- Makes a scope; its number is the number of scopes made before. -/
def create (f : Forest α) (parent : Option Nat) : Forest α :=
  ⟨parent, []⟩ :: f

/-- The scope with a number. -/
def scope? (f : Forest α) (i : Nat) : Option (Scope α) :=
  match f with
  | [] => none
  | node :: older => if i = older.length then some node.scope else scope? older i

/-- The numbers of a scope and of the scopes around it, from the inside out. -/
def ancestors (f : Forest α) (i : Nat) : List Nat :=
  match f with
  | [] => []
  | node :: older =>
    if i = older.length then
      match node.parent with
      | some p => i :: ancestors older p
      | none => [i]
    else ancestors older i

/-- The scopes visible from a scope, itself first. -/
def chain (f : Forest α) (i : Nat) : Chain α :=
  (f.ancestors i).filterMap f.scope?

/-- The innermost binding of a name as seen from a scope. -/
def find? (f : Forest α) (i : Nat) (name : String) : Option α :=
  (f.chain i).find? name

/-- Binds a name in one scope. -/
def define (f : Forest α) (i : Nat) (name : String) (a : α) : Forest α :=
  match f with
  | [] => []
  | node :: older =>
    if i = older.length then { node with scope := node.scope.insert name a } :: older
    else node :: define older i name a

/-- The scope that holds the innermost binding of a name as seen from a scope. -/
def owner? (f : Forest α) (i : Nat) (name : String) : Option Nat :=
  (f.ancestors i).find? fun k => (f.scope? k).any (·.binds name)

/-- Changes the innermost binding of a name as seen from a scope, or binds it there. -/
def assign (f : Forest α) (i : Nat) (name : String) (a : α) : Forest α :=
  f.define ((f.owner? i name).getD i) name a

/-- Binds a name in a scope unless the scope binds it already, and tells whether it did. -/
def declare (f : Forest α) (i : Nat) (name : String) (a : α) : Forest α × Bool :=
  if (f.scope? i).any (·.binds name) then (f, false) else (f.define i name a, true)

end Forest

end BlockScript
