/-!
# Scopes

A scope binds names; a chain of scopes, the innermost first, is what is visible at a place.

* `Scope`: `find?` and `insert`, which keeps the place of a name that is already bound.
* `Chain`: `find?` takes the innermost binding; `define` binds in the innermost scope, and
  `assign` changes the innermost binding that there is.
* `Chain.visible`: all names that can be seen, with their bindings.
-/

namespace BlockScript

/-- The bindings of one scope, in the order in which the names were first bound. -/
abbrev Scope (α : Type) := List (String × α)

namespace Scope

variable {α : Type}

/-- What a name is bound to. -/
def find? (s : Scope α) (name : String) : Option α :=
  s.lookup name

/-- Binds a name, which it may have been already. -/
def insert (s : Scope α) (name : String) (a : α) : Scope α :=
  match s with
  | [] => [(name, a)]
  | (n, b) :: rest => if n = name then (n, a) :: rest else (n, b) :: insert rest name a

/-- The names that are bound. -/
def names (s : Scope α) : List String :=
  s.map Prod.fst

/-- Whether a name is bound. -/
def binds (s : Scope α) (name : String) : Bool :=
  (s.find? name).isSome

theorem find?_insert (s : Scope α) (name other : String) (a : α) :
    (s.insert name a).find? other = if other = name then some a else s.find? other := by
  induction s with
  | nil =>
    by_cases h : other = name
    · simp [insert, find?, h]
    · simp [insert, find?, List.lookup_cons, h, beq_false_of_ne h]
  | cons entry rest ih =>
    obtain ⟨n, b⟩ := entry
    simp only [find?] at ih ⊢
    by_cases hn : n = name
    · subst hn
      by_cases h : other = n
      · simp [insert, h]
      · simp [insert, List.lookup_cons, h, beq_false_of_ne h]
    · by_cases h : other = n
      · subst h
        simp [insert, hn]
      · simp [insert, hn, List.lookup_cons, beq_false_of_ne h, ih]

end Scope

/-- The scopes visible at a place, the innermost first. -/
abbrev Chain (α : Type) := List (Scope α)

namespace Chain

variable {α : Type}

/-- The innermost binding of a name. -/
def find? (c : Chain α) (name : String) : Option α :=
  c.findSome? (·.find? name)

/-- Binds a name in the innermost scope. -/
def define (c : Chain α) (name : String) (a : α) : Chain α :=
  match c with
  | [] => []
  | s :: outer => s.insert name a :: outer

/-- Changes the innermost binding of a name, if there is one. -/
def update? (c : Chain α) (name : String) (a : α) : Option (Chain α) :=
  match c with
  | [] => none
  | s :: outer =>
    if s.binds name then some (s.insert name a :: outer)
    else (update? outer name a).map (s :: ·)

/-- Changes the innermost binding of a name, or binds it in the innermost scope. -/
def assign (c : Chain α) (name : String) (a : α) : Chain α :=
  (c.update? name a).getD (c.define name a)

/-- Every visible name once, with its innermost binding. -/
def visible (c : Chain α) : Scope α :=
  c.reverse.foldl (fun seen s => s.foldl (fun seen (name, a) => seen.insert name a) seen) []

end Chain

end BlockScript
