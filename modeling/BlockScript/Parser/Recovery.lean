import BlockScript.Parser.Statement

/-!
# Recovery

After a failed declaration, reading goes on behind the damage.

* `synchronize`: where a new declaration can start. Blocks still open are skipped to their end,
  with the other side of a branch and the semicolon behind it. Outside of blocks it stops behind a
  semicolon and before a keyword that starts a declaration.
* `recover`: the same, but at least one token on from where the declaration started.
* `run`: all declarations of a source, read or failed.
-/

namespace BlockScript.Parser

open Source

variable {σ : Type} [Source σ]

/-- Takes a semicolon if one stands next. -/
def skipSemicolon (s : σ) : σ :=
  match cur? s with
  | some t => if t.kind = .semicolon then advance s else s
  | none => s

/-- The keywords that start a declaration or a statement. -/
def startsDeclaration : Token.Kind → Bool
  | .function | .declare | .branch | .loop | .giveBack | .print => true
  | _ => false

/-- The place at which reading goes on, when `depth` blocks are open, at most `bound` tokens on. -/
def synchronizeWithin : Nat → Nat → σ → σ
  | 0, _, s => s
  | bound + 1, depth, s =>
    match cur? s with
    | none => s
    | some t =>
      match t.kind with
      | .blockOpen => synchronizeWithin bound (depth + 1) (advance s)
      | .blockClose =>
        match depth with
        | 0 => s
        | 1 =>
          let behind := advance s
          if (cur? behind).map Token.kind = some .otherwise then
            synchronizeWithin bound 0 (advance behind)
          else skipSemicolon behind
        | depth + 2 => synchronizeWithin bound (depth + 1) (advance s)
      | .semicolon => if depth = 0 then advance s else synchronizeWithin bound depth (advance s)
      | kind =>
        if depth = 0 && startsDeclaration kind then s
        else synchronizeWithin bound depth (advance s)

/-- The place at which reading goes on, when `depth` blocks are open. -/
def synchronize (depth : Nat) (s : σ) : σ :=
  synchronizeWithin (room s) depth s

/-- Reports the failure of a declaration that starts at `start`, and goes to the place at which
reading goes on. -/
def recover (start : σ) (failure : Failure σ) : σ :=
  let rest := synchronize failure.depth (report failure.error failure.rest)
  if moved start rest then rest else skipSemicolon (advance rest)

/-- The outcome of reading one declaration, and the place at which it starts. -/
structure Step (σ : Type) where
  start : σ
  outcome : Except (Failure σ) Stmt

/-- The declaration that a step read. -/
def Step.stmt? (s : Step σ) : Option Stmt :=
  match s.outcome with
  | .ok d => some d
  | .error _ => none

/-- The failure that a step met. -/
def Step.failure? (s : Step σ) : Option (Failure σ) :=
  match s.outcome with
  | .ok _ => none
  | .error e => some e

/-- One step, and the place at which the next one starts. -/
def step (start : σ) : Step σ × σ :=
  match declaration start with
  | .ok (d, rest) => (⟨start, .ok d⟩, rest)
  | .error e => (⟨start, .error e⟩, recover start e)

/-- The steps from a place on up to the end of the input, at most `bound` of them, and the place
behind them. -/
def runWithin : Nat → σ → List (Step σ) × σ
  | 0, s => ([], s)
  | bound + 1, s =>
    match cur? s with
    | none => ([], s)
    | some _ =>
      let (first, next) := step s
      let (more, last) := runWithin bound next
      (first :: more, last)

/-- The steps from a place on, and the place behind them. Each step takes a token at least. -/
def run (s : σ) : List (Step σ) × σ :=
  runWithin (room s) s

end BlockScript.Parser
