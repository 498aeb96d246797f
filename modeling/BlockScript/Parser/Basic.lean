import BlockScript.Token
import BlockScript.Tree

/-!
# Readers

A reader takes tokens from a source, of which the next two can be seen ahead, and either gives a
result or fails. A failure keeps the place it arose at, so that reading can go on behind the damage.

* `SyntaxError`: what can be wrong, with its wording.
* `Source`: what tokens can be taken from.
* `Failure`: a syntax error, the place in the source, and how many blocks were open.
* `Reader`: with `accept`, `expect` and `nested`, from which the grammar is built.
-/

namespace BlockScript

/-- What the grammar asks for at a place. -/
inductive Expected where
  | functionName
  | openParen
  | parameterName
  | closeParen
  | typeName
  | blockOpen
  | blockClose
  | variableName
  deriving Repr, DecidableEq

/-- The wording of what is asked for. -/
def Expected.name : Expected → String
  | .functionName => "function name"
  | .openParen => "'('"
  | .parameterName => "parameter name"
  | .closeParen => "')'"
  | .typeName => "type name"
  | .blockOpen => "'crafting_table'"
  | .blockClose => "'end_portal'"
  | .variableName => "variable name"

/-- A syntax error at a token, or at the end of the input. A reader that may not go deeper is
exhausted, which none that is given enough room ever is. -/
inductive SyntaxError where
  | expected (what : Expected) (found : Option Token)
  | unexpected (found : Option Token)
  | malformedNumber (token : Token)
  | nestedFunction (token : Token)
  | exhausted (found : Option Token)
  deriving Repr

/-- How a message names a token, or the end of the input. -/
def describe : Option Token → String
  | some t => s!"'{t.text}'"
  | none => "end of input"

namespace SyntaxError

/-- The wording of a syntax error. -/
def message : SyntaxError → String
  | .expected what found => s!"expected {what.name}, found {describe found}"
  | .unexpected found => s!"unexpected {describe found}"
  | .malformedNumber t => s!"malformed number '{t.text}'"
  | .nestedFunction _ => "functions can only be declared at the top level"
  | .exhausted found => s!"nested too deeply at {describe found}"

/-- The token that a syntax error is about. -/
def token? : SyntaxError → Option Token
  | .expected _ found => found
  | .unexpected found => found
  | .malformedNumber t => some t
  | .nestedFunction t => some t
  | .exhausted found => found

/-- The line of a syntax error, given the line on which the input ends. -/
def line (endLine : Int) (e : SyntaxError) : Int :=
  match e.token? with
  | some t => t.line
  | none => endLine

end SyntaxError

namespace Parser

/-- What tokens can be taken from. At the end of the input there are none to be seen. -/
class Source (σ : Type) where
  /-- The token that stands next. -/
  cur? : σ → Option Token
  /-- The token behind it. -/
  peek? : σ → Option Token
  /-- Takes the next token. -/
  advance : σ → σ
  /-- How deep readers may go into each other from here on. -/
  room : σ → Nat
  /-- Whether a token was taken between an earlier place and this one. -/
  moved : σ → σ → Bool
  /-- Notes a syntax error. -/
  report : SyntaxError → σ → σ

open Source

/-- A syntax error with the place at which it arose and the number of blocks open there. -/
structure Failure (σ : Type) where
  error : SyntaxError
  rest : σ
  depth : Nat

/-- A reader with results of type `α`. -/
def Reader (σ α : Type) : Type :=
  σ → Except (Failure σ) (α × σ)

variable {σ α : Type}

instance : Monad (Reader σ) where
  pure a := fun s => .ok (a, s)
  bind p f := fun s =>
    match p s with
    | .ok (a, rest) => f a rest
    | .error e => .error e

/-- A reader inside a block: where it fails, one more block is open. -/
def nested (p : Reader σ α) : Reader σ α :=
  fun s =>
    match p s with
    | .ok r => .ok r
    | .error e => .error { e with depth := e.depth + 1 }

variable [Source σ]

/-- A reader that goes as deep as there is room for. -/
def withRoom (p : Nat → Reader σ α) : Reader σ α :=
  fun s => p (room s) s

/-- Fails at the next token. -/
def failHere (error : Option Token → SyntaxError) : Reader σ α :=
  fun s => .error ⟨error (cur? s), s, 0⟩

/-- The next token, which is not read yet. -/
def next? : Reader σ (Option Token) :=
  fun s => .ok (cur? s, s)

/-- The kind of the next token, if there is one. -/
def nextKind? : Reader σ (Option Token.Kind) :=
  fun s => .ok ((cur? s).map Token.kind, s)

/-- Reads one token of a kind if it stands next, and tells whether it did. -/
def accept (kind : Token.Kind) : Reader σ Bool :=
  fun s =>
    match cur? s with
    | some t => if t.kind = kind then .ok (true, advance s) else .ok (false, s)
    | none => .ok (false, s)

/-- Reads a token that has to be of a kind. -/
def expect (kind : Token.Kind) (what : Expected) : Reader σ Token :=
  fun s =>
    match cur? s with
    | some t => if t.kind = kind then .ok (t, advance s) else failHere (.expected what) s
    | none => failHere (.expected what) s

end Parser

end BlockScript
