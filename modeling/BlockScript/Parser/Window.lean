import BlockScript.Diagnostic
import BlockScript.Parser.Recovery

/-!
# A window over a token sequence

The parser sees two tokens of a sequence at a time, and takes one more with each step on. Error
tokens never get into the window: they are reported as they come up, so that what is reported of
them stands between the syntax errors. Once the end of the input is in sight, nothing behind it is
looked at.

* `Window`: the two tokens, those not yet looked at, and what was found wrong so far.
* `Window.fetch`, `Window.advance`: the next token that can be used, and the step on.
* `Window.ofTokens`: the window at the start of a sequence.
-/

namespace BlockScript.Parser

/-- The diagnostic of an error token. -/
def lexicalDiagnostic (t : Token) : Diagnostic :=
  ⟨t.line, s!"unrecognized token '{t.text}'", .lexical⟩

/-- The diagnostic of a syntax error, given the line on which the input ends. -/
def syntaxDiagnostic (endLine : Int) (e : SyntaxError) : Diagnostic :=
  ⟨e.line endLine, e.message, .syntactic⟩

/-- Two tokens of a sequence, with the tokens not yet looked at, how many have been taken, and what
was found wrong. -/
structure Window where
  cur : Token
  peek : Token
  unread : List Token
  consumed : Nat
  diagnostics : Array Diagnostic

namespace Window

/-- The next token that can be used, and what is behind it. Error tokens on the way are reported. A
sequence that just stops has its end there. -/
def fetch : List Token → Array Diagnostic → Token × List Token × Array Diagnostic
  | [], found => (.endOfInput 0, [], found)
  | t :: ts, found =>
    if t.kind = .error then fetch ts (found.push (lexicalDiagnostic t)) else (t, ts, found)

/-- Moves on by one token. The end of the input stays in the window. -/
def advance (w : Window) : Window :=
  if w.peek.kind = .endOfInput then { w with cur := w.peek, consumed := w.consumed + 1 }
  else
    let (t, unread, diagnostics) := fetch w.unread w.diagnostics
    { cur := w.peek, peek := t, unread, consumed := w.consumed + 1, diagnostics }

/-- The window before anything is in it. -/
def blank (ts : List Token) : Window :=
  let nothing : Token := ⟨.error, "", none, 0⟩
  ⟨nothing, nothing, ts, 0, #[]⟩

/-- The window at the start of a token sequence. -/
def ofTokens (ts : List Token) : Window :=
  (blank ts).advance.advance

/-- The token, unless it ends the input. -/
def usable? (t : Token) : Option Token :=
  if t.kind = .endOfInput then none else some t

/-- Notes a diagnostic. -/
def note (w : Window) (d : Diagnostic) : Window :=
  { w with diagnostics := w.diagnostics.push d }

end Window

instance : Source Window where
  cur? w := Window.usable? w.cur
  peek? w := Window.usable? w.peek
  advance := Window.advance
  room w := 4 * (w.unread.length + 2) + 4
  moved start w := start.consumed ≠ w.consumed
  report e w := w.note (syntaxDiagnostic w.cur.line e)

end BlockScript.Parser
