import BlockScript.Main
import BlockScript.Scope.Forest
import BlockScript.Proofs.Checker.Exactness
import BlockScript.Proofs.Checker.Soundness
import BlockScript.Proofs.Interpreter.Limits
import BlockScript.Proofs.Interpreter.Transparency
import BlockScript.Proofs.Parser.Recovery
import BlockScript.Proofs.Parser.RoundTrip
import BlockScript.Proofs.Token.Lexeme
import BlockScript.Proofs.Parser.Diagnostics
import BlockScript.Proofs.Interpreter.Invariant
import BlockScript.Proofs.Interpreter.Isolation
import BlockScript.Proofs.Scope.Visible
import BlockScript.Proofs.Interpreter.Breakpoints
import BlockScript.Proofs.Text.Lines
import BlockScript.Proofs.Text.Utf8
import BlockScript.Proofs.Tree.Lines
import BlockScript.Proofs.Parser.Lines
import BlockScript.Proofs.Compile.Lines
import BlockScript.Proofs.Token.Spelling
import BlockScript.Proofs.Checker.Assignment
import BlockScript.Proofs.Debugger.Pausing
import BlockScript.Proofs.Parser.Damage
import BlockScript.Proofs.Machine.Limits
import BlockScript.Proofs.Tree.Identity
import BlockScript.Proofs.Scope.Views
import BlockScript.Proofs.Number.Integers
import BlockScript.Proofs.Parser.Places
import BlockScript.Proofs.Parser.Progress
