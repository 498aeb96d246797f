import BlockScript.Text.Span

/-!
# Blanks

The characters with the Unicode property White_Space: they separate tokens in a source text and
are trimmed from a text that is read as a number.
-/

namespace BlockScript.Text

/-- The spans of the blank characters. -/
def blankSpans : List (Nat × Nat) :=
  [(9, 13), (32, 32), (133, 133), (160, 160), (5760, 5760), (8192, 8202), (8232, 8233),
   (8239, 8239), (8287, 8287), (12288, 12288)]

/-- A character of white space. -/
def isBlank (c : Char) : Bool :=
  inSpans blankSpans c.toNat

/-- What remains of a text without the blanks at both its ends. -/
def trim (cs : List Char) : List Char :=
  ((cs.dropWhile isBlank).reverse.dropWhile isBlank).reverse

end BlockScript.Text
