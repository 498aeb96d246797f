import BlockScript.Token

/-!
# Scanning

`Token.scan` cuts a source text into tokens. Blanks and comments, which run from `//` to the end of
the line, only separate. A text in quotes may go over several lines and ends at the next quote; one
that is never closed ends the scan without a token. So does a character of code point zero.

Every other character belongs to a token: what fits nowhere, and a number out of range, becomes a
token of kind `error`.

* `Token.takeNumber`, `Token.takeWord`, `Token.takeSymbol`: the longest token of each sort at the
  head of a text, and the text behind it.
* `Token.scan`: all tokens, closed by one that marks the end.
-/

namespace BlockScript.Token

open Text (isBlank isLetter isDigit isAsciiDigit)

/-- A character of a word after its first. -/
def isWordChar (c : Char) : Bool :=
  isLetter c || isDigit c || c == '_'

/-- A character that can start a word. -/
def isWordStart (c : Char) : Bool :=
  isLetter c || c == '_'

/-! ## One token -/

/-- A token without content. -/
def plain (kind : Kind) (cs : List Char) (line : Int) : Token :=
  ⟨kind, String.ofList cs, none, line⟩

/-- The token of a whole number: an error if it exceeds the largest integer. -/
def ofDigits (digits : List Char) (line : Int) : Token :=
  match Number.toInt64? (Number.valueOf digits) with
  | some n => ⟨.number, String.ofList digits, some (.integer n), line⟩
  | none => plain .error digits line

/-- The token of a number with a point: an error if it exceeds the largest double. -/
def ofFraction (lexeme : List Char) (line : Int) : Token :=
  match Number.readDecimal? false lexeme with
  | some x => ⟨.number, String.ofList lexeme, some (.float x), line⟩
  | none => plain .error lexeme line

/-- The number that starts with the digit `c`. A point belongs to it only if a digit follows. -/
def takeNumber (line : Int) (c : Char) (rest : List Char) : Token × List Char :=
  let digits := c :: rest.takeWhile isAsciiDigit
  let behind := rest.dropWhile isAsciiDigit
  match behind with
  | '.' :: d :: more =>
    if isAsciiDigit d then
      (ofFraction (digits ++ '.' :: d :: more.takeWhile isAsciiDigit) line,
        more.dropWhile isAsciiDigit)
    else (ofDigits digits line, behind)
  | _ => (ofDigits digits line, behind)

/-- The content of a word: the two torches are truth values. -/
def wordLiteral : Kind → Option Literal
  | .torchOn => some (.boolean true)
  | .torchOff => some (.boolean false)
  | _ => none

/-- The word that starts with `c`. -/
def takeWord (line : Int) (c : Char) (rest : List Char) : Token × List Char :=
  let word := String.ofList (c :: rest.takeWhile isWordChar)
  let kind := Kind.ofWord word
  (⟨kind, word, wordLiteral kind, line⟩, rest.dropWhile isWordChar)

/-- The token of a text that stood in quotes. -/
def quoted (content : List Char) (line : Int) : Token :=
  ⟨.string, String.ofList content, some (.text (String.ofList content)), line⟩

/-- The symbol of one character, or the character as an error. -/
def ofSymbol (line : Int) (c : Char) : Token :=
  match Kind.ofSymbol? c with
  | some kind => plain kind [c] line
  | none => plain .error [c] line

/-- The symbol that starts with `c`, of two characters if possible. -/
def takeSymbol (line : Int) (c : Char) (rest : List Char) : Token × List Char :=
  match rest with
  | d :: more =>
    match Kind.ofPair? c d with
    | some kind => (plain kind [c, d] line, more)
    | none => (ofSymbol line c, rest)
  | [] => (ofSymbol line c, rest)

theorem length_dropWhile_le {α : Type} (p : α → Bool) (xs : List α) :
    (xs.dropWhile p).length ≤ xs.length :=
  (List.dropWhile_suffix p).length_le

theorem length_takeNumber_le (line : Int) (c : Char) (rest : List Char) :
    (takeNumber line c rest).2.length ≤ rest.length := by
  have h := length_dropWhile_le isAsciiDigit rest
  simp only [takeNumber]
  split
  · next d more heq =>
    rw [heq] at h
    simp only [List.length_cons] at h
    split
    · have := length_dropWhile_le isAsciiDigit more
      simp only
      omega
    · simpa [heq] using h
  · exact h

theorem length_takeSymbol_le (line : Int) (c : Char) (rest : List Char) :
    (takeSymbol line c rest).2.length ≤ rest.length := by
  unfold takeSymbol
  split
  · split <;> simp
  · simp

/-! ## All tokens -/

/-- The tokens of a text that starts at the given line. -/
def scanFrom (line : Int) : List Char → List Token
  | [] => [endOfInput line]
  | c :: rest =>
    if isBlank c then scanFrom (if c = '\n' then line + 1 else line) rest
    else if c = '/' ∧ rest.head? = some '/' then scanFrom line (rest.dropWhile (· ≠ '\n'))
    else if isAsciiDigit c then
      (takeNumber line c rest).1 :: scanFrom line (takeNumber line c rest).2
    else if c = '"' then
      let content := rest.takeWhile (· ≠ '"')
      let after := line + content.count '\n'
      if '"' ∈ rest then
        quoted content line :: scanFrom after (rest.dropWhile (· ≠ '"')).tail
      else [endOfInput after]
    else if isWordStart c then
      (takeWord line c rest).1 :: scanFrom line (takeWord line c rest).2
    else
      (takeSymbol line c rest).1 :: scanFrom line (takeSymbol line c rest).2
termination_by cs => cs.length
decreasing_by
  · simp
  · have := length_dropWhile_le (· ≠ '\n') rest
    simp only [List.length_cons]
    omega
  · have := length_takeNumber_le line c rest
    simp only [List.length_cons]
    omega
  · have := length_dropWhile_le (· ≠ '"') rest
    simp only [List.length_cons, List.length_tail]
    omega
  · have := length_dropWhile_le isWordChar rest
    simp only [List.length_cons, takeWord]
    omega
  · have := length_takeSymbol_le line c rest
    simp only [List.length_cons]
    omega

/-- The part of a text that is scanned: a character of code point zero ends it. -/
def scanned (source : List Char) : List Char :=
  source.takeWhile (· ≠ '\x00')

/-- The tokens of a source text, the first line being line one. -/
def scan (source : List Char) : List Token :=
  scanFrom 1 (scanned source)

end BlockScript.Token
