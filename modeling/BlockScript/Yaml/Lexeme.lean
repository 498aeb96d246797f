import BlockScript.Number.Read

/-!
# The lexemes of YAML

Settings are kept in a small part of YAML: mappings and sequences in block and in flow style, plain
and quoted scalars, comments, and marks between documents, of which only the first counts. Anchors,
tags, directives and block scalars are not part of it.

* `Yaml.firstDocument`: the lines of the first document.
* `Yaml.lexemes?`: its scalars and marks, with their places; `none` if something fits nowhere.
-/

namespace BlockScript.Yaml

/-- A scalar or a mark. A scalar is plain or stands in quotes. -/
inductive Mark where
  | scalar (text : String) (plain : Bool)
  | dash
  | colon
  | comma
  | openSequence
  | closeSequence
  | openMapping
  | closeMapping
  deriving Repr, DecidableEq

/-- A scalar or mark with the line and the column where it starts. -/
structure Lexeme where
  mark : Mark
  line : Nat
  column : Nat
  deriving Repr, DecidableEq

/-! ## Documents -/

/-- A character that a document may hold. -/
def isAllowed (c : Char) : Bool :=
  let n := c.toNat
  n = 9 || n = 10 || n = 13 || (32 ≤ n && n ≤ 126) || n = 133 || (160 ≤ n && n ≤ 0xd7ff) ||
    (0xe000 ≤ n && n ≤ 0xfffd) || 0x10000 ≤ n

/-- All line breaks as one character. -/
def normalizeBreaks : List Char → List Char
  | [] => []
  | '\r' :: '\n' :: rest => '\n' :: normalizeBreaks rest
  | c :: rest =>
    (if c = '\r' || c = '\x85' || c = '\u2028' || c = '\u2029' then '\n' else c) ::
      normalizeBreaks rest

/-- A blank within a line. -/
def isSpace (c : Char) : Bool :=
  c = ' ' || c = '\t'

/-- Whether a line starts with a mark of three characters, followed by a blank or nothing. -/
def isMark (sign : Char) (line : List Char) : Bool :=
  match line with
  | a :: b :: c :: rest =>
    a = sign && b = sign && c = sign && (rest.head?.map isSpace).getD true
  | _ => false

/-- Whether a line marks the end of a document or the start of the next one. -/
def isBoundary (line : List Char) : Bool :=
  isMark '-' line || isMark '.' line

/-- Whether a line holds at most a comment. -/
def isIdle (line : List Char) : Bool :=
  match line.dropWhile (· = ' ') with
  | [] => true
  | c :: _ => c = '#'

/-- The lines of the first document, and whether the first of them stands behind a start mark,
which is replaced by blanks. -/
def firstDocument : List (List Char) → Bool × List (List Char)
  | [] => (false, [])
  | line :: lines =>
    if isMark '-' line then
      (true, ([' ', ' ', ' '] ++ line.drop 3) :: lines.takeWhile (!isBoundary ·))
    else if isIdle line then firstDocument lines
    else (false, line :: lines.takeWhile (!isBoundary ·))

/-! ## Scalars -/

/-- Whether a text is at its end or goes on with a blank or a line break. -/
def endsWord : List Char → Bool
  | [] => true
  | c :: _ => isSpace c || c = '\n'

/-- The characters that end a plain scalar within flow style. -/
def isFlowMark (c : Char) : Bool :=
  c = ',' || c = '?' || c = '[' || c = ']' || c = '{' || c = '}'

/-- The characters that no plain scalar starts with. -/
def isReserved (c : Char) : Bool :=
  "|>&*!%@`".toList.contains c

/-- The length of the plain scalar at the head of a text, with the blanks behind it. -/
def plainLength (flow : Bool) (afterBlank : Bool) : List Char → Nat
  | [] => 0
  | c :: rest =>
    if c = '\n' || (c = '#' && afterBlank) || (c = ':' && endsWord rest) ||
        (flow && isFlowMark c) then 0
    else plainLength flow (isSpace c) rest + 1

/-- A text without the blanks at its end. -/
def trimSpaces (cs : List Char) : List Char :=
  (cs.reverse.dropWhile isSpace).reverse

/-- The character for a letter behind a backslash. -/
def escaped? : Char → Option Char
  | '0' => some '\x00'
  | 'a' => some '\x07'
  | 'b' => some '\x08'
  | 't' | '\t' => some '\t'
  | 'n' => some '\n'
  | 'v' => some '\x0b'
  | 'f' => some '\x0c'
  | 'r' => some '\r'
  | 'e' => some '\x1b'
  | ' ' => some ' '
  | '"' => some '"'
  | '/' => some '/'
  | '\\' => some '\\'
  | 'N' => some '\x85'
  | '_' => some '\xa0'
  | 'L' => some '\u2028'
  | 'P' => some '\u2029'
  | _ => none

/-- How many hexadecimal digits follow a letter behind a backslash. -/
def escapeWidth? : Char → Option Nat
  | 'x' => some 2
  | 'u' => some 4
  | 'U' => some 8
  | _ => none

/-- The content of a scalar in double quotes, and how many characters it takes with its closing
quote. Of an escape, `skip` characters are still to be passed over: the digits of a code point, or
the blanks behind a line break. -/
def doubleQuoted? : Nat → List Char → Option (List Char × Nat)
  | _, [] => none
  | skip + 1, _ :: rest => (doubleQuoted? skip rest).map fun (text, n) => (text, n + 1)
  | 0, '"' :: _ => some ([], 1)
  | 0, '\\' :: c :: rest =>
    match escapeWidth? c with
    | some width =>
      let digits := rest.take width
      if digits.length = width && digits.all Number.isHexDigit then
        (doubleQuoted? width rest).map fun (text, n) =>
          (Char.ofNat (Number.hexValueOf digits) :: text, n + 2)
      else none
    | none =>
      if c = '\n' then
        let blanks := (rest.takeWhile isSpace).length
        (doubleQuoted? blanks rest).map fun (text, n) => (text, n + 2)
      else (escaped? c).bind fun e => (doubleQuoted? 0 rest).map fun (text, n) => (e :: text, n + 2)
  | 0, ['\\'] => none
  | 0, c :: rest => (doubleQuoted? 0 rest).map fun (text, n) => (c :: text, n + 1)

/-- The content of a scalar in single quotes, and how many characters it takes with its closing
quote. A quote inside is written twice. -/
def singleQuoted? : List Char → Option (List Char × Nat)
  | [] => none
  | '\x27' :: '\x27' :: rest => (singleQuoted? rest).map fun (text, n) => ('\x27' :: text, n + 2)
  | c :: rest =>
    if c = '\x27' then some ([], 1)
    else (singleQuoted? rest).map fun (text, n) => (c :: text, n + 1)

/-! ## Lexemes -/

/-- Where scanning stands. Characters that belong to the last lexeme are still to be passed over.
Where a key may start, a tab is not taken for a blank. -/
structure Position where
  line : Nat
  column : Nat
  flow : Nat
  fresh : Bool
  pending : Nat

/-- The position behind one character. -/
def Position.step (p : Position) (c : Char) : Position :=
  if c = '\n' then { p with line := p.line + 1, column := 0, fresh := true }
  else { p with column := p.column + 1 }

/-- The lexeme at the head of a text that starts with neither blank nor comment: what it is, how
many characters it takes, how it changes the depth of flow style, and whether a key may follow. -/
def lexeme? (p : Position) (c : Char) (rest : List Char) : Option (Mark × Nat × Nat × Bool) :=
  let inFlow := 0 < p.flow
  match c with
  | '[' => some (.openSequence, 1, p.flow + 1, true)
  | '{' => some (.openMapping, 1, p.flow + 1, true)
  | ']' => if inFlow then some (.closeSequence, 1, p.flow - 1, false) else none
  | '}' => if inFlow then some (.closeMapping, 1, p.flow - 1, false) else none
  | ',' => if inFlow then some (.comma, 1, p.flow, true) else none
  | '"' => (doubleQuoted? 0 rest).map fun (text, n) =>
      (.scalar (String.ofList text) false, n + 1, p.flow, false)
  | '\x27' => (singleQuoted? rest).map fun (text, n) =>
      (.scalar (String.ofList text) false, n + 1, p.flow, false)
  | _ =>
    if c = '-' && endsWord rest then
      if p.fresh && !inFlow then some (.dash, 1, p.flow, true) else none
    else if c = ':' && (inFlow || endsWord rest) then some (.colon, 1, p.flow, false)
    else if isReserved c || (c = '?' && (inFlow || endsWord rest)) then none
    else
      let n := plainLength inFlow false (c :: rest)
      some (.scalar (String.ofList (trimSpaces ((c :: rest).take n))) true, n, p.flow, false)

/-- The lexemes of a text from a position on. In a comment, all up to the line break is passed
over. -/
def scan? (comment : Bool) (p : Position) : List Char → Option (List Lexeme)
  | [] => some []
  | c :: rest =>
    match p.pending with
    | n + 1 => scan? false ({ p with pending := n }.step c) rest
    | 0 =>
      if comment && c != '\n' then scan? true (p.step c) rest
      else if c = ' ' || c = '\n' then scan? false (p.step c) rest
      else if c = '\t' then
        if p.fresh && p.flow = 0 then none else scan? false (p.step c) rest
      else if c = '#' then scan? true (p.step c) rest
      else
        match lexeme? p c rest with
        | none => none
        | some (mark, length, flow, fresh) =>
          let next := { p with flow, fresh, pending := length - 1 }.step c
          (scan? false next rest).map (⟨mark, p.line, p.column⟩ :: ·)

/-- The lexemes of the first document of a text, and whether the first line of the document stands
behind a start mark. -/
def lexemes? (source : String) : Option (Bool × List Lexeme) :=
  let text := match source.toList with
    | '\ufeff' :: rest => rest
    | cs => cs
  if text.all isAllowed then
    let (marked, lines) := firstDocument ((normalizeBreaks text).splitOn '\n')
    let document := ['\n'].intercalate lines
    (scan? false ⟨0, 0, 0, !marked, 0⟩ document).map (marked, ·)
  else none

end BlockScript.Yaml
