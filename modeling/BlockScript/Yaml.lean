import BlockScript.Yaml.Lexeme

/-!
# YAML documents

`Yaml.Node.ofSource?` reads the first document of a text. In block style the columns decide what
belongs together: the entries of a mapping or a sequence start in one column, and what belongs to
an entry starts further in. The dashes of a sequence may stand in the column of the key it belongs
to. In flow style, between brackets, columns do not matter.

Every function takes a bound on how deep it may go, which no document reaches.
-/

namespace BlockScript.Yaml

/-- A document or a part of it. -/
inductive Node where
  | scalar (text : String) (plain : Bool)
  | sequence (items : List Node)
  | mapping (entries : List (Node × Node))
  deriving Repr, Inhabited

/-- What stands where nothing is written. -/
def Node.empty : Node := .scalar "" true

mutual

/-- A scalar, or a collection in flow style. -/
def flowNode? : Nat → List Lexeme → Option (Node × List Lexeme)
  | 0, _ => none
  | bound + 1, ls =>
    match ls with
    | [] => none
    | l :: rest =>
      match l.mark with
      | .scalar text plain => some (.scalar text plain, rest)
      | .openSequence => (flowItems? bound rest).map fun (items, rest) => (.sequence items, rest)
      | .openMapping => (flowEntries? bound rest).map fun (es, rest) => (.mapping es, rest)
      | _ => none

/-- The items of a sequence in flow style, up to its closing bracket. -/
def flowItems? : Nat → List Lexeme → Option (List Node × List Lexeme)
  | 0, _ => none
  | bound + 1, ls =>
    match ls with
    | ⟨.closeSequence, _, _⟩ :: rest => some ([], rest)
    | ls => do
      let (item, rest) ← flowNode? bound ls
      match rest with
      | ⟨.comma, _, _⟩ :: rest =>
        let (items, rest) ← flowItems? bound rest
        return (item :: items, rest)
      | ⟨.closeSequence, _, _⟩ :: rest => return ([item], rest)
      | _ => none

/-- The entries of a mapping in flow style, up to its closing bracket. -/
def flowEntries? : Nat → List Lexeme → Option (List (Node × Node) × List Lexeme)
  | 0, _ => none
  | bound + 1, ls =>
    match ls with
    | ⟨.closeMapping, _, _⟩ :: rest => some ([], rest)
    | ls => do
      let (key, rest) ← flowNode? bound ls
      let (value, rest) ← flowValue? bound ((ls.head?.map Lexeme.line).getD 0) rest
      match rest with
      | ⟨.comma, _, _⟩ :: rest =>
        let (entries, rest) ← flowEntries? bound rest
        return ((key, value) :: entries, rest)
      | ⟨.closeMapping, _, _⟩ :: rest => return ([(key, value)], rest)
      | _ => none

/-- The value behind a key that starts on the given line: behind a colon on that line, or empty. -/
def flowValue? : Nat → Nat → List Lexeme → Option (Node × List Lexeme)
  | 0, _, _ => none
  | bound + 1, line, ls =>
    match ls with
    | ⟨.colon, there, _⟩ :: rest =>
      if there = line then
        match rest with
        | ⟨.comma, _, _⟩ :: _ => some (.empty, rest)
        | ⟨.closeMapping, _, _⟩ :: _ => some (.empty, rest)
        | rest => flowNode? bound rest
      else none
    | ls => some (.empty, ls)

end

/-- Whether a colon on the given line stands at the head. -/
def colonOn (line : Nat) : List Lexeme → Bool
  | ⟨.colon, l, _⟩ :: _ => l = line
  | _ => false

mutual

/-- A node in block style. A node that stands `inline`, behind its key, is no block mapping. -/
def blockNode? : Nat → Bool → List Lexeme → Option (Node × List Lexeme)
  | 0, _, _ => none
  | bound + 1, inline, ls =>
    match ls with
    | [] => none
    | ⟨.dash, _, column⟩ :: _ =>
      (blockItems? bound column ls).map fun (items, rest) => (.sequence items, rest)
    | l :: _ => do
      let (node, rest) ← flowNode? bound ls
      if colonOn l.line rest then
        if inline then none
        else
          let (entries, rest) ← blockEntries? bound l.column ls
          return (.mapping entries, rest)
      else return (node, rest)

/-- The items of a sequence whose dashes stand in the given column. -/
def blockItems? : Nat → Nat → List Lexeme → Option (List Node × List Lexeme)
  | 0, _, _ => none
  | bound + 1, column, ls =>
    match ls with
    | ⟨.dash, line, c⟩ :: rest =>
      if c = column then do
        let (item, rest) ← within? bound line column false rest
        let (items, rest) ← blockItems? bound column rest
        return (item :: items, rest)
      else if c < column then some ([], ls) else none
    | l :: _ => if l.column ≤ column then some ([], ls) else none
    | [] => some ([], [])

/-- What belongs to an entry that starts in the given column and whose mark is on the given line:
what follows on that line or stands further in; otherwise nothing. -/
def within? : Nat → Nat → Nat → Bool → List Lexeme → Option (Node × List Lexeme)
  | 0, _, _, _, _ => none
  | bound + 1, line, column, keyed, ls =>
    match ls with
    | [] => some (.empty, [])
    | l :: _ =>
      if l.line = line then blockNode? bound keyed ls
      else if column < l.column then blockNode? bound false ls
      else if keyed && l.column = column && l.mark = .dash then
        (blockItems? bound column ls).map fun (items, rest) => (.sequence items, rest)
      else some (.empty, ls)

/-- The entries of a mapping whose keys start in the given column. -/
def blockEntries? : Nat → Nat → List Lexeme → Option (List (Node × Node) × List Lexeme)
  | 0, _, _ => none
  | bound + 1, column, ls =>
    match ls with
    | [] => some ([], [])
    | l :: _ =>
      if l.column < column then some ([], ls)
      else if column < l.column then none
      else do
        let (key, rest) ← flowNode? bound ls
        if colonOn l.line rest then
          let (value, rest) ← within? bound l.line column true rest.tail
          let (entries, rest) ← blockEntries? bound column rest
          return ((key, value) :: entries, rest)
        else none

end

/-- The first document of a text; `none` if it is not well formed. -/
def Node.ofSource? (source : String) : Option Node := do
  let (marked, ls) ← lexemes? source
  match ls with
  | [] => return .empty
  | l :: _ =>
    let (node, rest) ← blockNode? (4 * ls.length + 4) (marked && l.line = 0) ls
    if rest.isEmpty then return node else none

end BlockScript.Yaml
