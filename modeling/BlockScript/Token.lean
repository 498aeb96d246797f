import BlockScript.Value

/-!
# Tokens

What a source text is cut into: words, numbers, texts in quotes and symbols, each with the line it
stands on.

* `Token.Kind`: the kinds, with their names and numbers.
* `Token.Kind.ofWord`: keywords and names of types; every other word is an identifier.
* `Token.Kind.ofSymbol?`, `Token.Kind.ofPair?`: symbols of one and of two characters.
-/

namespace BlockScript

/-- The kinds of tokens. -/
inductive Token.Kind where
  | error
  | endOfInput
  | number
  | string
  | identifier
  | function
  | declare
  | branch
  | otherwise
  | loop
  | giveBack
  | print
  | blockOpen
  | blockClose
  | torchOn
  | torchOff
  | typeName
  | plus
  | minus
  | times
  | divide
  | assign
  | equal
  | notEqual
  | less
  | greater
  | lessEqual
  | greaterEqual
  | and
  | or
  | openParen
  | closeParen
  | comma
  | semicolon
  | colon
  | other (number : Nat)
  deriving Repr, DecidableEq

namespace Token.Kind

/-- The kinds that have a name, in the order of their numbers, which start at one. -/
def named : List (Kind × String) :=
  [(.error, "Error"), (.endOfInput, "EOF"), (.number, "Number"), (.string, "String"),
   (.identifier, "Identifier"), (.function, "Func"), (.declare, "Var"), (.branch, "If"),
   (.otherwise, "Else"), (.loop, "While"), (.giveBack, "Return"), (.print, "Print"),
   (.blockOpen, "BlockOpen"), (.blockClose, "BlockClose"), (.torchOn, "True"),
   (.torchOff, "False"), (.typeName, "TypeName"), (.plus, "Plus"), (.minus, "Minus"),
   (.times, "Multi"), (.divide, "Div"), (.assign, "Assign"), (.equal, "Equal"),
   (.notEqual, "NotEqual"), (.less, "Less"), (.greater, "Greater"), (.lessEqual, "LessEqual"),
   (.greaterEqual, "GreaterEqual"), (.and, "And"), (.or, "Or"), (.openParen, "OpenParentheses"),
   (.closeParen, "CloseParentheses"), (.comma, "Comma"), (.semicolon, "Semicolon"),
   (.colon, "Colon")]

/-- The kind with a given number. -/
def ofNumber (n : Nat) : Kind :=
  match n with
  | 0 => .other 0
  | i + 1 => (named[i]?.map Prod.fst).getD (.other n)

/-- The name of a kind; a number that belongs to no named kind is shown as such. -/
def name (k : Kind) : String :=
  match k with
  | .other n => s!"TokenType({n})"
  | k => (named.lookup k).getD ""

/-- The named kind with a given name. -/
def ofName? (s : String) : Option Kind :=
  (named.find? fun entry => entry.2 == s).map Prod.fst

/-- The words that are not free to name variables and functions. -/
def keywords : List (String × Kind) :=
  [("enchant_func", .function), ("chest", .declare), ("redstone_if", .branch),
   ("slime_else", .otherwise), ("piston_loop", .loop), ("nether_return", .giveBack),
   ("print", .print), ("crafting_table", .blockOpen), ("end_portal", .blockClose),
   ("torch_on", .torchOn), ("torch_off", .torchOff), ("redstone", .typeName),
   ("emerald", .typeName), ("obsidian", .typeName), ("nether", .typeName), ("ender", .typeName),
   ("void", .typeName), ("int", .typeName), ("float", .typeName), ("string", .typeName),
   ("boolean", .typeName), ("array", .typeName)]

/-- The kind of a word. -/
def ofWord (word : String) : Kind :=
  (keywords.lookup word).getD .identifier

theorem ofWord_mem (word : String) : ofWord word ∈ identifier :: keywords.map Prod.snd := by
  unfold ofWord
  cases h : keywords.lookup word with
  | none => exact List.mem_cons_self
  | some kind =>
    obtain ⟨before, after, hkeywords, -⟩ := List.lookup_eq_some_iff.mp h
    refine List.mem_cons_of_mem _ (List.mem_map_of_mem (a := (word, kind)) ?_)
    rw [hkeywords]
    exact List.mem_append_right _ List.mem_cons_self

/-- The symbols of one character. -/
def ofSymbol? : Char → Option Kind
  | '+' => some .plus
  | '-' => some .minus
  | '*' => some .times
  | '/' => some .divide
  | '=' => some .assign
  | '<' => some .less
  | '>' => some .greater
  | '(' => some .openParen
  | ')' => some .closeParen
  | ',' => some .comma
  | ';' => some .semicolon
  | ':' => some .colon
  | _ => none

/-- The symbols of two characters. -/
def ofPair? : Char → Char → Option Kind
  | '-', '>' => some .assign
  | '=', '=' => some .equal
  | '!', '=' => some .notEqual
  | '<', '=' => some .lessEqual
  | '>', '=' => some .greaterEqual
  | '&', '&' => some .and
  | '|', '|' => some .or
  | _, _ => none

/-- How tightly an operator binds; zero for what is no operator. -/
def precedence : Kind → Nat
  | .or => 1
  | .and => 2
  | .equal | .notEqual => 3
  | .less | .greater | .lessEqual | .greaterEqual => 4
  | .plus | .minus => 5
  | .times | .divide => 6
  | _ => 0

end Token.Kind

/-- The content of a number, a text or a truth value. -/
inductive Literal where
  | integer (n : Int64)
  | float (x : Float)
  | text (s : String)
  | boolean (b : Bool)
  deriving Repr

/-- A token. Its text is what stands in the source, for a text in quotes what stands between
them. -/
structure Token where
  kind : Token.Kind
  text : String
  literal : Option Literal
  line : Int
  deriving Repr

namespace Token

/-- The token that closes every token sequence. -/
def endOfInput (line : Int) : Token := ⟨.endOfInput, "", none, line⟩

/-- A token in one line of text. -/
def summary (t : Token) : String :=
  s!"{t.line}:{t.kind.name} '{t.text}'"

end Token

end BlockScript
