import BlockScript.Proofs.Parser.Language
import BlockScript.Proofs.Parser.Shape

/-!
# The written form of a tree

A regular tree can be written as tokens, all of them on line one: with a semicolon behind each
statement of a program or a block, and with parentheses only where an operand would otherwise come
apart.

* `Expr.tokens`, `Stmt.tokens`, `Program.tokens`: the written form.
* `Expr.onFirstLine`, `Stmt.onFirstLine`, `Program.onFirstLine`: every node is on line one.
* `Marked`: what all the tokens have in common.
* `writable`: by induction on the tree, for every operator next to which an operand may stand.
  **`expression_tokens`**: the written form of an expression is an expression with this very tree.
-/

namespace BlockScript

/-! ## The written form -/

/-- A token on line one without content. -/
def mark (kind : Token.Kind) (text : String) : Token := ⟨kind, text, none, 1⟩

/-- The kind of token that an operator is written as. -/
def Operator.kind : Operator → Token.Kind
  | .add => .plus
  | .subtract => .minus
  | .multiply => .times
  | .divide => .divide
  | .equal => .equal
  | .notEqual => .notEqual
  | .less => .less
  | .greater => .greater
  | .lessEqual => .lessEqual
  | .greaterEqual => .greaterEqual
  | .and => .and
  | .or => .or
  | .other _ => .other 0

/-- The token of an operator. -/
def Operator.token (op : Operator) : Token := mark op.kind op.spelling

/-- The token of a literal. -/
def Value.token : Value → Token
  | .integer n => ⟨.number, Number.integerText n.toInt, some (.integer n), 1⟩
  | .float x => ⟨.number, Number.floatText x, some (.float x), 1⟩
  | .boolean true => ⟨.torchOn, "torch_on", some (.boolean true), 1⟩
  | .boolean false => ⟨.torchOff, "torch_off", some (.boolean false), 1⟩
  | v => ⟨.string, v.toText, some (.text v.toText), 1⟩

/-- Tokens between parentheses. -/
def inParens (ts : List Token) : List Token :=
  mark .openParen "(" :: ts ++ [mark .closeParen ")"]

/-- Tokens between the words that open and close a block. -/
def inBlock (ts : List Token) : List Token :=
  mark .blockOpen "crafting_table" :: ts ++ [mark .blockClose "end_portal"]

/-- Token sequences with commas between them. -/
def separated : List (List Token) → List Token
  | [] => []
  | [ts] => ts
  | ts :: ts' :: more => ts ++ mark .comma "," :: separated (ts' :: more)

/-- How tightly an operator binds, on six levels. -/
def Operator.level : Operator → Nat
  | .or => 1
  | .and => 2
  | .equal | .notEqual => 3
  | .less | .greater | .lessEqual | .greaterEqual => 4
  | .add | .subtract => 5
  | .multiply | .divide => 6
  | .other _ => 0

/-- The expression is an operation whose operator is below the given level. -/
def Expr.looserThan (level : Nat) : Expr → Bool
  | .binary _ op _ _ => op.level < level
  | _ => false

mutual

/-- The tokens of an expression. The left operand is put in parentheses if its operator binds less
tightly, the right one also if it binds equally. -/
def Expr.tokens : Expr → List Token
  | .literal _ value => [value.token]
  | .ident _ name => [mark .identifier name]
  | .binary _ op left right =>
    (if left.looserThan op.level then inParens left.tokens else left.tokens) ++ op.token ::
      (if right.looserThan (op.level + 1) then inParens right.tokens else right.tokens)
  | .call _ name args => mark .identifier name :: inParens (separated (Expr.allTokens args))
  | .missing => []

/-- The tokens of each argument of a call. -/
def Expr.allTokens : List Expr → List (List Token)
  | [] => []
  | e :: es => e.tokens :: Expr.allTokens es

end

/-- The tokens of a type behind its colon. -/
def annotationTokens : Option Annotation → List Token
  | none => []
  | some a => [mark .colon ":", mark .typeName a.name]

/-- The tokens of the value that a variable starts with. -/
def initialTokens : Option Expr → List Token
  | none => []
  | some e => mark .assign "->" :: e.tokens

mutual

/-- The tokens of a statement, without a semicolon behind it. -/
def Stmt.tokens : Stmt → List Token
  | .block _ body => inBlock (Stmt.bodyTokens body)
  | .function _ name params returns _ body =>
    mark .function "enchant_func" :: mark .identifier name ::
      inParens (separated (params.map fun p => [mark .identifier p.name])) ++
      annotationTokens returns ++ inBlock (Stmt.bodyTokens body)
  | .declare _ name type value =>
    mark .declare "chest" :: mark .identifier name :: annotationTokens type ++ initialTokens value
  | .assign _ name value => mark .identifier name :: mark .assign "->" :: value.tokens
  | .branch _ cond _ thenBody otherwise =>
    mark .branch "redstone_if" :: cond.tokens ++ inBlock (Stmt.bodyTokens thenBody) ++
      Stmt.sideTokens otherwise
  | .loop _ cond _ body =>
    mark .loop "piston_loop" :: cond.tokens ++ inBlock (Stmt.bodyTokens body)
  | .giveBack _ value => mark .giveBack "nether_return" :: (value.map Expr.tokens).getD []
  | .print _ value => mark .print "print" :: value.tokens
  | .evaluate _ value => value.tokens

/-- The tokens of statements in a row, with a semicolon behind each. -/
def Stmt.bodyTokens : List Stmt → List Token
  | [] => []
  | s :: ss => s.tokens ++ mark .semicolon ";" :: Stmt.bodyTokens ss

/-- The tokens of the other side of a branch. -/
def Stmt.sideTokens : Option Stmt → List Token
  | none => []
  | some s => mark .otherwise "slime_else" :: s.tokens

end

/-- The tokens of a program. -/
def Program.tokens (p : Program) : List Token := Stmt.bodyTokens p.declarations

/-! ## Lines -/

mutual

/-- Every node of an expression is on line one. -/
def Expr.onFirstLine : Expr → Bool
  | .literal line _ => line = 1
  | .ident line _ => line = 1
  | .binary line _ left right => line = 1 && left.onFirstLine && right.onFirstLine
  | .call line _ args => line = 1 && Expr.allOnFirstLine args
  | .missing => true

/-- Every argument of a call is on line one. -/
def Expr.allOnFirstLine : List Expr → Bool
  | [] => true
  | e :: es => e.onFirstLine && Expr.allOnFirstLine es

end

mutual

/-- Every node of a statement is on line one. -/
def Stmt.onFirstLine : Stmt → Bool
  | .block line body => line = 1 && Stmt.allOnFirstLine body
  | .function line _ params returns bodyLine body =>
    line = 1 && params.all (·.line = 1) && returns.all (·.line = 1) && bodyLine = 1 &&
      Stmt.allOnFirstLine body
  | .declare line _ type value =>
    line = 1 && type.all (·.line = 1) && value.all Expr.onFirstLine
  | .assign line _ value => line = 1 && value.onFirstLine
  | .branch line cond thenLine thenBody otherwise =>
    line = 1 && cond.onFirstLine && thenLine = 1 && Stmt.allOnFirstLine thenBody &&
      Stmt.sideOnFirstLine otherwise
  | .loop line cond bodyLine body =>
    line = 1 && cond.onFirstLine && bodyLine = 1 && Stmt.allOnFirstLine body
  | .giveBack line value => line = 1 && value.all Expr.onFirstLine
  | .print line value => line = 1 && value.onFirstLine
  | .evaluate line value => line = 1 && value.onFirstLine

/-- Every statement of a block is on line one. -/
def Stmt.allOnFirstLine : List Stmt → Bool
  | [] => true
  | s :: ss => s.onFirstLine && Stmt.allOnFirstLine ss

/-- The other side of a branch is on line one. -/
def Stmt.sideOnFirstLine : Option Stmt → Bool
  | none => true
  | some s => s.onFirstLine

end

/-- Every node of a program is on line one. -/
def Program.onFirstLine (p : Program) : Bool :=
  p.line = 1 && Stmt.allOnFirstLine p.declarations

namespace Grammar

open BlockScript.Parser

/-! ## Expressions -/

theorem ofSpelling_spelling {op : Operator} (h : op.known = true) :
    Operator.ofSpelling op.spelling = op := by
  cases op with
  | other => cases h
  | _ => rfl

theorem level_kind (op : Operator) : level op.kind = op.level := by
  cases op <;> rfl

theorem level_pos {op : Operator} (h : op.known = true) : 0 < op.level := by
  cases op with
  | other => cases h
  | _ => decide

theorem looserThan_one {e : Expr} (h : e.regular = true) : e.looserThan 1 = false := by
  cases e with
  | binary line op left right =>
    simp only [Expr.regular, Bool.and_eq_true] at h
    have := level_pos h.1.1
    simp only [Expr.looserThan, decide_eq_false_iff_not]
    omega
  | _ => rfl

theorem Operations.append : ∀ {ts mid rest : List Token} {before after : List (Token × Expr)},
    Operations ts before mid → Operations mid after rest → Operations ts (before ++ after) rest
  | _, _, _, _, _, .none, h => h
  | _, _, _, _, _, .more hop he hc, h => .more hop he (hc.append h)

/-- At the start of `ts` stand operands with operators between them, which group to `e`. Outside of
operands every operator binds tighter than `floor`. -/
def Chained (floor : Nat) (ts : List Token) (e : Expr) (rest : List Token) : Prop :=
  ∃ first chain mid, Operand ts first mid ∧ Operations mid chain rest ∧ Groups floor first chain e

theorem Operand.chained {ts rest : List Token} {e : Expr} (h : Operand ts e rest) (floor : Nat) :
    Chained floor ts e rest :=
  ⟨e, [], rest, h, .none, .operand⟩

theorem Chained.expression {ts rest : List Token} {e : Expr} (h : Chained 0 ts e rest) :
    Expression ts e rest := by
  obtain ⟨first, chain, mid, ho, hc, hg⟩ := h
  exact .intro ho hc hg

theorem Chained.binary {floor : Nat} {op : Token} {ts mid rest : List Token} {left right : Expr}
    (hop : floor < level op.kind) (hl : Chained (level op.kind - 1) ts left (op :: mid))
    (hr : Chained (level op.kind) mid right rest) :
    Chained floor ts (.binary op.line (Operator.ofSpelling op.text) left right) rest := by
  obtain ⟨first, before, mid', ho, hc, hg⟩ := hl
  obtain ⟨second, after, mid'', ho', hc', hg'⟩ := hr
  have hmem : op.kind ∈ levels.flatten :=
    mem_levels_iff.mpr (level_eq_precedence op.kind ▸ Nat.zero_lt_of_lt hop)
  exact ⟨first, before ++ (op, second) :: after, mid', ho, hc.append (.more hmem ho' hc'),
    .binary hop hg hg'⟩

theorem Expression.inParens {ts rest : List Token} {e : Expr}
    (h : Expression (ts ++ mark .closeParen ")" :: rest) e (mark .closeParen ")" :: rest)) :
    Operand (inParens ts ++ rest) e rest := by
  simp only [BlockScript.inParens, List.cons_append, List.append_assoc, List.nil_append]
  exact .group rfl h rfl

/-- The expression can be written in front of whatever binds no tighter than `floor`. -/
def Writable (e : Expr) : Prop :=
  ∀ (floor : Nat) (rest : List Token), e.looserThan (floor + 1) = false →
    Chained floor (e.tokens ++ rest) e rest

/-- An operand that is put in parentheses where it has to be. -/
theorem Writable.side {e : Expr} (h : Writable e) (hone : e.looserThan 1 = false) (floor : Nat)
    (rest : List Token) :
    Chained floor ((if e.looserThan (floor + 1) then inParens e.tokens else e.tokens) ++ rest)
      e rest := by
  by_cases hside : e.looserThan (floor + 1) = true
  · rw [if_pos hside]
    exact (h 0 _ hone).expression.inParens.chained floor
  · rw [if_neg hside]
    exact h floor rest (by simpa using hside)

theorem operand_token {v : Value} (h : v.isLiteral = true) (rest : List Token) :
    Operand (v.token :: rest) (.literal 1 v) rest := by
  cases v with
  | integer n => exact .number rfl rfl
  | float x => exact .number rfl rfl
  | text s => exact .string rfl
  | boolean b =>
    cases b with
    | true => exact .torchOn rfl
    | false => exact .torchOff rfl
  | void | array | unknown => cases h

mutual

/-- By induction on the tree, for every floor and everything that may stand behind. -/
theorem writable : ∀ e : Expr, e.regular = true → e.onFirstLine = true → Writable e
  | .literal line v, hr, hl => by
    intro floor rest _
    obtain rfl : line = 1 := by simpa [Expr.onFirstLine] using hl
    exact (operand_token hr rest).chained floor
  | .ident line name, _, hl => by
    intro floor rest _
    obtain rfl : line = 1 := by simpa [Expr.onFirstLine] using hl
    exact Operand.chained (.name (t := mark .identifier name) rfl) floor
  | .binary line op left right, hr, hl => by
    intro floor rest hfloor
    simp only [Expr.regular, Bool.and_eq_true] at hr
    simp only [Expr.onFirstLine, Bool.and_eq_true, decide_eq_true_eq] at hl
    simp only [Expr.looserThan, decide_eq_false_iff_not] at hfloor
    have hleft := (writable left hr.1.2 hl.1.2).side (looserThan_one hr.1.2) (op.level - 1)
    have hright := (writable right hr.2 hl.2).side (looserThan_one hr.2) op.level rest
    have hpos := level_pos hr.1.1
    rw [Nat.sub_add_cancel hpos] at hleft
    simp only [Expr.tokens, List.append_assoc, List.cons_append]
    have hlevel : level op.token.kind = op.level := level_kind op
    have hop : floor < op.level := Nat.lt_of_succ_le (Nat.not_lt.mp hfloor)
    have hread : Operator.ofSpelling op.token.text = op := ofSpelling_spelling hr.1.1
    rw [← hlevel] at hop hleft hright
    have h := Chained.binary hop (hleft _) hright
    rw [hread, hlevel] at h
    rwa [hl.1.1]
  | .call line name args, hr, hl => by
    intro floor rest _
    simp only [Expr.onFirstLine, Bool.and_eq_true, decide_eq_true_eq] at hl
    obtain rfl := hl.1
    have hargs := arguments_tokens args hr hl.2 (mark .closeParen ")" :: rest)
    simp only [Expr.tokens, inParens, List.cons_append, List.append_assoc, List.nil_append]
    exact Operand.chained (.call (t := mark .identifier name) rfl rfl hargs rfl) floor
  | .missing, hr, _ => by cases hr

theorem arguments_tokens : ∀ es : List Expr, Expr.allRegular es = true →
    Expr.allOnFirstLine es = true → ∀ rest : List Token,
    Arguments (separated (Expr.allTokens es) ++ rest) es rest
  | [], _, _, _ => .none
  | e :: es, hr, hl, rest => by
    simp only [Expr.allRegular, Bool.and_eq_true] at hr
    simp only [Expr.allOnFirstLine, Bool.and_eq_true] at hl
    have he := fun rest => (writable e hr.1 hl.1 0 rest (looserThan_one hr.1)).expression
    have hes := arguments_tokens es hr.2 hl.2 rest
    cases es with
    | nil => exact .some (.one (he rest))
    | cons e' es =>
      cases hes with
      | some hes =>
        simp only [Expr.allTokens, separated, List.append_assoc, List.cons_append]
        exact .some (.more (he _) rfl hes)

end

theorem expression_tokens {e : Expr} (hr : e.regular = true) (hl : e.onFirstLine = true)
    (rest : List Token) : Expression (e.tokens ++ rest) e rest :=
  (writable e hr hl 0 rest (looserThan_one hr)).expression

/-! ## The tokens are on line one -/

/-- Every token is part of a program and on line one. -/
def Marked (ts : List Token) : Prop := ∀ t ∈ ts, Proper t ∧ t.line = 1

theorem marked_nil : Marked [] := by simp [Marked]

theorem marked_cons {t : Token} {ts : List Token} :
    Marked (t :: ts) ↔ (Proper t ∧ t.line = 1) ∧ Marked ts :=
  List.forall_mem_cons

theorem marked_append {ts ts' : List Token} : Marked (ts ++ ts') ↔ Marked ts ∧ Marked ts' :=
  List.forall_mem_append

theorem proper_mark {k : Token.Kind} {text : String} :
    (Proper (mark k text) ∧ (mark k text).line = 1) ↔ k ≠ .error ∧ k ≠ .endOfInput := by
  simp [Proper, mark]

theorem marked_inParens {ts : List Token} (h : Marked ts) : Marked (inParens ts) := by
  simp [inParens, marked_cons, marked_append, marked_nil, proper_mark, h]

theorem marked_inBlock {ts : List Token} (h : Marked ts) : Marked (inBlock ts) := by
  simp [inBlock, marked_cons, marked_append, marked_nil, proper_mark, h]

theorem marked_separated : ∀ {tss : List (List Token)}, (∀ ts ∈ tss, Marked ts) →
    Marked (separated tss)
  | [], _ => marked_nil
  | [ts], h => h ts List.mem_cons_self
  | ts :: ts' :: more, h => by
    obtain ⟨hts, hmore⟩ := List.forall_mem_cons.mp h
    simp [separated, marked_append, marked_cons, proper_mark, hts, marked_separated hmore]

theorem marked_operator (op : Operator) : Proper op.token ∧ op.token.line = 1 := by
  refine proper_mark.mpr ?_
  cases op with
  | _ => simp [Operator.kind]

theorem marked_value (v : Value) : Proper v.token ∧ v.token.line = 1 := by
  unfold Value.token Proper
  split
  all_goals simp

mutual

theorem marked_expr : ∀ e : Expr, Marked e.tokens
  | .literal _ v => by simp [Expr.tokens, marked_cons, marked_nil, marked_value]
  | .ident _ _ => by simp [Expr.tokens, marked_cons, marked_nil, proper_mark]
  | .binary _ op left right => by
    have hl := marked_expr left
    have hr := marked_expr right
    simp only [Expr.tokens, marked_append, marked_cons]
    refine ⟨?_, marked_operator op, ?_⟩
    · split
      · exact marked_inParens hl
      · exact hl
    · split
      · exact marked_inParens hr
      · exact hr
  | .call _ _ args => by
    simp [Expr.tokens, marked_cons, proper_mark,
      marked_inParens (marked_separated (marked_args args))]
  | .missing => marked_nil

theorem marked_args : ∀ es : List Expr, ∀ ts ∈ Expr.allTokens es, Marked ts
  | [] => by simp [Expr.allTokens]
  | e :: es => List.forall_mem_cons.mpr ⟨marked_expr e, marked_args es⟩

end

theorem marked_annotation (a : Option Annotation) : Marked (annotationTokens a) := by
  cases a with
  | none => exact marked_nil
  | some a => simp [annotationTokens, marked_cons, marked_nil, proper_mark]

theorem marked_initial (e : Option Expr) : Marked (initialTokens e) := by
  cases e with
  | none => exact marked_nil
  | some e => simp [initialTokens, marked_cons, proper_mark, marked_expr]

theorem marked_params (ps : List Parameter) :
    Marked (separated (ps.map fun p => [mark .identifier p.name])) := by
  refine marked_separated fun ts hts => ?_
  obtain ⟨p, -, rfl⟩ := List.mem_map.mp hts
  simp [marked_cons, marked_nil, proper_mark]

mutual

theorem marked_stmt : ∀ s : Stmt, Marked s.tokens
  | .block _ body => marked_inBlock (marked_body body)
  | .function _ _ params returns _ body => by
    simp [Stmt.tokens, marked_cons, marked_append, proper_mark, marked_annotation,
      marked_inParens (marked_params params), marked_inBlock (marked_body body)]
  | .declare _ _ type value => by
    simp [Stmt.tokens, marked_cons, marked_append, proper_mark, marked_annotation, marked_initial]
  | .assign _ _ value => by
    simp [Stmt.tokens, marked_cons, proper_mark, marked_expr]
  | .branch _ _ _ thenBody otherwise => by
    simp [Stmt.tokens, marked_cons, marked_append, proper_mark, marked_expr,
      marked_inBlock (marked_body thenBody), marked_side otherwise]
  | .loop _ _ _ body => by
    simp [Stmt.tokens, marked_cons, marked_append, proper_mark, marked_expr,
      marked_inBlock (marked_body body)]
  | .giveBack _ value => by
    cases value with
    | none => simp [Stmt.tokens, marked_cons, marked_nil, proper_mark]
    | some e => simp [Stmt.tokens, marked_cons, proper_mark, marked_expr]
  | .print _ _ => by simp [Stmt.tokens, marked_cons, proper_mark, marked_expr]
  | .evaluate _ e => marked_expr e

theorem marked_body : ∀ ss : List Stmt, Marked (Stmt.bodyTokens ss)
  | [] => marked_nil
  | s :: ss => by
    simp [Stmt.bodyTokens, marked_append, marked_cons, proper_mark, marked_stmt s, marked_body ss]

theorem marked_side : ∀ s : Option Stmt, Marked (Stmt.sideTokens s)
  | none => marked_nil
  | some s => by simp [Stmt.sideTokens, marked_cons, proper_mark, marked_stmt s]

end

end Grammar

end BlockScript
