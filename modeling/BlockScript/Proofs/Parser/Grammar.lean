import BlockScript.Proofs.Parser.Grouping
import BlockScript.Parser.Statement

/-!
# The grammar

What a program is made of, without regard to how it is read. A phrase is described by the tokens at
which it starts, its tree, and the tokens behind it: `Expression ts e rest` says that an expression
with the tree `e` stands at the start of `ts`, and `rest` is what follows. A token list may have
several readings, since semicolons may be left out everywhere and `f (x)` is a call as well as two
statements.

* `Operand`, `Expression`: operands with operators between them, grouped by their levels.
* `Statement`, `Branch`, `Block`: statements. A return is without a value exactly if `Bare` holds of
  what follows its keyword.
* `Declaration`, **`Derives`**: what stands at the top level, and whole programs.
* `length_lt`: every phrase that is not optional takes a token at least.
-/

namespace BlockScript.Grammar

/-! ## Expressions -/

/-- The number that a token carries. -/
def numberOf (t : Token) : Option Value :=
  match t.literal with
  | some (.integer n) => some (.integer n)
  | some (.float x) => some (.float x)
  | _ => none

mutual

/-- A literal, a name, a call, or an expression in parentheses. -/
inductive Operand : List Token → Expr → List Token → Prop
  | number {t : Token} {v : Value} {rest : List Token} : t.kind = .number → numberOf t = some v →
      Operand (t :: rest) (.literal t.line v) rest
  | string {t : Token} {rest : List Token} : t.kind = .string →
      Operand (t :: rest) (.literal t.line (.text t.text)) rest
  | torchOn {t : Token} {rest : List Token} : t.kind = .torchOn →
      Operand (t :: rest) (.literal t.line (.boolean true)) rest
  | torchOff {t : Token} {rest : List Token} : t.kind = .torchOff →
      Operand (t :: rest) (.literal t.line (.boolean false)) rest
  | name {t : Token} {rest : List Token} : t.kind = .identifier →
      Operand (t :: rest) (.ident t.line t.text) rest
  | call {t o c : Token} {ts rest : List Token} {args : List Expr} : t.kind = .identifier →
      o.kind = .openParen → Arguments ts args (c :: rest) → c.kind = .closeParen →
      Operand (t :: o :: ts) (.call t.line t.text args) rest
  | group {o c : Token} {ts rest : List Token} {e : Expr} : o.kind = .openParen →
      Expression ts e (c :: rest) → c.kind = .closeParen → Operand (o :: ts) e rest

/-- The arguments of a call, of which there may be none. -/
inductive Arguments : List Token → List Expr → List Token → Prop
  | none {ts : List Token} : Arguments ts [] ts
  | some {ts rest : List Token} {es : List Expr} : Sequence ts es rest → Arguments ts es rest

/-- Expressions with commas between them. -/
inductive Sequence : List Token → List Expr → List Token → Prop
  | one {ts rest : List Token} {e : Expr} : Expression ts e rest → Sequence ts [e] rest
  | more {c : Token} {ts mid rest : List Token} {e : Expr} {es : List Expr} :
      Expression ts e (c :: mid) → c.kind = .comma → Sequence mid es rest →
      Sequence ts (e :: es) rest

/-- Operators, each with the operand behind it. -/
inductive Operations : List Token → List (Token × Expr) → List Token → Prop
  | none {ts : List Token} : Operations ts [] ts
  | more {op : Token} {ts mid rest : List Token} {e : Expr} {chain : List (Token × Expr)} :
      op.kind ∈ levels.flatten → Operand ts e mid → Operations mid chain rest →
      Operations (op :: ts) ((op, e) :: chain) rest

/-- Operands with operators between them. -/
inductive Expression : List Token → Expr → List Token → Prop
  | intro {ts mid rest : List Token} {first e : Expr} {chain : List (Token × Expr)} :
      Operand ts first mid → Operations mid chain rest → Groups 0 first chain e →
      Expression ts e rest

end

/-! ## Statements -/

/-- The semicolon that may end a statement. -/
inductive Terminator : List Token → List Token → Prop
  | none {ts : List Token} : Terminator ts ts
  | semicolon {t : Token} {rest : List Token} : t.kind = .semicolon → Terminator (t :: rest) rest

/-- An expression that ends a statement. -/
inductive Ended : List Token → Expr → List Token → Prop
  | intro {ts mid rest : List Token} {e : Expr} : Expression ts e mid → Terminator mid rest →
      Ended ts e rest

/-- The type that may be written behind a colon. -/
inductive Annotated : List Token → Option Annotation → List Token → Prop
  | none {ts : List Token} : Annotated ts none ts
  | some {c t : Token} {rest : List Token} : c.kind = .colon → t.kind = .typeName →
      Annotated (c :: t :: rest) (some ⟨t.line, t.text, DeclaredType.ofName t.text⟩) rest

/-- The declaration of a variable. -/
inductive VariableDecl : List Token → Stmt → List Token → Prop
  | plain {k n : Token} {ts mid rest : List Token} {type : Option Annotation} :
      k.kind = .declare → n.kind = .identifier → Annotated ts type mid → Terminator mid rest →
      VariableDecl (k :: n :: ts) (.declare k.line n.text type none) rest
  | initialized {k n a : Token} {ts mid rest : List Token} {type : Option Annotation} {e : Expr} :
      k.kind = .declare → n.kind = .identifier → Annotated ts type (a :: mid) →
      a.kind = .assign → Ended mid e rest →
      VariableDecl (k :: n :: ts) (.declare k.line n.text type (some e)) rest

/-- What follows the keyword of a return without a value: a semicolon, the end of the block or of
the input, or a token on a later line. -/
def Bare (keyword : Token) (rest : List Token) : Prop :=
  ∀ t ∈ rest.head?, t.kind = .semicolon ∨ t.kind = .blockClose ∨ keyword.line < t.line

mutual

/-- A block: the line on which it opens, and its statements. -/
inductive Block : List Token → Int → List Stmt → List Token → Prop
  | intro {o c : Token} {ts rest : List Token} {body : List Stmt} : o.kind = .blockOpen →
      Body ts body (c :: rest) → c.kind = .blockClose → Block (o :: ts) o.line body rest

/-- The declarations of variables and the statements in a block. -/
inductive Body : List Token → List Stmt → List Token → Prop
  | nil {ts : List Token} : Body ts [] ts
  | declare {ts mid rest : List Token} {s : Stmt} {ss : List Stmt} : VariableDecl ts s mid →
      Body mid ss rest → Body ts (s :: ss) rest
  | statement {ts mid rest : List Token} {s : Stmt} {ss : List Stmt} : Statement ts s mid →
      Body mid ss rest → Body ts (s :: ss) rest

/-- A statement. -/
inductive Statement : List Token → Stmt → List Token → Prop
  | branch {ts rest : List Token} {s : Stmt} : Branch ts s rest → Statement ts s rest
  | loop {k : Token} {ts mid mid' rest : List Token} {cond : Expr} {line : Int}
      {body : List Stmt} : k.kind = .loop → Expression ts cond mid → Block mid line body mid' →
      Terminator mid' rest → Statement (k :: ts) (.loop k.line cond line body) rest
  | giveNothing {k : Token} {ts rest : List Token} : k.kind = .giveBack → Bare k ts →
      Terminator ts rest → Statement (k :: ts) (.giveBack k.line none) rest
  | giveBack {k : Token} {ts rest : List Token} {e : Expr} : k.kind = .giveBack → ¬ Bare k ts →
      Ended ts e rest → Statement (k :: ts) (.giveBack k.line (some e)) rest
  | print {k : Token} {ts rest : List Token} {e : Expr} : k.kind = .print → Ended ts e rest →
      Statement (k :: ts) (.print k.line e) rest
  | block {ts mid rest : List Token} {line : Int} {body : List Stmt} : Block ts line body mid →
      Terminator mid rest → Statement ts (.block line body) rest
  | assign {n a : Token} {ts rest : List Token} {e : Expr} : n.kind = .identifier →
      a.kind = .assign → Ended ts e rest →
      Statement (n :: a :: ts) (.assign n.line n.text e) rest
  | evaluate {t : Token} {ts rest : List Token} {e : Expr} : Ended (t :: ts) e rest →
      Statement (t :: ts) (.evaluate t.line e) rest

/-- A branch. -/
inductive Branch : List Token → Stmt → List Token → Prop
  | intro {k : Token} {ts mid mid' mid'' rest : List Token} {cond : Expr} {line : Int}
      {body : List Stmt} {other : Option Stmt} : k.kind = .branch → Expression ts cond mid →
      Block mid line body mid' → Otherwise mid' other mid'' → Terminator mid'' rest →
      Branch (k :: ts) (.branch k.line cond line body other) rest

/-- The other side that a branch may have: a block or again a branch. -/
inductive Otherwise : List Token → Option Stmt → List Token → Prop
  | none {ts : List Token} : Otherwise ts none ts
  | block {k : Token} {ts rest : List Token} {line : Int} {body : List Stmt} :
      k.kind = .otherwise → Block ts line body rest →
      Otherwise (k :: ts) (some (.block line body)) rest
  | branch {k : Token} {ts rest : List Token} {s : Stmt} : k.kind = .otherwise →
      Branch ts s rest → Otherwise (k :: ts) (some s) rest

end

/-! ## Programs -/

/-- Parameters with commas between them. -/
inductive ParameterSequence : List Token → List Parameter → List Token → Prop
  | one {t : Token} {rest : List Token} : t.kind = .identifier →
      ParameterSequence (t :: rest) [⟨t.line, t.text⟩] rest
  | more {t c : Token} {ts rest : List Token} {ps : List Parameter} : t.kind = .identifier →
      c.kind = .comma → ParameterSequence ts ps rest →
      ParameterSequence (t :: c :: ts) (⟨t.line, t.text⟩ :: ps) rest

/-- The parameters of a function, of which there may be none. -/
inductive Parameters : List Token → List Parameter → List Token → Prop
  | none {ts : List Token} : Parameters ts [] ts
  | some {ts rest : List Token} {ps : List Parameter} : ParameterSequence ts ps rest →
      Parameters ts ps rest

/-- The declaration of a function. -/
inductive FunctionDecl : List Token → Stmt → List Token → Prop
  | intro {k n o c : Token} {ts ts' mid mid' rest : List Token} {ps : List Parameter}
      {returns : Option Annotation} {line : Int} {body : List Stmt} : k.kind = .function →
      n.kind = .identifier → o.kind = .openParen → Parameters ts ps (c :: ts') →
      c.kind = .closeParen → Annotated ts' returns mid → Block mid line body mid' →
      Terminator mid' rest →
      FunctionDecl (k :: n :: o :: ts) (.function k.line n.text ps returns line body) rest

/-- What stands at the top level. -/
inductive Declaration : List Token → Stmt → List Token → Prop
  | function {ts rest : List Token} {s : Stmt} : FunctionDecl ts s rest → Declaration ts s rest
  | declare {ts rest : List Token} {s : Stmt} : VariableDecl ts s rest → Declaration ts s rest
  | statement {ts rest : List Token} {s : Stmt} : Statement ts s rest → Declaration ts s rest

/-- Declarations up to the end of the input. -/
inductive Declarations : List Token → List Stmt → Prop
  | nil : Declarations [] []
  | cons {ts mid : List Token} {s : Stmt} {ss : List Stmt} : Declaration ts s mid →
      Declarations mid ss → Declarations ts (s :: ss)

/-- **The token list is a program with this tree.** A program starts on line one. -/
def Derives (ts : List Token) (p : Program) : Prop :=
  p.line = 1 ∧ Declarations ts p.declarations

/-! ## Phrases take tokens -/

mutual

theorem Operand.length_lt : ∀ {ts : List Token} {e : Expr} {rest : List Token},
    Operand ts e rest → rest.length < ts.length
  | _, _, _, .number _ _ | _, _, _, .string _ | _, _, _, .torchOn _ | _, _, _, .torchOff _
  | _, _, _, .name _ => Nat.lt_succ_self _
  | _, _, _, .call _ _ hargs _ => by
    have := hargs.length_le
    simp only [List.length_cons] at this ⊢
    omega
  | _, _, _, .group _ he _ => by
    have := he.length_lt
    simp only [List.length_cons] at this ⊢
    omega

theorem Arguments.length_le : ∀ {ts : List Token} {es : List Expr} {rest : List Token},
    Arguments ts es rest → rest.length ≤ ts.length
  | _, _, _, .none => Nat.le_refl _
  | _, _, _, .some h => Nat.le_of_lt h.length_lt

theorem Sequence.length_lt : ∀ {ts : List Token} {es : List Expr} {rest : List Token},
    Sequence ts es rest → rest.length < ts.length
  | _, _, _, .one h => h.length_lt
  | _, _, _, .more he _ hes => by
    have h₁ := he.length_lt
    have h₂ := hes.length_lt
    simp only [List.length_cons] at h₁
    omega

theorem Operations.length_le : ∀ {ts : List Token} {chain : List (Token × Expr)}
    {rest : List Token}, Operations ts chain rest → rest.length ≤ ts.length
  | _, _, _, .none => Nat.le_refl _
  | _, _, _, .more _ he hc => by
    have h₁ := he.length_lt
    have h₂ := hc.length_le
    simp only [List.length_cons]
    omega

theorem Expression.length_lt : ∀ {ts : List Token} {e : Expr} {rest : List Token},
    Expression ts e rest → rest.length < ts.length
  | _, _, _, .intro ho hc _ => Nat.lt_of_le_of_lt hc.length_le ho.length_lt

end

theorem Terminator.length_le {ts rest : List Token} (h : Terminator ts rest) :
    rest.length ≤ ts.length := by
  cases h with
  | none => exact Nat.le_refl _
  | semicolon _ => exact Nat.le_succ _

theorem Ended.length_lt {ts rest : List Token} {e : Expr} (h : Ended ts e rest) :
    rest.length < ts.length := by
  cases h with
  | intro he ht => exact Nat.lt_of_le_of_lt ht.length_le he.length_lt

theorem Annotated.length_le {ts rest : List Token} {a : Option Annotation}
    (h : Annotated ts a rest) : rest.length ≤ ts.length := by
  cases h with
  | none => exact Nat.le_refl _
  | some _ _ => exact Nat.le_add_right _ 2

theorem VariableDecl.length_lt {ts rest : List Token} {s : Stmt} (h : VariableDecl ts s rest) :
    rest.length < ts.length := by
  cases h with
  | plain _ _ ha ht =>
    have h₁ := ha.length_le
    have h₂ := ht.length_le
    simp only [List.length_cons]
    omega
  | initialized _ _ ha _ he =>
    have h₁ := ha.length_le
    have h₂ := he.length_lt
    simp only [List.length_cons] at h₁ ⊢
    omega

mutual

theorem Block.length_lt : ∀ {ts : List Token} {line : Int} {body : List Stmt} {rest : List Token},
    Block ts line body rest → rest.length < ts.length
  | _, _, _, _, .intro _ hb _ => by
    have := hb.length_le
    simp only [List.length_cons] at this ⊢
    omega

theorem Body.length_le : ∀ {ts : List Token} {ss : List Stmt} {rest : List Token},
    Body ts ss rest → rest.length ≤ ts.length
  | _, _, _, .nil => Nat.le_refl _
  | _, _, _, .declare hs hss => Nat.le_of_lt (Nat.lt_of_le_of_lt hss.length_le hs.length_lt)
  | _, _, _, .statement hs hss => Nat.le_of_lt (Nat.lt_of_le_of_lt hss.length_le hs.length_lt)

theorem Statement.length_lt : ∀ {ts : List Token} {s : Stmt} {rest : List Token},
    Statement ts s rest → rest.length < ts.length
  | _, _, _, .branch h => h.length_lt
  | _, _, _, .loop _ he hb ht => by
    have h₁ := he.length_lt
    have h₂ := hb.length_lt
    have h₃ := ht.length_le
    simp only [List.length_cons]
    omega
  | _, _, _, .giveNothing _ _ ht => Nat.lt_succ_of_le ht.length_le
  | _, _, _, .giveBack _ _ he | _, _, _, .print _ he => Nat.lt_succ_of_lt he.length_lt
  | _, _, _, .block hb ht => Nat.lt_of_le_of_lt ht.length_le hb.length_lt
  | _, _, _, .assign _ _ he => Nat.lt_succ_of_lt (Nat.lt_succ_of_lt he.length_lt)
  | _, _, _, .evaluate he => he.length_lt

theorem Branch.length_lt : ∀ {ts : List Token} {s : Stmt} {rest : List Token},
    Branch ts s rest → rest.length < ts.length
  | _, _, _, .intro _ he hb ho ht => by
    have h₁ := he.length_lt
    have h₂ := hb.length_lt
    have h₃ := ho.length_le
    have h₄ := ht.length_le
    simp only [List.length_cons]
    omega

theorem Otherwise.length_le : ∀ {ts : List Token} {s : Option Stmt} {rest : List Token},
    Otherwise ts s rest → rest.length ≤ ts.length
  | _, _, _, .none => Nat.le_refl _
  | _, _, _, .block _ hb => Nat.le_succ_of_le (Nat.le_of_lt hb.length_lt)
  | _, _, _, .branch _ hb => Nat.le_succ_of_le (Nat.le_of_lt hb.length_lt)

end

theorem ParameterSequence.length_lt {ts rest : List Token} {ps : List Parameter}
    (h : ParameterSequence ts ps rest) : rest.length < ts.length := by
  induction h with
  | one _ => exact Nat.lt_succ_self _
  | more _ _ _ ih => exact Nat.lt_succ_of_lt (Nat.lt_succ_of_lt ih)

theorem Parameters.length_le {ts rest : List Token} {ps : List Parameter}
    (h : Parameters ts ps rest) : rest.length ≤ ts.length := by
  cases h with
  | none => exact Nat.le_refl _
  | some h => exact Nat.le_of_lt h.length_lt

theorem FunctionDecl.length_lt {ts rest : List Token} {s : Stmt} (h : FunctionDecl ts s rest) :
    rest.length < ts.length := by
  cases h with
  | intro _ _ _ hp _ ha hb ht =>
    have h₁ := hp.length_le
    have h₂ := ha.length_le
    have h₃ := hb.length_lt
    have h₄ := ht.length_le
    simp only [List.length_cons] at h₁ ⊢
    omega

theorem Declaration.length_lt {ts rest : List Token} {s : Stmt} (h : Declaration ts s rest) :
    rest.length < ts.length := by
  cases h with
  | function h => exact h.length_lt
  | declare h => exact h.length_lt
  | statement h => exact h.length_lt

end BlockScript.Grammar
