import BlockScript.Proofs.Parser.Grammar

/-!
# The shape of trees

Not every tree is one that can be written down. A regular one has its functions at the top level
only, another branch or a block on the other side of a branch, and nothing left out.

* `Expr.regular`, `Stmt.regular`, `Program.regular`: the shape, one equation for each constructor.
* `Spelled`: every operator token has the spelling of one of the twelve operators.
* **`Derives.regular`**: what the grammar derives from such tokens has the shape.
-/

namespace BlockScript

/-! ## Regular trees -/

/-- The operator is one of the twelve. -/
def Operator.known : Operator → Bool
  | .other _ => false
  | _ => true

/-- A value that can be written as a literal. -/
def Value.isLiteral : Value → Bool
  | .integer _ | .float _ | .text _ | .boolean _ => true
  | .void | .array | .unknown => false

mutual

/-- The shape of an expression. -/
def Expr.regular : Expr → Bool
  | .literal _ value => value.isLiteral
  | .ident _ _ => true
  | .binary _ op left right => op.known && left.regular && right.regular
  | .call _ _ args => Expr.allRegular args
  | .missing => false

/-- The shape of the arguments of a call. -/
def Expr.allRegular : List Expr → Bool
  | [] => true
  | e :: es => e.regular && Expr.allRegular es

end

/-- The type of an annotation is the one that its name stands for. -/
def hasNamedType (a : Annotation) : Bool :=
  a.type = DeclaredType.ofName a.name

/-- The statements that can be the other side of a branch. -/
def Stmt.isSide : Stmt → Bool
  | .block .. | .branch .. => true
  | _ => false

mutual

/-- The shape of a statement. -/
def Stmt.regular : Stmt → Bool
  | .block _ body => Stmt.allRegular body
  | .function .. => false
  | .declare _ _ type value => type.all hasNamedType && value.all Expr.regular
  | .assign _ _ value => value.regular
  | .branch _ cond _ thenBody otherwise =>
    cond.regular && Stmt.allRegular thenBody && Stmt.regularSide otherwise
  | .loop _ cond _ body => cond.regular && Stmt.allRegular body
  | .giveBack _ value => value.all Expr.regular
  | .print _ value => value.regular
  | .evaluate _ value => value.regular

/-- The shape of the statements of a block. -/
def Stmt.allRegular : List Stmt → Bool
  | [] => true
  | s :: ss => s.regular && Stmt.allRegular ss

/-- The shape of the other side of a branch. -/
def Stmt.regularSide : Option Stmt → Bool
  | none => true
  | some s => s.isSide && s.regular

end

/-- The shape of what stands at the top level. -/
def Stmt.regularTop : Stmt → Bool
  | .function _ _ _ returns _ body => returns.all hasNamedType && Stmt.allRegular body
  | s => s.regular

/-- The shape of a program. -/
def Program.regular (p : Program) : Bool :=
  p.declarations.all Stmt.regularTop

theorem Stmt.regularTop_of_regular {s : Stmt} (h : s.regular = true) : s.regularTop = true := by
  cases s with
  | function => cases h
  | _ => exact h

namespace Grammar

/-! ## Derived trees are regular -/

/-- Every operator token has the spelling of an operator. -/
def Spelled (ts : List Token) : Prop :=
  ∀ t ∈ ts, 0 < t.kind.precedence → (Operator.ofSpelling t.text).known = true

theorem Spelled.tail {t : Token} {ts : List Token} (h : Spelled (t :: ts)) : Spelled ts :=
  fun u hu => h u (List.mem_cons_of_mem t hu)

theorem Groups.regular {floor : Nat} {first e : Expr} {chain : List (Token × Expr)}
    (h : Groups floor first chain e) (hfirst : first.regular = true)
    (hchain : ∀ x ∈ chain, (Operator.ofSpelling x.1.text).known = true ∧ x.2.regular = true) :
    e.regular = true := by
  induction h with
  | operand => exact hfirst
  | @binary floor first second left right before after op _ _ _ ihl ihr =>
    have hop := hchain (op, second) (by simp)
    have hl := ihl hfirst fun x hx => hchain x (by simp [hx])
    have hr := ihr hop.2 fun x hx => hchain x (by simp [hx])
    simp [Expr.regular, hop.1, hl, hr]

mutual

theorem Operand.regular : ∀ {ts : List Token} {e : Expr} {rest : List Token},
    Operand ts e rest → Spelled ts → e.regular = true ∧ Spelled rest
  | _, _, _, @Operand.number t _ _ _ hv, h => by
    refine ⟨?_, h.tail⟩
    unfold numberOf at hv
    split at hv
    · cases hv
      rfl
    · cases hv
      rfl
    · cases hv
  | _, _, _, .string _, h | _, _, _, .torchOn _, h | _, _, _, .torchOff _, h
  | _, _, _, .name _, h => ⟨rfl, h.tail⟩
  | _, _, _, .call _ _ hargs _, h =>
    have ⟨hregular, hrest⟩ := hargs.regular h.tail.tail
    ⟨hregular, hrest.tail⟩
  | _, _, _, .group _ he _, h =>
    have ⟨hregular, hrest⟩ := he.regular h.tail
    ⟨hregular, hrest.tail⟩

theorem Arguments.regular : ∀ {ts : List Token} {es : List Expr} {rest : List Token},
    Arguments ts es rest → Spelled ts → Expr.allRegular es = true ∧ Spelled rest
  | _, _, _, .none, h => ⟨rfl, h⟩
  | _, _, _, .some hes, h => hes.regular h

theorem Sequence.regular : ∀ {ts : List Token} {es : List Expr} {rest : List Token},
    Sequence ts es rest → Spelled ts → Expr.allRegular es = true ∧ Spelled rest
  | _, _, _, .one he, h => by
    obtain ⟨hregular, hrest⟩ := he.regular h
    exact ⟨by simp [Expr.allRegular, hregular], hrest⟩
  | _, _, _, .more he _ hes, h => by
    obtain ⟨hregular, hmid⟩ := he.regular h
    obtain ⟨hall, hrest⟩ := hes.regular hmid.tail
    exact ⟨by simp [Expr.allRegular, hregular, hall], hrest⟩

theorem Operations.regular : ∀ {ts : List Token} {chain : List (Token × Expr)}
    {rest : List Token}, Operations ts chain rest → Spelled ts →
    (∀ x ∈ chain, (Operator.ofSpelling x.1.text).known = true ∧ x.2.regular = true) ∧
      Spelled rest
  | _, _, _, .none, h => ⟨by simp, h⟩
  | _, _, _, @Operations.more op _ _ _ _ _ hop he hc, h => by
    obtain ⟨hregular, hmid⟩ := he.regular h.tail
    obtain ⟨hall, hrest⟩ := hc.regular hmid
    refine ⟨?_, hrest⟩
    intro x hx
    rcases List.mem_cons.mp hx with rfl | hx
    · exact ⟨h op List.mem_cons_self (mem_levels_iff.mp hop), hregular⟩
    · exact hall x hx

theorem Expression.regular : ∀ {ts : List Token} {e : Expr} {rest : List Token},
    Expression ts e rest → Spelled ts → e.regular = true ∧ Spelled rest
  | _, _, _, .intro ho hc hg, h => by
    obtain ⟨hfirst, hmid⟩ := ho.regular h
    obtain ⟨hchain, hrest⟩ := hc.regular hmid
    exact ⟨hg.regular hfirst hchain, hrest⟩

end

theorem Terminator.spelled {ts rest : List Token} (h : Terminator ts rest) (hts : Spelled ts) :
    Spelled rest := by
  cases h with
  | none => exact hts
  | semicolon _ => exact hts.tail

theorem Ended.regular {ts rest : List Token} {e : Expr} (h : Ended ts e rest) (hts : Spelled ts) :
    e.regular = true ∧ Spelled rest := by
  cases h with
  | intro he ht =>
    obtain ⟨hregular, hmid⟩ := he.regular hts
    exact ⟨hregular, ht.spelled hmid⟩

theorem Annotated.regular {ts rest : List Token} {a : Option Annotation}
    (h : Annotated ts a rest) (hts : Spelled ts) :
    a.all hasNamedType = true ∧ Spelled rest := by
  cases h with
  | none => exact ⟨rfl, hts⟩
  | some _ _ => exact ⟨by simp [hasNamedType], hts.tail.tail⟩

theorem VariableDecl.regular {ts rest : List Token} {s : Stmt} (h : VariableDecl ts s rest)
    (hts : Spelled ts) : s.regular = true ∧ Spelled rest := by
  cases h with
  | plain _ _ ha ht =>
    obtain ⟨hregular, hmid⟩ := ha.regular hts.tail.tail
    exact ⟨by simp [Stmt.regular, hregular], ht.spelled hmid⟩
  | initialized _ _ ha _ he =>
    obtain ⟨hregular, hmid⟩ := ha.regular hts.tail.tail
    obtain ⟨hvalue, hrest⟩ := he.regular hmid.tail
    exact ⟨by simp [Stmt.regular, hregular, hvalue], hrest⟩

mutual

theorem Block.regular : ∀ {ts : List Token} {line : Int} {body : List Stmt} {rest : List Token},
    Block ts line body rest → Spelled ts → Stmt.allRegular body = true ∧ Spelled rest
  | _, _, _, _, .intro _ hb _, h =>
    have ⟨hregular, hrest⟩ := hb.regular h.tail
    ⟨hregular, hrest.tail⟩

theorem Body.regular : ∀ {ts : List Token} {ss : List Stmt} {rest : List Token},
    Body ts ss rest → Spelled ts → Stmt.allRegular ss = true ∧ Spelled rest
  | _, _, _, .nil, h => ⟨rfl, h⟩
  | _, _, _, .declare hs hss, h => by
    obtain ⟨hregular, hmid⟩ := hs.regular h
    obtain ⟨hall, hrest⟩ := hss.regular hmid
    exact ⟨by simp [Stmt.allRegular, hregular, hall], hrest⟩
  | _, _, _, .statement hs hss, h => by
    obtain ⟨hregular, hmid⟩ := hs.regular h
    obtain ⟨hall, hrest⟩ := hss.regular hmid
    exact ⟨by simp [Stmt.allRegular, hregular, hall], hrest⟩

theorem Statement.regular : ∀ {ts : List Token} {s : Stmt} {rest : List Token},
    Statement ts s rest → Spelled ts → s.regular = true ∧ Spelled rest
  | _, _, _, .branch hb, h =>
    have ⟨_, hregular, hrest⟩ := hb.regular h
    ⟨hregular, hrest⟩
  | _, _, _, .loop _ he hb ht, h => by
    obtain ⟨hcond, hmid⟩ := he.regular h.tail
    obtain ⟨hbody, hmid'⟩ := hb.regular hmid
    exact ⟨by simp [Stmt.regular, hcond, hbody], ht.spelled hmid'⟩
  | _, _, _, .giveNothing _ _ ht, h => ⟨rfl, ht.spelled h.tail⟩
  | _, _, _, .giveBack _ _ he, h | _, _, _, .print _ he, h => he.regular h.tail
  | _, _, _, .block hb ht, h =>
    have ⟨hbody, hmid⟩ := hb.regular h
    ⟨hbody, ht.spelled hmid⟩
  | _, _, _, .assign _ _ he, h => he.regular h.tail.tail
  | _, _, _, .evaluate he, h => he.regular h

theorem Branch.regular : ∀ {ts : List Token} {s : Stmt} {rest : List Token},
    Branch ts s rest → Spelled ts → s.isSide = true ∧ s.regular = true ∧ Spelled rest
  | _, _, _, .intro _ he hb ho ht, h => by
    obtain ⟨hcond, hmid⟩ := he.regular h.tail
    obtain ⟨hbody, hmid'⟩ := hb.regular hmid
    obtain ⟨hother, hmid''⟩ := ho.regular hmid'
    exact ⟨rfl, by simp [Stmt.regular, hcond, hbody, hother], ht.spelled hmid''⟩

theorem Otherwise.regular : ∀ {ts : List Token} {s : Option Stmt} {rest : List Token},
    Otherwise ts s rest → Spelled ts → Stmt.regularSide s = true ∧ Spelled rest
  | _, _, _, .none, h => ⟨rfl, h⟩
  | _, _, _, .block _ hb, h =>
    have ⟨hbody, hrest⟩ := hb.regular h.tail
    ⟨hbody, hrest⟩
  | _, _, _, .branch _ hb, h => by
    obtain ⟨hside, hregular, hrest⟩ := hb.regular h.tail
    exact ⟨by simp [Stmt.regularSide, hside, hregular], hrest⟩

end

theorem ParameterSequence.spelled {ts rest : List Token} {ps : List Parameter}
    (h : ParameterSequence ts ps rest) (hts : Spelled ts) : Spelled rest := by
  induction h with
  | one _ => exact hts.tail
  | more _ _ _ ih => exact ih hts.tail.tail

theorem Parameters.spelled {ts rest : List Token} {ps : List Parameter}
    (h : Parameters ts ps rest) (hts : Spelled ts) : Spelled rest := by
  cases h with
  | none => exact hts
  | some h => exact h.spelled hts

theorem Declaration.regularTop {ts rest : List Token} {s : Stmt} (h : Declaration ts s rest)
    (hts : Spelled ts) : s.regularTop = true ∧ Spelled rest := by
  cases h with
  | function h =>
    cases h with
    | intro _ _ _ hp _ ha hb ht =>
      obtain ⟨hreturns, hmid⟩ := ha.regular (hp.spelled hts.tail.tail.tail).tail
      obtain ⟨hbody, hmid'⟩ := hb.regular hmid
      exact ⟨by simp [Stmt.regularTop, hreturns, hbody], ht.spelled hmid'⟩
  | declare h =>
    obtain ⟨hregular, hrest⟩ := h.regular hts
    exact ⟨Stmt.regularTop_of_regular hregular, hrest⟩
  | statement h =>
    obtain ⟨hregular, hrest⟩ := h.regular hts
    exact ⟨Stmt.regularTop_of_regular hregular, hrest⟩

theorem Declarations.regular {ts : List Token} {ss : List Stmt} (h : Declarations ts ss)
    (hts : Spelled ts) : ss.all Stmt.regularTop = true := by
  induction h with
  | nil => rfl
  | cons hs _ ih =>
    obtain ⟨hregular, hmid⟩ := hs.regularTop hts
    simp [hregular, ih hmid]

/-- **A program that is derived from well spelled tokens is regular.** -/
theorem Derives.regular {ts : List Token} {p : Program} (h : Derives ts p) (hts : Spelled ts) :
    p.regular = true :=
  h.2.regular hts

end Grammar

end BlockScript
