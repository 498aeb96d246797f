import BlockScript.Proofs.Parser.Language
import BlockScript.Proofs.Parser.Recovery

/-!
# The tokens of a phrase

Between the tokens at which a phrase starts and those behind it stand its own tokens. Blocks are
whole among them, and what is made without blocks has no edge of a block in it.

* `Flat`: a phrase without blocks. `Whole`, `Takes`: a phrase whose blocks are whole.
* `Declaration.takes`: all phrases are of this sort, one lemma for each of them.
* `Flat.locate`, `Takes.locate`: whether the end of a block stands in a phrase or behind it.
-/

namespace BlockScript.Grammar

open BlockScript.Parser

/-! ## Phrases without blocks -/

/-- The kinds of tokens that are part of a program and not the edge of a block. -/
def isPlain (k : Token.Kind) : Bool :=
  !isEdge k && k ≠ .error && k ≠ .endOfInput

/-- The tokens of a phrase are neither edges of blocks nor errors. -/
def Flat (ts rest : List Token) : Prop :=
  ∃ front, ts = front ++ rest ∧ ∀ t ∈ front, isPlain t.kind = true

theorem Flat.refl (ts : List Token) : Flat ts ts :=
  ⟨[], rfl, fun _ ht => absurd ht List.not_mem_nil⟩

theorem Flat.trans {ts mid rest : List Token} (h : Flat ts mid) (h' : Flat mid rest) :
    Flat ts rest := by
  obtain ⟨front, rfl, hfront⟩ := h
  obtain ⟨front', rfl, hfront'⟩ := h'
  exact ⟨front ++ front', (List.append_assoc ..).symm,
    List.forall_mem_append.mpr ⟨hfront, hfront'⟩⟩

theorem Flat.cons {t : Token} {ts rest : List Token} (ht : isPlain t.kind = true)
    (h : Flat ts rest) : Flat (t :: ts) rest := by
  obtain ⟨front, rfl, hfront⟩ := h
  exact ⟨t :: front, rfl, List.forall_mem_cons.mpr ⟨ht, hfront⟩⟩

/-- One token of a given kind. -/
theorem flat_token {t : Token} {k : Token.Kind} (rest : List Token) (ht : t.kind = k)
    (hk : isPlain k = true) : Flat (t :: rest) rest :=
  .cons (ht ▸ hk) (.refl rest)

theorem isPlain_of_operator {k : Token.Kind} (h : k ∈ levels.flatten) : isPlain k = true := by
  cases k with
  | error | endOfInput | blockOpen | blockClose => exact absurd h (by decide)
  | _ => rfl

mutual

theorem Operand.flat : ∀ {ts : List Token} {e : Expr} {rest : List Token},
    Operand ts e rest → Flat ts rest
  | _, _, rest, .number ht _ | _, _, rest, .string ht | _, _, rest, .torchOn ht
  | _, _, rest, .torchOff ht | _, _, rest, .name ht => flat_token rest ht rfl
  | _, _, rest, .call ht ho hargs hc => .cons (ht ▸ rfl) (.cons (ho ▸ rfl)
      (hargs.flat.trans (flat_token rest hc rfl)))
  | _, _, rest, .group ho he hc => .cons (ho ▸ rfl) (he.flat.trans (flat_token rest hc rfl))

theorem Arguments.flat : ∀ {ts : List Token} {es : List Expr} {rest : List Token},
    Arguments ts es rest → Flat ts rest
  | _, _, _, .none => .refl _
  | _, _, _, .some h => h.flat

theorem Sequence.flat : ∀ {ts : List Token} {es : List Expr} {rest : List Token},
    Sequence ts es rest → Flat ts rest
  | _, _, _, .one h => h.flat
  | _, _, _, .more he hc hes => he.flat.trans (.cons (hc ▸ rfl) hes.flat)

theorem Operations.flat : ∀ {ts : List Token} {chain : List (Token × Expr)} {rest : List Token},
    Operations ts chain rest → Flat ts rest
  | _, _, _, .none => .refl _
  | _, _, _, .more hop he hc => .cons (isPlain_of_operator hop) (he.flat.trans hc.flat)

theorem Expression.flat : ∀ {ts : List Token} {e : Expr} {rest : List Token},
    Expression ts e rest → Flat ts rest
  | _, _, _, .intro ho hc _ => ho.flat.trans hc.flat

end

theorem Terminator.flat {ts rest : List Token} (h : Terminator ts rest) : Flat ts rest := by
  cases h with
  | none => exact .refl _
  | semicolon ht => exact flat_token rest ht rfl

theorem Ended.flat {ts rest : List Token} {e : Expr} (h : Ended ts e rest) : Flat ts rest := by
  cases h with
  | intro he ht => exact he.flat.trans ht.flat

theorem Annotated.flat {ts rest : List Token} {a : Option Annotation} (h : Annotated ts a rest) :
    Flat ts rest := by
  cases h with
  | none => exact .refl _
  | some hc ht => exact .cons (hc ▸ rfl) (flat_token rest ht rfl)

theorem VariableDecl.flat {ts rest : List Token} {s : Stmt} (h : VariableDecl ts s rest) :
    Flat ts rest := by
  cases h with
  | plain hk hn ha ht => exact .cons (hk ▸ rfl) (.cons (hn ▸ rfl) (ha.flat.trans ht.flat))
  | initialized hk hn ha harrow he =>
    exact .cons (hk ▸ rfl) (.cons (hn ▸ rfl) (ha.flat.trans (.cons (harrow ▸ rfl) he.flat)))

theorem ParameterSequence.flat {ts rest : List Token} {ps : List Parameter}
    (h : ParameterSequence ts ps rest) : Flat ts rest := by
  induction h with
  | one ht => exact flat_token _ ht rfl
  | more ht hc _ ih => exact .cons (ht ▸ rfl) (.cons (hc ▸ rfl) ih)

theorem Parameters.flat {ts rest : List Token} {ps : List Parameter}
    (h : Parameters ts ps rest) : Flat ts rest := by
  cases h with
  | none => exact .refl _
  | some h => exact h.flat

/-! ## Whole blocks -/

/-- Every block that these tokens open is closed by them, and no other. -/
structure Whole (ts : List Token) : Prop where
  nesting_eq : nesting ts = 0
  wellNested : WellNested ts
  proper : ∀ t ∈ ts, Proper t

theorem whole_nil : Whole [] := by
  refine ⟨rfl, fun front rest h => ?_, fun _ ht => absurd ht List.not_mem_nil⟩
  rw [(List.append_eq_nil_iff.mp h.symm).1]
  exact Int.le_refl 0

theorem Whole.append {ts us : List Token} (h : Whole ts) (h' : Whole us) : Whole (ts ++ us) := by
  refine ⟨?_, fun front rest hts => ?_, List.forall_mem_append.mpr ⟨h.proper, h'.proper⟩⟩
  · rw [nesting_append, h.nesting_eq, h'.nesting_eq]
    rfl
  · rcases List.append_eq_append_iff.mp hts with ⟨as, rfl, has⟩ | ⟨bs, hbs, -⟩
    · have := h'.wellNested as rest has
      rwa [nesting_append, h.nesting_eq, Int.zero_add]
    · exact h.wellNested front bs hbs

theorem whole_token {t : Token} (ht : isPlain t.kind = true) : Whole [t] := by
  simp only [isPlain, Bool.and_eq_true, Bool.not_eq_true', decide_eq_true_eq] at ht
  have hweight : nesting [t] = 0 := by simp [weight_eq_zero ht.1.1]
  refine ⟨hweight, fun front rest h => ?_, by simpa [Proper] using ⟨ht.1.2, ht.2⟩⟩
  rcases List.append_eq_cons_iff.mp h.symm with ⟨rfl, -⟩ | ⟨as, rfl, has⟩
  · exact Int.le_refl 0
  · obtain ⟨rfl, -⟩ := List.append_eq_nil_iff.mp has.symm
    exact Int.le_of_eq hweight.symm

/-- A block around whole ones. -/
theorem Whole.block {o c : Token} {ts : List Token} (ho : o.kind = .blockOpen) (h : Whole ts)
    (hc : c.kind = .blockClose) : Whole (o :: ts ++ [c]) := by
  have hopen : weight o = 1 := by rw [weight, ho]
  have hclose : weight c = -1 := by rw [weight, hc]
  have hnesting : nesting (o :: ts ++ [c]) = 0 := by
    simp [h.nesting_eq, hopen, hclose]
  refine ⟨hnesting, fun front rest hts => ?_, ?_⟩
  · cases front with
    | nil => exact Int.le_refl 0
    | cons t front =>
      simp only [List.cons_append, List.cons.injEq] at hts
      obtain ⟨rfl, hts⟩ := hts
      rcases List.append_eq_append_iff.mp hts with ⟨as, rfl, has⟩ | ⟨bs, hbs, -⟩
      · rcases List.append_eq_cons_iff.mp has.symm with ⟨rfl, -⟩ | ⟨as', rfl, has'⟩
        · simp [h.nesting_eq, hopen]
        · obtain ⟨rfl, -⟩ := List.append_eq_nil_iff.mp has'.symm
          exact Int.le_of_eq hnesting.symm
      · have := h.wellNested front bs hbs
        rw [nesting_cons, hopen]
        omega
  · intro t ht
    simp only [List.cons_append, List.mem_cons, List.mem_append, List.not_mem_nil, or_false] at ht
    rcases ht with rfl | ht | rfl
    · exact ⟨by rw [ho]; decide, by rw [ho]; decide⟩
    · exact h.proper t ht
    · exact ⟨by rw [hc]; decide, by rw [hc]; decide⟩

/-- The tokens of a phrase have whole blocks only. -/
def Takes (ts rest : List Token) : Prop :=
  ∃ front, ts = front ++ rest ∧ Whole front

theorem Takes.refl (ts : List Token) : Takes ts ts := ⟨[], rfl, whole_nil⟩

theorem Takes.trans {ts mid rest : List Token} (h : Takes ts mid) (h' : Takes mid rest) :
    Takes ts rest := by
  obtain ⟨front, rfl, hfront⟩ := h
  obtain ⟨front', rfl, hfront'⟩ := h'
  exact ⟨front ++ front', (List.append_assoc ..).symm, hfront.append hfront'⟩

theorem Flat.takes {ts rest : List Token} (h : Flat ts rest) : Takes ts rest := by
  obtain ⟨front, rfl, hfront⟩ := h
  refine ⟨front, rfl, ?_⟩
  induction front with
  | nil => exact whole_nil
  | cons t front ih =>
    obtain ⟨ht, hfront⟩ := List.forall_mem_cons.mp hfront
    exact (whole_token ht).append (ih hfront)

/-- A block around whole ones is whole. -/
theorem Takes.block {o c : Token} {ts rest : List Token} (ho : o.kind = .blockOpen)
    (h : Takes ts (c :: rest)) (hc : c.kind = .blockClose) : Takes (o :: ts) rest := by
  obtain ⟨inner, rfl, hinner⟩ := h
  exact ⟨o :: inner ++ [c], by simp, hinner.block ho hc⟩

mutual

theorem Block.takes : ∀ {ts : List Token} {line : Int} {body : List Stmt} {rest : List Token},
    Block ts line body rest → Takes ts rest
  | _, _, _, _, .intro ho hb hc => .block ho hb.takes hc

theorem Body.takes : ∀ {ts : List Token} {ss : List Stmt} {rest : List Token},
    Body ts ss rest → Takes ts rest
  | _, _, _, .nil => .refl _
  | _, _, _, .declare hs hss => hs.flat.takes.trans hss.takes
  | _, _, _, .statement hs hss => hs.takes.trans hss.takes

theorem Statement.takes : ∀ {ts : List Token} {s : Stmt} {rest : List Token},
    Statement ts s rest → Takes ts rest
  | _, _, _, .branch h => h.takes
  | _, _, _, .loop hk he hb ht =>
    ((Flat.cons (hk ▸ rfl) he.flat).takes.trans hb.takes).trans ht.flat.takes
  | _, _, _, .giveNothing hk _ ht => (Flat.cons (hk ▸ rfl) ht.flat).takes
  | _, _, _, .giveBack hk _ he | _, _, _, .print hk he => (Flat.cons (hk ▸ rfl) he.flat).takes
  | _, _, _, .block hb ht => hb.takes.trans ht.flat.takes
  | _, _, _, .assign hn ha he => (Flat.cons (hn ▸ rfl) (Flat.cons (ha ▸ rfl) he.flat)).takes
  | _, _, _, .evaluate he => he.flat.takes

theorem Branch.takes : ∀ {ts : List Token} {s : Stmt} {rest : List Token},
    Branch ts s rest → Takes ts rest
  | _, _, _, .intro hk he hb ho ht =>
    (((Flat.cons (hk ▸ rfl) he.flat).takes.trans hb.takes).trans ho.takes).trans ht.flat.takes

theorem Otherwise.takes : ∀ {ts : List Token} {s : Option Stmt} {rest : List Token},
    Otherwise ts s rest → Takes ts rest
  | _, _, _, .none => .refl _
  | _, _, _, .block hk hb => (flat_token _ hk rfl).takes.trans hb.takes
  | _, _, _, .branch hk hb => (flat_token _ hk rfl).takes.trans hb.takes

end

/-- What stands before the body of a function. -/
theorem flat_functionHead {k n o c : Token} {ts ts' mid : List Token} {ps : List Parameter}
    {returns : Option Annotation} (hk : k.kind = .function) (hn : n.kind = .identifier)
    (ho : o.kind = .openParen) (hp : Parameters ts ps (c :: ts')) (hc : c.kind = .closeParen)
    (ha : Annotated ts' returns mid) : Flat (k :: n :: o :: ts) mid :=
  .cons (hk ▸ rfl) (.cons (hn ▸ rfl) (.cons (ho ▸ rfl)
    (hp.flat.trans (.cons (hc ▸ rfl) ha.flat))))

theorem Declaration.takes {ts rest : List Token} {s : Stmt} (h : Declaration ts s rest) :
    Takes ts rest := by
  cases h with
  | function h =>
    cases h with
    | intro hk hn ho hp hc ha hb ht =>
      exact ((flat_functionHead hk hn ho hp hc ha).takes.trans hb.takes).trans ht.flat.takes
  | declare h => exact h.flat.takes
  | statement h => exact h.takes

/-- A block is its edges, with whole blocks between them. -/
theorem Block.inside {ts rest : List Token} {line : Int} {body : List Stmt}
    (h : Block ts line body rest) : ∃ o inner c, ts = o :: inner ++ c :: rest ∧
      o.kind = .blockOpen ∧ c.kind = .blockClose ∧ Whole inner := by
  cases h with
  | intro ho hb hc =>
    obtain ⟨inner, rfl, hinner⟩ := hb.takes
    exact ⟨_, inner, _, rfl, ho, hc, hinner⟩

/-! ## Places -/

variable {ts mid rest front back : List Token} {c : Token}

/-- A token stands in a phrase or behind it, with as many blocks open there. -/
theorem Takes.locate (h : Takes ts mid) (hts : ts = front ++ c :: back) :
    (∃ inner, ts = front ++ c :: inner ++ mid ∧ back = inner ++ mid) ∨
      ∃ front', mid = front' ++ c :: back ∧ nesting front' = nesting front := by
  obtain ⟨own, rfl, hown⟩ := h
  rcases List.append_eq_append_iff.mp hts with ⟨as, rfl, has⟩ | ⟨bs, rfl, hbs⟩
  · refine .inr ⟨as, has, ?_⟩
    rw [nesting_append, hown.nesting_eq, Int.zero_add]
  · cases bs with
    | nil =>
      refine .inr ⟨[], hbs.symm, ?_⟩
      have := hown.nesting_eq
      rw [List.append_nil] at this
      exact this.symm
    | cons b inner =>
      obtain ⟨rfl, rfl⟩ := List.cons.inj hbs
      exact .inl ⟨inner, by simp, rfl⟩

/-- The end of a block does not stand in a phrase without blocks, but behind it. -/
theorem Flat.locate (h : Flat ts mid) (hts : ts = front ++ c :: back)
    (hc : c.kind = .blockClose) : ∃ front', mid = front' ++ c :: back ∧
      nesting front' = nesting front := by
  rcases h.takes.locate hts with ⟨inner, hinner, -⟩ | hbehind
  · obtain ⟨own, rfl, hown⟩ := h
    have hmem : c ∈ own := by
      rw [List.append_cancel_right hinner]
      simp
    have := hown c hmem
    rw [hc] at this
    cases this
  · exact hbehind

end BlockScript.Grammar
