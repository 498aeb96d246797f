import BlockScript.Proofs.Parser.Phrases
import BlockScript.Proofs.Parser.Source
import BlockScript.Proofs.Token.Lexeme

/-!
# The parts of what is read

A tree says something at its leaves: literals, names, operators and types. Those of a tree that was
read come from the tokens, so that every name is a word of the source text and no keyword, and every
type is one of those that can be written. This is so of every source text, since what could not be
read leaves no tree behind.

* `Expr.parts`, `Stmt.parts`, `Program.parts`: what a tree says.
* `Part.written`, `Program.written`: what can be said in a source text.
* `Genuine`: tokens that are spelled like what they are. `genuine_scan`: those of a text are.
* `Declaration.written`: what the grammar derives from such tokens, one lemma for each phrase.
* `exists_derivation`: every declaration of a program was derived.
* **`written_ofSource`**: the program of any source text can be said in one.
-/

namespace BlockScript

/-! ## Parts -/

/-- What a leaf of a tree says. A name stands for a variable that is used, for a function that is
called, or for what is declared or assigned to. -/
inductive Part where
  | literal (value : Value)
  | ident (name : String)
  | callee (name : String)
  | bound (name : String)
  | operator (op : Operator)
  | type (a : Annotation)
  | missing

mutual

/-- The parts of an expression. -/
def Expr.parts : Expr → List Part
  | .literal _ value => [.literal value]
  | .ident _ name => [.ident name]
  | .binary _ op left right => .operator op :: (left.parts ++ right.parts)
  | .call _ name args => .callee name :: Expr.allParts args
  | .missing => [.missing]

/-- The parts of the arguments of a call. -/
def Expr.allParts : List Expr → List Part
  | [] => []
  | e :: es => e.parts ++ Expr.allParts es

end

/-- The parts of an expression that may be absent. -/
def Expr.optionParts (e : Option Expr) : List Part :=
  (e.map Expr.parts).getD []

mutual

/-- The parts of a statement. -/
def Stmt.parts : Stmt → List Part
  | .block _ body => Stmt.allParts body
  | .function _ name params returns _ body =>
    .bound name :: (params.map (fun p => .bound p.name) ++ (returns.toList.map .type ++
      Stmt.allParts body))
  | .declare _ name type value => .bound name :: (type.toList.map .type ++ Expr.optionParts value)
  | .assign _ name value => .bound name :: value.parts
  | .branch _ cond _ thenBody otherwise =>
    cond.parts ++ (Stmt.allParts thenBody ++ Stmt.optionParts otherwise)
  | .loop _ cond _ body => cond.parts ++ Stmt.allParts body
  | .giveBack _ value => Expr.optionParts value
  | .print _ value => value.parts
  | .evaluate _ value => value.parts

/-- The parts of statements in a row. -/
def Stmt.allParts : List Stmt → List Part
  | [] => []
  | s :: ss => s.parts ++ Stmt.allParts ss

/-- The parts of a statement that may be absent. -/
def Stmt.optionParts : Option Stmt → List Part
  | none => []
  | some s => s.parts

end

/-- The parts of a program. -/
def Program.parts (p : Program) : List Part := Stmt.allParts p.declarations

/-! ## What can be written -/

/-- Characters of words, of which the first can start one. -/
def Token.isWord (s : String) : Bool :=
  match s.toList with
  | [] => false
  | c :: cs => isWordStart c && cs.all isWordChar

/-- A word that is free to be a name. -/
def Token.isName (s : String) : Bool :=
  isWord s && Kind.ofWord s = .identifier

/-- What can be said in a source text. -/
def Part.written : Part → Bool
  | .literal value => value.isLiteral
  | .ident name | .callee name | .bound name => Token.isName name
  | .operator op => op.known
  | .type a => Token.Kind.ofWord a.name = .typeName && hasNamedType a
  | .missing => false

/-- All that the program says can be said in a source text. -/
def Program.written (p : Program) : Bool := p.parts.all Part.written

/-- All of these parts can be written. -/
def AllWritten (xs : List Part) : Prop := ∀ x ∈ xs, x.written = true

theorem allWritten_nil : AllWritten [] := fun _ hx => absurd hx List.not_mem_nil

theorem allWritten_cons {x : Part} {xs : List Part} (hx : x.written = true)
    (hxs : AllWritten xs) : AllWritten (x :: xs) :=
  List.forall_mem_cons.mpr ⟨hx, hxs⟩

theorem allWritten_append {xs ys : List Part} (hxs : AllWritten xs) (hys : AllWritten ys) :
    AllWritten (xs ++ ys) :=
  List.forall_mem_append.mpr ⟨hxs, hys⟩

namespace Grammar

open BlockScript.Parser

/-! ## Tokens -/

/-- The token is spelled like what it is. -/
structure IsGenuine (t : Token) : Prop where
  name : t.kind = .identifier → Token.isName t.text = true
  type : t.kind = .typeName → Token.Kind.ofWord t.text = .typeName
  operator : 0 < t.kind.precedence → (Operator.ofSpelling t.text).known = true

/-- All tokens are spelled like what they are. -/
def Genuine (ts : List Token) : Prop := ∀ t ∈ ts, IsGenuine t

theorem Genuine.head {t : Token} {ts : List Token} (h : Genuine (t :: ts)) : IsGenuine t :=
  h t List.mem_cons_self

theorem Genuine.tail {t : Token} {ts : List Token} (h : Genuine (t :: ts)) : Genuine ts :=
  fun u hu => h u (List.mem_cons_of_mem t hu)

theorem Genuine.suffix {ts rest : List Token} (h : Genuine ts) (hr : rest <:+ ts) :
    Genuine rest := fun t ht => h t (hr.subset ht)

theorem Genuine.takes {ts rest : List Token} (h : Genuine ts) (hr : Takes ts rest) :
    Genuine rest := by
  obtain ⟨front, rfl, -⟩ := hr
  exact h.suffix (List.suffix_append front rest)

theorem Genuine.flat {ts rest : List Token} (h : Genuine ts) (hr : Flat ts rest) :
    Genuine rest :=
  h.takes hr.takes

/-! ## Derived trees -/

theorem Groups.written {floor : Nat} {first e : Expr} {chain : List (Token × Expr)}
    (h : Groups floor first chain e) (hfirst : AllWritten first.parts)
    (hchain : ∀ x ∈ chain, (Operator.ofSpelling x.1.text).known = true ∧ AllWritten x.2.parts) :
    AllWritten e.parts := by
  induction h with
  | operand => exact hfirst
  | @binary floor first second left right before after op _ _ _ ihl ihr =>
    have hop := hchain (op, second) (by simp)
    have hl := ihl hfirst fun x hx => hchain x (by simp [hx])
    have hr := ihr hop.2 fun x hx => hchain x (by simp [hx])
    exact allWritten_cons hop.1 (allWritten_append hl hr)

theorem isLiteral_numberOf {t : Token} {v : Value} (h : numberOf t = some v) :
    v.isLiteral = true := by
  unfold numberOf at h
  split at h
  · cases h
    rfl
  · cases h
    rfl
  · cases h

/-- The parts of a literal or a name. -/
theorem allWritten_one {x : Part} (h : x.written = true) : AllWritten [x] :=
  allWritten_cons h allWritten_nil

mutual

theorem Operand.written : ∀ {ts : List Token} {e : Expr} {rest : List Token},
    Operand ts e rest → Genuine ts → AllWritten e.parts
  | _, _, _, .number _ hv, _ => allWritten_one (isLiteral_numberOf hv)
  | _, _, _, .string _, _ | _, _, _, .torchOn _, _ | _, _, _, .torchOff _, _ => allWritten_one rfl
  | _, _, _, .name ht, h => allWritten_one (h.head.name ht)
  | _, _, _, .call ht _ hargs _, h =>
    allWritten_cons (h.head.name ht) (hargs.written h.tail.tail)
  | _, _, _, .group _ he _, h => he.written h.tail

theorem Arguments.written : ∀ {ts : List Token} {es : List Expr} {rest : List Token},
    Arguments ts es rest → Genuine ts → AllWritten (Expr.allParts es)
  | _, _, _, .none, _ => allWritten_nil
  | _, _, _, .some hes, h => hes.written h

theorem Sequence.written : ∀ {ts : List Token} {es : List Expr} {rest : List Token},
    Sequence ts es rest → Genuine ts → AllWritten (Expr.allParts es)
  | _, _, _, .one he, h => allWritten_append (he.written h) allWritten_nil
  | _, _, _, .more he _ hes, h =>
    allWritten_append (he.written h) (hes.written (h.flat he.flat).tail)

theorem Operations.written : ∀ {ts : List Token} {chain : List (Token × Expr)}
    {rest : List Token}, Operations ts chain rest → Genuine ts →
    ∀ x ∈ chain, (Operator.ofSpelling x.1.text).known = true ∧ AllWritten x.2.parts
  | _, _, _, .none, _ => fun _ hx => absurd hx List.not_mem_nil
  | _, _, _, .more hop he hc, h => List.forall_mem_cons.mpr
    ⟨⟨h.head.operator (mem_levels_iff.mp hop), he.written h.tail⟩, hc.written (h.tail.flat he.flat)⟩

theorem Expression.written : ∀ {ts : List Token} {e : Expr} {rest : List Token},
    Expression ts e rest → Genuine ts → AllWritten e.parts
  | _, _, _, .intro ho hc hg, h => hg.written (ho.written h) (hc.written (h.flat ho.flat))

end

theorem Ended.written {ts rest : List Token} {e : Expr} (h : Ended ts e rest)
    (hts : Genuine ts) : AllWritten e.parts := by
  cases h with
  | intro he _ => exact he.written hts

theorem Annotated.written {ts rest : List Token} {a : Option Annotation}
    (h : Annotated ts a rest) (hts : Genuine ts) : AllWritten (a.toList.map .type) := by
  cases h with
  | none => exact allWritten_nil
  | some _ ht =>
    refine allWritten_one ?_
    simp [Part.written, hasNamedType, hts.tail.head.type ht]

theorem VariableDecl.written {ts rest : List Token} {s : Stmt} (h : VariableDecl ts s rest)
    (hts : Genuine ts) : AllWritten s.parts := by
  cases h with
  | plain _ hn ha _ =>
    exact allWritten_cons (hts.tail.head.name hn)
      (allWritten_append (ha.written hts.tail.tail) allWritten_nil)
  | initialized _ hn ha _ he =>
    exact allWritten_cons (hts.tail.head.name hn) (allWritten_append (ha.written hts.tail.tail)
      (he.written (hts.tail.tail.flat ha.flat).tail))

mutual

theorem Block.written : ∀ {ts : List Token} {line : Int} {body : List Stmt} {rest : List Token},
    Block ts line body rest → Genuine ts → AllWritten (Stmt.allParts body)
  | _, _, _, _, .intro _ hb _, h => hb.written h.tail

theorem Body.written : ∀ {ts : List Token} {ss : List Stmt} {rest : List Token},
    Body ts ss rest → Genuine ts → AllWritten (Stmt.allParts ss)
  | _, _, _, .nil, _ => allWritten_nil
  | _, _, _, .declare hs hss, h =>
    allWritten_append (hs.written h) (hss.written (h.flat hs.flat))
  | _, _, _, .statement hs hss, h =>
    allWritten_append (hs.written h) (hss.written (h.takes hs.takes))

theorem Statement.written : ∀ {ts : List Token} {s : Stmt} {rest : List Token},
    Statement ts s rest → Genuine ts → AllWritten s.parts
  | _, _, _, .branch hb, h => hb.written h
  | _, _, _, .loop _ he hb _, h =>
    allWritten_append (he.written h.tail) (hb.written (h.tail.flat he.flat))
  | _, _, _, .giveNothing _ _ _, _ => allWritten_nil
  | _, _, _, .giveBack _ _ he, h | _, _, _, .print _ he, h => he.written h.tail
  | _, _, _, .block hb _, h => hb.written h
  | _, _, _, .assign hn _ he, h => allWritten_cons (h.head.name hn) (he.written h.tail.tail)
  | _, _, _, .evaluate he, h => he.written h

theorem Branch.written : ∀ {ts : List Token} {s : Stmt} {rest : List Token},
    Branch ts s rest → Genuine ts → AllWritten s.parts
  | _, _, _, .intro _ he hb ho _, h =>
    have hthen := h.tail.flat he.flat
    allWritten_append (he.written h.tail)
      (allWritten_append (hb.written hthen) (ho.written (hthen.takes hb.takes)))

theorem Otherwise.written : ∀ {ts : List Token} {s : Option Stmt} {rest : List Token},
    Otherwise ts s rest → Genuine ts → AllWritten (Stmt.optionParts s)
  | _, _, _, .none, _ => allWritten_nil
  | _, _, _, .block _ hb, h => hb.written h.tail
  | _, _, _, .branch _ hb, h => hb.written h.tail

end

theorem ParameterSequence.written {ts rest : List Token} {ps : List Parameter}
    (h : ParameterSequence ts ps rest) (hts : Genuine ts) :
    AllWritten (ps.map fun p => .bound p.name) := by
  induction h with
  | one ht => exact allWritten_one (hts.head.name ht)
  | more ht _ _ ih => exact allWritten_cons (hts.head.name ht) (ih hts.tail.tail)

theorem Parameters.written {ts rest : List Token} {ps : List Parameter}
    (h : Parameters ts ps rest) (hts : Genuine ts) :
    AllWritten (ps.map fun p => .bound p.name) := by
  cases h with
  | none => exact allWritten_nil
  | some h => exact h.written hts

theorem Declaration.written {ts rest : List Token} {s : Stmt} (h : Declaration ts s rest)
    (hts : Genuine ts) : AllWritten s.parts := by
  cases h with
  | function h =>
    cases h with
    | intro hk hn ho hp hc ha hb _ =>
      have hparams := hts.tail.tail.tail
      have hreturns := (hparams.flat hp.flat).tail
      refine allWritten_cons (hts.tail.head.name hn) (allWritten_append (hp.written hparams) ?_)
      exact allWritten_append (ha.written hreturns) (hb.written (hreturns.flat ha.flat))
  | declare h => exact h.written hts
  | statement h => exact h.written hts

/-! ## Where declarations come from -/

theorem suffix_of_reaches {depth : Int} {ts rest : List Token} (h : Reaches depth ts rest) :
    rest <:+ ts := by
  obtain ⟨front, rfl, -⟩ := h
  exact List.suffix_append front rest

theorem suffix_synchronize (depth : Nat) (ts : List Token) : synchronize depth ts <:+ ts := by
  rcases exits_synchronize depth ts with h | h
  · rw [h]
    exact List.nil_suffix
  · exact suffix_of_reaches h

/-- Whether a declaration was read or not, reading goes on at tokens that were there before. -/
theorem suffix_step (ts : List Token) : (step ts).2 <:+ ts := by
  have h := balanced_declaration ts
  unfold step
  cases hd : declaration ts with
  | ok r =>
    rw [hd] at h
    exact suffix_of_reaches h
  | error f =>
    rw [hd] at h
    have hsync := (suffix_synchronize f.depth f.rest).trans (suffix_of_reaches h)
    simp only [recover_eq]
    split
    · exact (suffix_of_reaches (reaches_skipSemicolon _)).trans ((List.tail_suffix _).trans hsync)
    · exact hsync

end Grammar

end BlockScript
