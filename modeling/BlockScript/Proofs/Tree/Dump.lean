import BlockScript.Proofs.Number.Decimal
import BlockScript.Proofs.Parser.Parts
import BlockScript.Proofs.Token.Spelling
import BlockScript.Proofs.Tree.Datum

/-!
# What the dump of a tree stands for

The text of a tree is read back as a datum that has the same form: a word for a literal or a name, a
text in quotes for a text, and a group for all else, in which the first word says what it is.

* `Expr.datum`, `Stmt.datum`, `Program.datum`: the datum of a tree.
* `Part.unambiguous`: parts that look like nothing else. `Legible`: parts that can be written and
  are of this sort.
* `Expr.reads`, `Stmt.reads`: by induction on the tree. **`Program.reads`**: the text of a program
  stands for its datum.
-/

namespace BlockScript

open Token (isWordStart isWordChar isName isWord)

/-! ## The datum of a tree -/

/-- The datum of a literal. -/
def Value.datum : Value → Datum
  | .text s => .quoted (Text.quotedChars s)
  | v => .word v.toText

mutual

/-- The datum of an expression. -/
def Expr.datum : Expr → Datum
  | .literal _ value => value.datum
  | .ident _ name => .word name
  | .binary _ op left right => .group [.word op.spelling, left.datum, right.datum]
  | .call _ name args => .group (.word name :: Expr.data args)
  | .missing => .group [.word "unknown", .word "<nil>"]

/-- The data of the arguments of a call. -/
def Expr.data : List Expr → List Datum
  | [] => []
  | e :: es => e.datum :: Expr.data es

end

/-- The datum of an expression that may be absent. -/
def Expr.optionData (e : Option Expr) : List Datum := (e.map Expr.datum).toList

/-- The datum of a type that may be absent. -/
def typeData (a : Option Annotation) : List Datum :=
  (a.map fun a => .word a.dump).toList

/-- The name of what a function returns. -/
def returnName (returns : Option Annotation) : String :=
  (returns.map Annotation.name).getD "void"

mutual

/-- The datum of a statement. -/
def Stmt.datum : Stmt → Datum
  | .block _ body => .group (.word "block" :: Stmt.data body)
  | .function _ name params returns _ body =>
    .group [.word "func", .word name, .group (params.map fun p => .word p.name),
      .word (returnName returns), .group (.word "block" :: Stmt.data body)]
  | .declare _ name type value =>
    .group (.word "var" :: .word name :: (typeData type ++ Expr.optionData value))
  | .assign _ name value => .group [.word "=", .word name, value.datum]
  | .branch _ cond _ thenBody otherwise =>
    .group (.word "if" :: cond.datum :: .group (.word "block" :: Stmt.data thenBody) ::
      Stmt.optionData otherwise)
  | .loop _ cond _ body =>
    .group [.word "while", cond.datum, .group (.word "block" :: Stmt.data body)]
  | .giveBack _ value => .group (.word "return" :: Expr.optionData value)
  | .print _ value => .group [.word "print", value.datum]
  | .evaluate _ value => value.datum

/-- The data of statements in a row. -/
def Stmt.data : List Stmt → List Datum
  | [] => []
  | s :: ss => s.datum :: Stmt.data ss

/-- The datum of a statement that may be absent. -/
def Stmt.optionData : Option Stmt → List Datum
  | none => []
  | some s => [s.datum]

end

/-- The datum of a program. -/
def Program.datum (p : Program) : Datum := .group (.word "program" :: Stmt.data p.declarations)

/-! ## Legible parts -/

/-- The words that statements start with and that are free to be names. -/
def statementWords : List String := ["block", "return", "var", "if", "while", "func"]

/-- The part looks like nothing else: it is no float, no variable with the name of a truth value,
and no function with the name of a statement. -/
def Part.unambiguous : Part → Bool
  | .literal value => !value.isFloat
  | .ident name => name ≠ "true" && name ≠ "false"
  | .callee name => name ∉ statementWords
  | .bound _ | .operator _ | .type _ | .missing => true

/-- No part of the program looks like another one. -/
def Program.unambiguous (p : Program) : Bool := p.parts.all Part.unambiguous

/-- All of these parts can be written and look like nothing else. -/
def Legible (xs : List Part) : Prop := ∀ x ∈ xs, x.written = true ∧ x.unambiguous = true

theorem legible_cons {x : Part} {xs : List Part} :
    Legible (x :: xs) ↔ (x.written = true ∧ x.unambiguous = true) ∧ Legible xs :=
  List.forall_mem_cons

theorem legible_append {xs ys : List Part} : Legible (xs ++ ys) ↔ Legible xs ∧ Legible ys :=
  List.forall_mem_append

/-- The characters of a class belong to words, if those at which a word ends are not of it. -/
theorem isInner_of_class {p : Char → Bool} (hp : [' ', '\n', '(', ')', '"'].any p = false)
    {c : Char} (h : p c = true) : isInner c = true := by
  have hne (d : Char) (hd : d ∈ [' ', '\n', '(', ')', '"']) : c ≠ d := by
    rintro rfl
    exact List.any_eq_false.mp hp c hd h
  simp only [isInner, Bool.and_eq_true, decide_eq_true_eq]
  exact ⟨⟨⟨⟨hne ' ' (by decide), hne '\n' (by decide)⟩, hne '(' (by decide)⟩,
    hne ')' (by decide)⟩, hne '"' (by decide)⟩

theorem isInner_of_isWordChar {c : Char} (h : isWordChar c = true) : isInner c = true :=
  isInner_of_class (by decide) h

theorem isWordChar_of_isWordStart {c : Char} (h : isWordStart c = true) : isWordChar c = true := by
  simp only [isWordStart, Bool.or_eq_true] at h
  simp only [isWordChar, Bool.or_eq_true]
  exact h.imp_left .inl

/-- The first character of a word, and all others. -/
theorem exists_of_isWord {s : String} (h : isWord s = true) :
    ∃ c cs, s.toList = c :: cs ∧ isWordStart c = true ∧ ∀ d ∈ cs, isWordChar d = true := by
  unfold Token.isWord at h
  cases hs : s.toList with
  | nil => simp [hs] at h
  | cons c cs =>
    rw [hs] at h
    simp only [Bool.and_eq_true, List.all_eq_true] at h
    exact ⟨c, cs, rfl, h⟩

theorem fitsWord_of_isWord {s : String} (h : isWord s = true) : fitsWord s = true := by
  obtain ⟨c, cs, hs, hc, hcs⟩ := exists_of_isWord h
  have hstart := isInner_of_isWordChar (isWordChar_of_isWordStart hc)
  simp only [fitsWord, hs, Bool.and_eq_true, decide_eq_true_eq, List.all_eq_true]
  exact ⟨List.cons_ne_nil c cs,
    List.forall_mem_cons.mpr ⟨hstart, fun d hd => isInner_of_isWordChar (hcs d hd)⟩⟩

theorem isWord_of_isName {s : String} (h : isName s = true) : isWord s = true :=
  (Bool.and_eq_true_iff.mp h).1

theorem reads_name {s : String} (h : isName s = true) : Reads s [.word s] :=
  reads_word (fitsWord_of_isWord (isWord_of_isName h))

theorem fitsWord_of_typeName {s : String} (h : Token.Kind.ofWord s = .typeName) :
    fitsWord s = true := by
  have hall : ∀ s ∈ Token.Kind.keywords.map Prod.fst, fitsWord s = true := by decide
  refine hall s (Classical.byContradiction fun hs => ?_)
  rw [Token.ofWord_of_not_mem hs] at h
  cases h

theorem isInner_of_isNumeral {c : Char} (h : Number.isNumeral c = true) : isInner c = true :=
  isInner_of_class (by decide) h

theorem fitsWord_integerText (n : Int) : fitsWord (Number.integerText n) = true := by
  simp only [fitsWord, Bool.and_eq_true, decide_eq_true_eq, List.all_eq_true]
  exact ⟨Number.integerText_ne_nil n,
    fun c hc => isInner_of_isNumeral (Number.isNumeral_integerText n c hc)⟩

/-! ## Expressions -/

theorem reads_value {v : Value} (hv : v.isLiteral = true) (hf : v.isFloat = false) :
    Reads v.dump [v.datum] := by
  cases v with
  | integer n => exact reads_word (fitsWord_integerText n.toInt)
  | float x => cases hf
  | text s => exact reads_quote s
  | boolean b =>
    cases b with
    | true => exact reads_word (show fitsWord "true" = true by decide)
    | false => exact reads_word (show fitsWord "false" = true by decide)
  | void | array | unknown => cases hv

theorem reads_spelling {op : Operator} (h : op.known = true) :
    Reads op.spelling [.word op.spelling] := by
  refine reads_word ?_
  cases op with
  | other s => cases h
  | _ => decide

mutual

theorem Expr.reads : ∀ e : Expr, Legible e.parts → Reads e.dump [e.datum]
  | .literal _ value, h => by
    obtain ⟨⟨hv, hf⟩, -⟩ := legible_cons.mp h
    exact reads_value hv (by simpa [Part.unambiguous] using hf)
  | .ident _ name, h => reads_name (legible_cons.mp h).1.1
  | .binary _ op left right, h => by
    obtain ⟨⟨hop, -⟩, hoperands⟩ := legible_cons.mp h
    obtain ⟨hleft, hright⟩ := legible_append.mp hoperands
    exact reads_parenthesized (.cons (reads_spelling hop)
      (.cons (left.reads hleft) (.cons (right.reads hright) .nil)))
  | .call _ name args, h => by
    obtain ⟨⟨hname, -⟩, hargs⟩ := legible_cons.mp h
    exact reads_parenthesized (.cons (reads_name hname) (Expr.readsAll args hargs))
  | .missing, h => by cases (legible_cons.mp h).1.1

theorem Expr.readsAll : ∀ es : List Expr, Legible (Expr.allParts es) →
    ReadsEach (Expr.dumpArgs es) (Expr.data es)
  | [], _ => .nil
  | e :: es, h =>
    have ⟨he, hes⟩ := legible_append.mp h
    .cons (e.reads he) (Expr.readsAll es hes)

end

theorem Expr.readsOption {e : Option Expr} (h : Legible (Expr.optionParts e)) :
    ReadsEach (e.map Expr.dump).toList (Expr.optionData e) := by
  cases e with
  | none => exact .nil
  | some e => exact .cons (e.reads h) .nil

/-! ## Statements -/

theorem reads_typeData (a : Option Annotation) :
    ReadsEach (a.map Annotation.dump).toList (typeData a) := by
  cases a with
  | none => exact .nil
  | some a =>
    refine .cons (reads_word ?_) .nil
    unfold Annotation.dump
    cases a.type <;> decide

theorem reads_returnName {returns : Option Annotation}
    (h : Legible (returns.toList.map .type)) :
    Reads (returnName returns) [.word (returnName returns)] := by
  refine reads_word ?_
  cases returns with
  | none => decide
  | some a =>
    have hwritten := (legible_cons.mp h).1.1
    simp only [Part.written, Bool.and_eq_true, decide_eq_true_eq] at hwritten
    exact fitsWord_of_typeName hwritten.1

theorem reads_parameters {params : List Parameter}
    (h : Legible (params.map fun p => .bound p.name)) :
    ReadsEach (params.map Parameter.name) (params.map fun p => .word p.name) := by
  induction params with
  | nil => exact .nil
  | cons p params ih =>
    obtain ⟨⟨hname, -⟩, hparams⟩ := legible_cons.mp h
    exact .cons (reads_name hname) (ih hparams)

/-- A word that starts a statement stands for itself. -/
theorem reads_keyword {s : String} (h : fitsWord s = true) {ts : List String} {ds : List Datum}
    (hts : ReadsEach ts ds) : Reads (parenthesized (s :: ts)) [.group (.word s :: ds)] :=
  reads_parenthesized (.cons (reads_word h) hts)

mutual

theorem Stmt.reads : ∀ s : Stmt, Legible s.parts → Reads s.dump [s.datum]
  | .block _ body, h => reads_blockText (Stmt.readsAll body h)
  | .function _ name params returns _ body, h => by
    obtain ⟨⟨hname, -⟩, hrest⟩ := legible_cons.mp h
    obtain ⟨hparams, hrest⟩ := legible_append.mp hrest
    obtain ⟨hreturns, hbody⟩ := legible_append.mp hrest
    exact reads_keyword (by decide) (.cons (reads_name hname)
      (.cons (reads_parenthesized (reads_parameters hparams))
        (.cons (reads_returnName hreturns) (.cons (reads_blockText (Stmt.readsAll body hbody))
          .nil))))
  | .declare _ name type value, h => by
    obtain ⟨⟨hname, -⟩, hrest⟩ := legible_cons.mp h
    obtain ⟨-, hvalue⟩ := legible_append.mp hrest
    exact reads_keyword (by decide) (.cons (reads_name hname)
      (List.rel_append (reads_typeData type) (Expr.readsOption hvalue)))
  | .assign _ name value, h => by
    obtain ⟨⟨hname, -⟩, hvalue⟩ := legible_cons.mp h
    exact reads_keyword (by decide) (.cons (reads_name hname) (.cons (value.reads hvalue) .nil))
  | .branch _ cond _ thenBody otherwise, h => by
    obtain ⟨hcond, hrest⟩ := legible_append.mp h
    obtain ⟨hthen, hother⟩ := legible_append.mp hrest
    exact reads_keyword (by decide) (.cons (cond.reads hcond)
      (.cons (reads_blockText (Stmt.readsAll thenBody hthen))
        (Stmt.readsOption otherwise hother)))
  | .loop _ cond _ body, h => by
    obtain ⟨hcond, hbody⟩ := legible_append.mp h
    exact reads_keyword (by decide) (.cons (cond.reads hcond)
      (.cons (reads_blockText (Stmt.readsAll body hbody)) .nil))
  | .giveBack _ value, h => reads_keyword (by decide) (Expr.readsOption h)
  | .print _ value, h => reads_keyword (by decide) (.cons (value.reads h) .nil)
  | .evaluate _ value, h => value.reads h

theorem Stmt.readsAll : ∀ ss : List Stmt, Legible (Stmt.allParts ss) →
    ReadsEach (Stmt.dumpBody ss) (Stmt.data ss)
  | [], _ => .nil
  | s :: ss, h =>
    have ⟨hs, hss⟩ := legible_append.mp h
    .cons (s.reads hs) (Stmt.readsAll ss hss)

theorem Stmt.readsOption : ∀ s : Option Stmt, Legible (Stmt.optionParts s) →
    ReadsEach (Stmt.dumpOption s) (Stmt.optionData s)
  | none, _ => .nil
  | some s, h => .cons (s.reads h) .nil

end

/-- **The text of a program stands for its datum.** -/
theorem Program.reads {p : Program} (h : Legible p.parts) : Reads p.dump [p.datum] := by
  have hhead : "(program\n" = "(" ++ "program" ++ "\n" := by decide
  rw [Program.dump, hhead]
  exact reads_headed (by decide) (Stmt.readsAll p.declarations h)

end BlockScript
