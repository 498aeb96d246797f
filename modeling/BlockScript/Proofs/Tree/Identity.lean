import BlockScript.Proofs.Parser.Written
import BlockScript.Proofs.Tree.Dump

/-!
# A tree and its dump

The text of a program identifies it: from the datum that the text stands for, the program can be
told but for what is not written down.

* `Program.plain`: a program without its lines, with the own name of each type of a variable, and
  with `void` for what a function returns if it does not say.
* `Expr.plain_of_datum`, `Stmt.plain_of_datum`: by induction on the tree, with one case for each
  constructor. Of which sort a statement is, its first word tells (`Stmt.head?_of_datum`).
* `Program.dump_plain`: the text does not depend on what is left out.
* **`Program.dump_eq_iff`**: programs that can be written, and of which no part looks like another,
  have the same text exactly if they are the same but for that.
-/

namespace BlockScript

open Token (isName isWord)

/-! ## What is not written down -/

mutual

/-- An expression without its lines. -/
def Expr.plain : Expr → Expr
  | .literal _ value => .literal 0 value
  | .ident _ name => .ident 0 name
  | .binary _ op left right => .binary 0 op left.plain right.plain
  | .call _ name args => .call 0 name (Expr.allPlain args)
  | .missing => .missing

/-- Arguments without their lines. -/
def Expr.allPlain : List Expr → List Expr
  | [] => []
  | e :: es => e.plain :: Expr.allPlain es

end

/-- The type of a variable, by its own name. -/
def plainType (a : Annotation) : Annotation := ⟨0, a.type.name, a.type⟩

/-- What a function returns, under the name that was written. -/
def plainReturns : Option Annotation → Annotation
  | none => ⟨0, "void", .void⟩
  | some a => ⟨0, a.name, a.type⟩

mutual

/-- A statement without what is not written down. -/
def Stmt.plain : Stmt → Stmt
  | .block _ body => .block 0 (Stmt.allPlain body)
  | .function _ name params returns _ body =>
    .function 0 name (params.map fun p => ⟨0, p.name⟩) (some (plainReturns returns)) 0
      (Stmt.allPlain body)
  | .declare _ name type value =>
    .declare 0 name (type.map plainType) (value.map Expr.plain)
  | .assign _ name value => .assign 0 name value.plain
  | .branch _ cond _ thenBody otherwise =>
    .branch 0 cond.plain 0 (Stmt.allPlain thenBody) (Stmt.optionPlain otherwise)
  | .loop _ cond _ body => .loop 0 cond.plain 0 (Stmt.allPlain body)
  | .giveBack _ value => .giveBack 0 (value.map Expr.plain)
  | .print _ value => .print 0 value.plain
  | .evaluate _ value => .evaluate 0 value.plain

/-- Statements in a row without what is not written down. -/
def Stmt.allPlain : List Stmt → List Stmt
  | [] => []
  | s :: ss => s.plain :: Stmt.allPlain ss

/-- A statement that may be absent, without what is not written down. -/
def Stmt.optionPlain : Option Stmt → Option Stmt
  | none => none
  | some s => some s.plain

end

/-- A program without what is not written down. -/
def Program.plain (p : Program) : Program := ⟨0, Stmt.allPlain p.declarations⟩

/-! ## The text without it -/

mutual

theorem Expr.dump_plain : ∀ e : Expr, e.plain.dump = e.dump
  | .literal .. | .ident .. | .missing => rfl
  | .binary _ op left right => by
    rw [Expr.plain, Expr.dump, Expr.dump, left.dump_plain, right.dump_plain]
  | .call _ name args => by
    rw [Expr.plain, Expr.dump, Expr.dump, Expr.dumpArgs_plain args]

theorem Expr.dumpArgs_plain : ∀ es : List Expr,
    Expr.dumpArgs (Expr.allPlain es) = Expr.dumpArgs es
  | [] => rfl
  | e :: es => by
    rw [Expr.allPlain, Expr.dumpArgs, Expr.dumpArgs, e.dump_plain, Expr.dumpArgs_plain es]

end

theorem Expr.map_dump_plain (e : Option Expr) :
    (e.map Expr.plain).map Expr.dump = e.map Expr.dump := by
  cases e with
  | none => rfl
  | some e => exact congrArg some e.dump_plain

theorem functionHead_plain (name : String) (params : List Parameter)
    (returns : Option Annotation) :
    functionHead name (params.map fun p => ⟨0, p.name⟩) (some (plainReturns returns)) =
      functionHead name params returns := by
  have hparams : (params.map fun p => (⟨0, p.name⟩ : Parameter)).map Parameter.name =
      params.map Parameter.name := by
    simp
  rw [functionHead, functionHead, hparams]
  cases returns with
  | none => rfl
  | some a => rfl

mutual

theorem Stmt.dump_plain : ∀ s : Stmt, s.plain.dump = s.dump
  | .block _ body => by rw [Stmt.plain, Stmt.dump, Stmt.dump, Stmt.dumpBody_plain body]
  | .function _ name params returns _ body => by
    rw [Stmt.plain, Stmt.dump, Stmt.dump, Stmt.dumpBody_plain body, functionHead_plain]
  | .declare _ name type value => by
    have htype : (type.map plainType).map Annotation.dump = type.map Annotation.dump := by
      cases type with
      | none => rfl
      | some a => rfl
    rw [Stmt.plain, Stmt.dump, Stmt.dump, htype, Expr.map_dump_plain]
  | .assign _ name value => by rw [Stmt.plain, Stmt.dump, Stmt.dump, value.dump_plain]
  | .branch _ cond _ thenBody otherwise => by
    rw [Stmt.plain, Stmt.dump, Stmt.dump, cond.dump_plain, Stmt.dumpBody_plain thenBody,
      Stmt.dumpOption_plain otherwise]
  | .loop _ cond _ body => by
    rw [Stmt.plain, Stmt.dump, Stmt.dump, cond.dump_plain, Stmt.dumpBody_plain body]
  | .giveBack _ value => by rw [Stmt.plain, Stmt.dump, Stmt.dump, Expr.map_dump_plain]
  | .print _ value => by rw [Stmt.plain, Stmt.dump, Stmt.dump, value.dump_plain]
  | .evaluate _ value => by rw [Stmt.plain, Stmt.dump, Stmt.dump, value.dump_plain]

theorem Stmt.dumpBody_plain : ∀ ss : List Stmt,
    Stmt.dumpBody (Stmt.allPlain ss) = Stmt.dumpBody ss
  | [] => rfl
  | s :: ss => by
    rw [Stmt.allPlain, Stmt.dumpBody, Stmt.dumpBody, s.dump_plain, Stmt.dumpBody_plain ss]

theorem Stmt.dumpOption_plain : ∀ s : Option Stmt,
    Stmt.dumpOption (Stmt.optionPlain s) = Stmt.dumpOption s
  | none => rfl
  | some s => by rw [Stmt.optionPlain, Stmt.dumpOption, Stmt.dumpOption, s.dump_plain]

end

/-- **The text of a program does not depend on what is left out.** -/
theorem Program.dump_plain (p : Program) : p.plain.dump = p.dump := by
  rw [Program.dump, Program.dump, Program.plain, Stmt.dumpBody_plain]

/-! ## Words apart -/

/-- The text of an integer is no word. -/
theorem integerText_ne {s : String} (h : isWord s = true) (n : Int) : Number.integerText n ≠ s := by
  rintro rfl
  obtain ⟨c, cs, hs, hc, -⟩ := exists_of_isWord h
  have hnumeral := Number.isNumeral_integerText n c (by rw [hs]; exact List.mem_cons_self)
  simp only [Number.isNumeral, Bool.or_eq_true, beq_iff_eq] at hnumeral
  rcases hnumeral with hdigit | rfl
  · rw [(Token.isWordStart_ne hc).2.1] at hdigit
    cases hdigit
  · exact absurd hc (by decide)

/-- The text of a truth value is a word. -/
theorem isWord_boolean (b : Bool) : isWord (Value.boolean b).toText = true := by
  cases b with
  | true => decide
  | false => decide

theorem colon_not_mem_word {s : String} (h : isWord s = true) : ':' ∉ s.toList := by
  obtain ⟨c, cs, hs, hc, hcs⟩ := exists_of_isWord h
  rw [hs, List.mem_cons, not_or]
  refine ⟨?_, fun hmem => absurd (hcs _ hmem) (by decide)⟩
  rintro rfl
  exact absurd hc (by decide)

/-- Only the text of a type has a colon in it. -/
theorem ne_dump {s : String} (h : ':' ∉ s.toList) (a : Annotation) : s ≠ a.dump := by
  rintro rfl
  refine h ?_
  unfold Annotation.dump
  rw [String.toList_append]
  exact List.mem_append_left _ (by decide)

theorem DeclaredType.ofName_name (t : DeclaredType) : ofName t.name = t := by
  cases t <;> rfl

theorem plainType_of_dump {a b : Annotation} (h : a.dump = b.dump) :
    plainType a = plainType b := by
  have hname : a.type.name = b.type.name := (String.append_right_inj ":").mp h
  have htype : a.type = b.type := by
    rw [← DeclaredType.ofName_name a.type, hname, DeclaredType.ofName_name]
  rw [plainType, plainType, htype]

theorem spelling_ne {op : Operator} (hop : op.known = true) {name : String}
    (hname : isName name = true) : op.spelling ≠ name := by
  rintro rfl
  refine absurd hname ?_
  cases op with
  | other s => cases hop
  | _ => decide

/-! ## Expressions -/

theorem Value.datum_ne_group (v : Value) (ds : List Datum) : v.datum ≠ .group ds := by
  cases v <;> exact fun h => Datum.noConfusion h

theorem Value.datum_ne_ident {v : Value} {name : String} (hv : Legible [.literal v])
    (hname : Legible [.ident name]) : v.datum ≠ .word name := by
  obtain ⟨⟨hliteral, hfloat⟩, -⟩ := legible_cons.mp hv
  obtain ⟨⟨hword, hne⟩, -⟩ := legible_cons.mp hname
  simp only [Part.unambiguous, Bool.and_eq_true, decide_eq_true_eq] at hne
  intro h
  cases v with
  | integer n => exact integerText_ne (isWord_of_isName hword) n.toInt (Datum.word.inj h)
  | float x => cases hfloat
  | text s => cases h
  | boolean b =>
    cases b with
    | true => exact hne.1 (Datum.word.inj h).symm
    | false => exact hne.2 (Datum.word.inj h).symm
  | void | array | unknown => cases hliteral

theorem Value.eq_of_datum {v w : Value} (hv : Legible [.literal v]) (hw : Legible [.literal w])
    (h : v.datum = w.datum) : v = w := by
  obtain ⟨⟨hvliteral, hvfloat⟩, -⟩ := legible_cons.mp hv
  obtain ⟨⟨hwliteral, hwfloat⟩, -⟩ := legible_cons.mp hw
  cases v with
  | integer n =>
    cases w with
    | integer m =>
      have htext := Number.integerText_injective (Datum.word.inj h)
      rw [Int64.toInt_inj.mp htext]
    | boolean b => exact absurd (Datum.word.inj h) (integerText_ne (isWord_boolean b) n.toInt)
    | text s => cases h
    | float x => cases hwfloat
    | void | array | unknown => cases hwliteral
  | boolean b =>
    cases w with
    | integer m =>
      exact absurd (Datum.word.inj h).symm (integerText_ne (isWord_boolean b) m.toInt)
    | boolean c =>
      have hall : ∀ b c : Bool, (Value.boolean b).toText = (Value.boolean c).toText → b = c := by
        decide
      rw [hall b c (Datum.word.inj h)]
    | text s => cases h
    | float x => cases hwfloat
    | void | array | unknown => cases hwliteral
  | text s =>
    cases w with
    | text t => rw [Text.quotedChars_injective (Datum.quoted.inj h)]
    | integer m => cases h
    | boolean c => cases h
    | float x => cases hwfloat
    | void | array | unknown => cases hwliteral
  | float x => cases hvfloat
  | void | array | unknown => cases hvliteral

mutual

theorem Expr.plain_of_datum : ∀ e e' : Expr, Legible e.parts → Legible e'.parts →
    e.datum = e'.datum → e.plain = e'.plain
  | .literal _ v, e', h, h', heq => by
    cases e' with
    | literal _ w => rw [Expr.plain, Expr.plain, Value.eq_of_datum h h' heq]
    | ident _ name => exact absurd heq (Value.datum_ne_ident h h')
    | binary _ _ _ _ => exact absurd heq (v.datum_ne_group _)
    | call _ _ _ => exact absurd heq (v.datum_ne_group _)
    | missing => cases (legible_cons.mp h').1.1
  | .ident _ name, e', h, h', heq => by
    cases e' with
    | literal _ w => exact absurd heq.symm (Value.datum_ne_ident h' h)
    | ident _ name' => rw [Expr.plain, Expr.plain, Datum.word.inj heq]
    | binary _ _ _ _ => cases heq
    | call _ _ _ => cases heq
    | missing => cases (legible_cons.mp h').1.1
  | .binary _ op left right, e', h, h', heq => by
    obtain ⟨⟨hop, -⟩, hoperands⟩ := legible_cons.mp h
    obtain ⟨hleft, hright⟩ := legible_append.mp hoperands
    cases e' with
    | literal _ w => exact absurd heq.symm (w.datum_ne_group _)
    | ident _ name => cases heq
    | binary _ op' left' right' =>
      obtain ⟨⟨hop', -⟩, hoperands'⟩ := legible_cons.mp h'
      obtain ⟨hleft', hright'⟩ := legible_append.mp hoperands'
      simp only [Expr.datum, Datum.group.injEq, List.cons.injEq, Datum.word.injEq, and_true] at heq
      have hspelling : op = op' := by
        rw [← Grammar.ofSpelling_spelling hop, heq.1, Grammar.ofSpelling_spelling hop']
      rw [Expr.plain, Expr.plain, hspelling,
        Expr.plain_of_datum left left' hleft hleft' heq.2.1,
        Expr.plain_of_datum right right' hright hright' heq.2.2]
    | call _ name args =>
      simp only [Expr.datum, Datum.group.injEq, List.cons.injEq, Datum.word.injEq] at heq
      exact absurd heq.1 (spelling_ne hop (legible_cons.mp h').1.1)
    | missing => cases (legible_cons.mp h').1.1
  | .call _ name args, e', h, h', heq => by
    obtain ⟨⟨hname, -⟩, hargs⟩ := legible_cons.mp h
    cases e' with
    | literal _ w => exact absurd heq.symm (w.datum_ne_group _)
    | ident _ name => cases heq
    | binary _ op left right =>
      simp only [Expr.datum, Datum.group.injEq, List.cons.injEq, Datum.word.injEq] at heq
      exact absurd heq.1.symm (spelling_ne (legible_cons.mp h').1.1 hname)
    | call _ name' args' =>
      simp only [Expr.datum, Datum.group.injEq, List.cons.injEq, Datum.word.injEq] at heq
      rw [Expr.plain, Expr.plain, heq.1,
        Expr.allPlain_of_data args args' hargs (legible_cons.mp h').2 heq.2]
    | missing => cases (legible_cons.mp h').1.1
  | .missing, _, h, _, _ => by cases (legible_cons.mp h).1.1

theorem Expr.allPlain_of_data : ∀ es es' : List Expr, Legible (Expr.allParts es) →
    Legible (Expr.allParts es') → Expr.data es = Expr.data es' →
    Expr.allPlain es = Expr.allPlain es'
  | [], es', _, _, heq => by
    cases es' with
    | nil => rfl
    | cons e' es' => cases heq
  | e :: es, es', h, h', heq => by
    obtain ⟨he, hes⟩ := legible_append.mp h
    cases es' with
    | nil => cases heq
    | cons e' es' =>
      obtain ⟨he', hes'⟩ := legible_append.mp h'
      obtain ⟨hfirst, hrest⟩ := List.cons.inj heq
      rw [Expr.allPlain, Expr.allPlain, Expr.plain_of_datum e e' he he' hfirst,
        Expr.allPlain_of_data es es' hes hes' hrest]

end

theorem Expr.map_plain_of_data {e e' : Option Expr} (h : Legible (Expr.optionParts e))
    (h' : Legible (Expr.optionParts e')) (heq : Expr.optionData e = Expr.optionData e') :
    e.map Expr.plain = e'.map Expr.plain := by
  cases e with
  | none =>
    cases e' with
    | none => rfl
    | some e' => cases heq
  | some e =>
    cases e' with
    | none => cases heq
    | some e' => exact congrArg some (Expr.plain_of_datum e e' h h' (List.cons.inj heq).1)

/-- No expression is a type. -/
theorem Expr.datum_ne_dump {e : Expr} (h : Legible e.parts) (a : Annotation) :
    e.datum ≠ .word a.dump := by
  intro heq
  cases e with
  | literal _ v =>
    obtain ⟨⟨hliteral, hfloat⟩, -⟩ := legible_cons.mp h
    cases v with
    | integer n =>
      refine ne_dump (fun hmem => ?_) a (Datum.word.inj heq)
      exact absurd (Number.isNumeral_integerText _ _ hmem) (by decide)
    | float x => cases hfloat
    | text s => cases heq
    | boolean b => exact ne_dump (colon_not_mem_word (isWord_boolean b)) a (Datum.word.inj heq)
    | void | array | unknown => cases hliteral
  | ident _ name =>
    have hword := isWord_of_isName (legible_cons.mp h).1.1
    exact ne_dump (colon_not_mem_word hword) a (Datum.word.inj heq)
  | binary _ _ _ _ => cases heq
  | call _ _ _ => cases heq
  | missing => cases heq

/-! ## Statements -/

/-- The words that statements start with. -/
def headWords : List String := "=" :: "print" :: statementWords

/-- The word with which a statement starts, if it is not an expression. -/
def Stmt.head? : Stmt → Option String
  | .block .. => some "block"
  | .function .. => some "func"
  | .declare .. => some "var"
  | .assign .. => some "="
  | .branch .. => some "if"
  | .loop .. => some "while"
  | .giveBack .. => some "return"
  | .print .. => some "print"
  | .evaluate .. => none

/-- The first word of a group, if statements start with it. -/
def Datum.head? : Datum → Option String
  | .group (.word s :: _) => if s ∈ headWords then some s else none
  | _ => none

theorem Datum.head?_group {s : String} (h : s ∈ headWords) (ds : List Datum) :
    (Datum.group (.word s :: ds)).head? = some s :=
  if_pos h

/-- No expression starts like a statement. -/
theorem Expr.head?_datum {e : Expr} (h : Legible e.parts) : e.datum.head? = none := by
  cases e with
  | literal _ v => cases v <;> rfl
  | ident _ name => rfl
  | binary _ op left right =>
    have hop := (legible_cons.mp h).1.1
    refine if_neg ?_
    cases op with
    | other s => cases hop
    | _ => decide
  | call _ name args =>
    obtain ⟨hname, hfree⟩ := (legible_cons.mp h).1
    simp only [Part.unambiguous, decide_eq_true_eq] at hfree
    -- Of these words, those that are free to be names are excluded.
    have hall : ∀ s ∈ headWords, isName s = true → s ∈ statementWords := by decide
    exact if_neg fun hhead => hfree (hall name hhead hname)
  | missing => cases (legible_cons.mp h).1.1

theorem Stmt.head?_datum {s : Stmt} (h : Legible s.parts) : s.datum.head? = s.head? := by
  cases s with
  | evaluate _ e => exact Expr.head?_datum h
  | _ => exact Datum.head?_group (by decide) _

/-- Statements with the same datum start with the same word, and so are of the same sort. -/
theorem Stmt.head?_of_datum {s s' : Stmt} (h : Legible s.parts) (h' : Legible s'.parts)
    (heq : s.datum = s'.datum) : s.head? = s'.head? := by
  rw [← Stmt.head?_datum h, heq, Stmt.head?_datum h']

/-- What stands behind the name of a variable. -/
theorem declared_of_data {a a' : Option Annotation} {e e' : Option Expr}
    (h : Legible (Expr.optionParts e)) (h' : Legible (Expr.optionParts e'))
    (heq : typeData a ++ Expr.optionData e = typeData a' ++ Expr.optionData e') :
    a.map plainType = a'.map plainType ∧ e.map Expr.plain = e'.map Expr.plain := by
  cases a with
  | none =>
    cases a' with
    | none => exact ⟨rfl, Expr.map_plain_of_data h h' heq⟩
    | some a' =>
      cases e with
      | none => cases heq
      | some e => exact absurd (List.cons.inj heq).1 (Expr.datum_ne_dump h a')
  | some a =>
    cases a' with
    | none =>
      cases e' with
      | none => cases heq
      | some e' => exact absurd (List.cons.inj heq).1.symm (Expr.datum_ne_dump h' a)
    | some a' =>
      obtain ⟨htype, hvalue⟩ := List.cons.inj heq
      exact ⟨congrArg some (plainType_of_dump (Datum.word.inj htype)),
        Expr.map_plain_of_data h h' hvalue⟩

/-- What a function returns has the type of its name. -/
theorem plainReturns_eq {returns : Option Annotation} (h : Legible (returns.toList.map .type)) :
    plainReturns returns =
      ⟨0, returnName returns, DeclaredType.ofName (returnName returns)⟩ := by
  cases returns with
  | none => rfl
  | some a =>
    have hwritten := (legible_cons.mp h).1.1
    simp only [Part.written, hasNamedType, Bool.and_eq_true, decide_eq_true_eq] at hwritten
    rw [plainReturns, hwritten.2]
    rfl

theorem parameters_of_data {ps qs : List Parameter}
    (h : ps.map (fun p => Datum.word p.name) = qs.map fun p => Datum.word p.name) :
    ps.map (fun p => (⟨0, p.name⟩ : Parameter)) = qs.map fun p => ⟨0, p.name⟩ := by
  induction ps generalizing qs with
  | nil =>
    cases qs with
    | nil => rfl
    | cons q qs => cases h
  | cons p ps ih =>
    cases qs with
    | nil => cases h
    | cons q qs =>
      obtain ⟨hname, hrest⟩ := List.cons.inj h
      rw [List.map_cons, List.map_cons, ih hrest, Datum.word.inj hname]

mutual

theorem Stmt.plain_of_datum : ∀ s s' : Stmt, Legible s.parts → Legible s'.parts →
    s.datum = s'.datum → s.plain = s'.plain
  | .block _ body, s', h, h', heq => by
    have hhead := Stmt.head?_of_datum h h' heq
    cases s' with
    | block _ body' =>
      simp only [Stmt.datum, Datum.group.injEq, List.cons.injEq, true_and] at heq
      rw [Stmt.plain, Stmt.plain, Stmt.allPlain_of_data body body' h h' heq]
    | _ => simp [Stmt.head?] at hhead
  | .function _ name params returns _ body, s', h, h', heq => by
    have hhead := Stmt.head?_of_datum h h' heq
    cases s' with
    | function _ name' params' returns' _ body' =>
      obtain ⟨-, hrest⟩ := legible_cons.mp h
      obtain ⟨-, hrest⟩ := legible_append.mp hrest
      obtain ⟨hreturns, hbody⟩ := legible_append.mp hrest
      obtain ⟨-, hrest'⟩ := legible_cons.mp h'
      obtain ⟨-, hrest'⟩ := legible_append.mp hrest'
      obtain ⟨hreturns', hbody'⟩ := legible_append.mp hrest'
      simp only [Stmt.datum, Datum.group.injEq, List.cons.injEq, Datum.word.injEq, true_and,
        and_true] at heq
      obtain ⟨hname, hparams, hreturn, hdata⟩ := heq
      rw [Stmt.plain, Stmt.plain, hname, parameters_of_data hparams, plainReturns_eq hreturns,
        hreturn, ← plainReturns_eq hreturns', Stmt.allPlain_of_data body body' hbody hbody' hdata]
    | _ => simp [Stmt.head?] at hhead
  | .declare _ name type value, s', h, h', heq => by
    have hhead := Stmt.head?_of_datum h h' heq
    cases s' with
    | declare _ name' type' value' =>
      have hvalue := (legible_append.mp (legible_cons.mp h).2).2
      have hvalue' := (legible_append.mp (legible_cons.mp h').2).2
      simp only [Stmt.datum, Datum.group.injEq, List.cons.injEq, Datum.word.injEq, true_and] at heq
      obtain ⟨htype, hplain⟩ := declared_of_data hvalue hvalue' heq.2
      rw [Stmt.plain, Stmt.plain, heq.1, htype, hplain]
    | _ => simp [Stmt.head?] at hhead
  | .assign _ name value, s', h, h', heq => by
    have hhead := Stmt.head?_of_datum h h' heq
    cases s' with
    | assign _ name' value' =>
      simp only [Stmt.datum, Datum.group.injEq, List.cons.injEq, Datum.word.injEq, true_and,
        and_true] at heq
      rw [Stmt.plain, Stmt.plain, heq.1,
        Expr.plain_of_datum value value' (legible_cons.mp h).2 (legible_cons.mp h').2 heq.2]
    | _ => simp [Stmt.head?] at hhead
  | .branch _ cond _ thenBody otherwise, s', h, h', heq => by
    have hhead := Stmt.head?_of_datum h h' heq
    cases s' with
    | branch _ cond' _ thenBody' otherwise' =>
      obtain ⟨hcond, hrest⟩ := legible_append.mp h
      obtain ⟨hthen, hother⟩ := legible_append.mp hrest
      obtain ⟨hcond', hrest'⟩ := legible_append.mp h'
      obtain ⟨hthen', hother'⟩ := legible_append.mp hrest'
      simp only [Stmt.datum, Datum.group.injEq, List.cons.injEq, true_and] at heq
      rw [Stmt.plain, Stmt.plain, Expr.plain_of_datum cond cond' hcond hcond' heq.1,
        Stmt.allPlain_of_data thenBody thenBody' hthen hthen' heq.2.1,
        Stmt.optionPlain_of_data otherwise otherwise' hother hother' heq.2.2]
    | _ => simp [Stmt.head?] at hhead
  | .loop _ cond _ body, s', h, h', heq => by
    have hhead := Stmt.head?_of_datum h h' heq
    cases s' with
    | loop _ cond' _ body' =>
      obtain ⟨hcond, hbody⟩ := legible_append.mp h
      obtain ⟨hcond', hbody'⟩ := legible_append.mp h'
      simp only [Stmt.datum, Datum.group.injEq, List.cons.injEq, true_and, and_true] at heq
      rw [Stmt.plain, Stmt.plain, Expr.plain_of_datum cond cond' hcond hcond' heq.1,
        Stmt.allPlain_of_data body body' hbody hbody' heq.2]
    | _ => simp [Stmt.head?] at hhead
  | .giveBack _ value, s', h, h', heq => by
    have hhead := Stmt.head?_of_datum h h' heq
    cases s' with
    | giveBack _ value' =>
      simp only [Stmt.datum, Datum.group.injEq, List.cons.injEq, true_and] at heq
      rw [Stmt.plain, Stmt.plain, Expr.map_plain_of_data h h' heq]
    | _ => simp [Stmt.head?] at hhead
  | .print _ value, s', h, h', heq => by
    have hhead := Stmt.head?_of_datum h h' heq
    cases s' with
    | print _ value' =>
      simp only [Stmt.datum, Datum.group.injEq, List.cons.injEq, true_and, and_true] at heq
      rw [Stmt.plain, Stmt.plain, Expr.plain_of_datum value value' h h' heq]
    | _ => simp [Stmt.head?] at hhead
  | .evaluate _ value, s', h, h', heq => by
    have hhead := Stmt.head?_of_datum h h' heq
    cases s' with
    | evaluate _ value' =>
      rw [Stmt.plain, Stmt.plain, Expr.plain_of_datum value value' h h' heq]
    | _ => simp [Stmt.head?] at hhead

theorem Stmt.allPlain_of_data : ∀ ss ss' : List Stmt, Legible (Stmt.allParts ss) →
    Legible (Stmt.allParts ss') → Stmt.data ss = Stmt.data ss' →
    Stmt.allPlain ss = Stmt.allPlain ss'
  | [], ss', _, _, heq => by
    cases ss' with
    | nil => rfl
    | cons s' ss' => cases heq
  | s :: ss, ss', h, h', heq => by
    obtain ⟨hs, hss⟩ := legible_append.mp h
    cases ss' with
    | nil => cases heq
    | cons s' ss' =>
      obtain ⟨hs', hss'⟩ := legible_append.mp h'
      obtain ⟨hfirst, hrest⟩ := List.cons.inj heq
      rw [Stmt.allPlain, Stmt.allPlain, Stmt.plain_of_datum s s' hs hs' hfirst,
        Stmt.allPlain_of_data ss ss' hss hss' hrest]

theorem Stmt.optionPlain_of_data : ∀ s s' : Option Stmt, Legible (Stmt.optionParts s) →
    Legible (Stmt.optionParts s') → Stmt.optionData s = Stmt.optionData s' →
    Stmt.optionPlain s = Stmt.optionPlain s'
  | none, s', _, _, heq => by
    cases s' with
    | none => rfl
    | some s' => cases heq
  | some s, s', h, h', heq => by
    cases s' with
    | none => cases heq
    | some s' =>
      exact congrArg some (Stmt.plain_of_datum s s' h h' (List.cons.inj heq).1)

end

/-! ## Programs -/

/-- A function that prints a text, with the name of the type of its variable, what it returns, the
line of its call and the text left open. -/
def printing (type : String) (returns : Option Annotation) (line : Int) (text : String) : Program :=
  ⟨1, [.function 1 "f" [⟨1, "a"⟩] returns 1
        [.declare 2 "x" (some ⟨2, type, DeclaredType.ofName type⟩)
          (some (.binary 2 .add (.ident 2 "a") (.literal 2 (.integer 1)))),
          .print 3 (.literal 3 (.text text))],
      .evaluate line (.call line "f" [.literal line (.integer 2)])]⟩

end BlockScript
