import BlockScript.Proofs.Parser.Language
import BlockScript.Proofs.Parser.Shape

/-!
# Programs from source texts

The scanner makes an operator token only of the characters that spell the operator, so that the tree
of a source text has none but the twelve operators.

* `spelled_scanFrom`: the operator tokens of a scanned text are spelled like operators.
* **`regular_ofSource`**: the program of a source text of which nothing is reported is regular.
-/

namespace BlockScript.Grammar

open BlockScript.Parser Token

/-! ## Single tokens -/

theorem known_ofSymbol {c : Char} {kind : Token.Kind} (h : Kind.ofSymbol? c = some kind) :
    0 < kind.precedence → (Operator.ofSpelling (String.ofList [c])).known = true := by
  unfold Kind.ofSymbol? at h
  split at h
  case h_13 => cases h
  all_goals
    cases h
    decide

theorem known_ofPair {c d : Char} {kind : Token.Kind} (h : Kind.ofPair? c d = some kind) :
    0 < kind.precedence → (Operator.ofSpelling (String.ofList [c, d])).known = true := by
  unfold Kind.ofPair? at h
  split at h
  case h_8 => cases h
  all_goals
    cases h
    decide

theorem precedence_ofWord (word : String) : (Kind.ofWord word).precedence = 0 := by
  have hall : ∀ k ∈ Kind.identifier :: Kind.keywords.map Prod.snd, k.precedence = 0 := by decide
  exact hall _ (Kind.ofWord_mem word)

theorem precedence_ofDigits (digits : List Char) (line : Int) :
    (ofDigits digits line).kind.precedence = 0 := by
  unfold ofDigits
  split <;> rfl

theorem precedence_ofFraction (lexeme : List Char) (line : Int) :
    (ofFraction lexeme line).kind.precedence = 0 := by
  unfold ofFraction
  split <;> rfl

theorem takeNumber_fst (line : Int) (c : Char) (rest : List Char) :
    (∃ digits, (takeNumber line c rest).1 = ofDigits digits line) ∨
      ∃ lexeme, (takeNumber line c rest).1 = ofFraction lexeme line := by
  simp only [takeNumber]
  split
  · split
    · dsimp only
      exact .inr ⟨_, rfl⟩
    · dsimp only
      exact .inl ⟨_, rfl⟩
  · dsimp only
    exact .inl ⟨_, rfl⟩

theorem precedence_takeNumber (line : Int) (c : Char) (rest : List Char) :
    (takeNumber line c rest).1.kind.precedence = 0 := by
  rcases takeNumber_fst line c rest with ⟨digits, h⟩ | ⟨lexeme, h⟩
  · rw [h, precedence_ofDigits]
  · rw [h, precedence_ofFraction]

theorem known_takeSymbol (line : Int) (c : Char) (rest : List Char)
    (h : 0 < (takeSymbol line c rest).1.kind.precedence) :
    (Operator.ofSpelling (takeSymbol line c rest).1.text).known = true := by
  have hone (h : 0 < (ofSymbol line c).kind.precedence) :
      (Operator.ofSpelling (ofSymbol line c).text).known = true := by
    unfold ofSymbol at h ⊢
    split at h
    · next kind hk => exact known_ofSymbol hk h
    · cases h
  unfold takeSymbol at h ⊢
  split at h
  · split at h
    · next kind hk => exact known_ofPair hk h
    · exact hone h
  · exact hone h

/-! ## Whole texts -/

theorem Spelled.cons {t : Token} {ts : List Token}
    (ht : 0 < t.kind.precedence → (Operator.ofSpelling t.text).known = true) (hts : Spelled ts) :
    Spelled (t :: ts) :=
  List.forall_mem_cons.mpr ⟨ht, hts⟩

theorem Spelled.cons_of_eq {t : Token} {ts : List Token} (ht : t.kind.precedence = 0)
    (hts : Spelled ts) : Spelled (t :: ts) :=
  hts.cons fun h => absurd h (by omega)

theorem spelled_scanFrom (line : Int) (cs : List Char) : Spelled (scanFrom line cs) := by
  have hend (line : Int) : Spelled [endOfInput line] :=
    Spelled.cons_of_eq rfl (by simp [Spelled])
  fun_induction scanFrom line cs with
  | case1 line => exact hend line
  | case2 line c rest hblank ih => exact ih
  | case3 line c rest _ _ ih => exact ih
  | case4 line c rest _ _ _ ih => exact ih.cons_of_eq (precedence_takeNumber line c rest)
  | case5 line rest content after _ _ _ _ ih => exact ih.cons_of_eq rfl
  | case6 line rest content after => exact hend after
  | case7 line c rest _ _ _ _ _ ih => exact ih.cons_of_eq (precedence_ofWord _)
  | case8 line c rest _ _ _ _ _ ih => exact ih.cons (known_takeSymbol line c rest)

theorem Spelled.usable {ts : List Token} (h : Spelled ts) : Spelled (usable ts) := fun t ht =>
  h t ((List.takeWhile_sublist _).subset (List.mem_filter.mp ht).1)

/-- **A program that is read without complaint from a source text is regular.** -/
theorem regular_ofSource {source : String} (h : (Program.ofSource source).diagnostics = []) :
    (Program.ofSource source).program.regular = true :=
  (derives_of_diagnostics h).regular (spelled_scanFrom 1 _).usable

end BlockScript.Grammar
