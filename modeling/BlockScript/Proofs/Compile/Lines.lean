import BlockScript.Compile
import BlockScript.Proofs.Interpreter.Transparency
import BlockScript.Proofs.Parser.Lines
import BlockScript.Proofs.Text.Lines
import BlockScript.Proofs.Text.Utf8
import BlockScript.Proofs.Token.Lexeme

/-!
# Reported lines

Every line that is reported of a source text is a line of that text. The scanner counts the line
breaks as it goes, the text is split at them, and what comes later only passes lines on.

* `Token.exists_place`: the place of a token in the text, which gives its line.
* `Token.Lexeme.one_line`: what cannot be recognised lies on one line.
* `Diagnostic.quotation`: a line as it is quoted below a diagnostic.
* **`hasLine_of_reported`**: the lines of all diagnostics and faults.
-/

namespace BlockScript

/-! ## Tokens -/

namespace Token

open Text (isBlank isAsciiDigit)

theorem joined_append (before after : List (Token × List Char)) :
    joined (before ++ after) = joined before ++ joined after := by
  induction before with
  | nil => rfl
  | cons piece before ih =>
    obtain ⟨t, gap⟩ := piece
    rw [List.cons_append, joined, joined, ih, List.append_assoc (t.written ++ gap)]

/-- A token stands in the text, on the line that the line breaks before it lead to. Only the token
that marks the end does not. -/
theorem exists_place {source : List Char} {t : Token} (h : t ∈ scan source) :
    t = endOfInput (1 + (scanned source).count '\n') ∨
      ∃ pre post, scanned source = pre ++ (t.written ++ post) ∧ Lexeme t post ∧
        t.line = 1 + pre.count '\n' := by
  obtain ⟨first, pieces, left, hcut, htokens⟩ := hasTokens_scanFrom 1 (scanned source)
  have hmem : t ∈ pieces.map Prod.fst ++ [endOfInput (1 + (scanned source).count '\n')] := by
    rw [← htokens]
    exact h
  rcases List.mem_append.mp hmem with hpiece | hend
  · obtain ⟨⟨t, gap⟩, hentry, rfl⟩ := List.mem_map.mp hpiece
    obtain ⟨before, after, hpieces⟩ := List.append_of_mem hentry
    obtain ⟨hlexeme, -, hline⟩ := hcut.piece before t gap after hpieces
    refine .inr ⟨first ++ joined before, gap ++ joined after ++ left, ?_, hlexeme, hline⟩
    rw [hcut.text, hpieces, joined_append, joined]
    simp only [List.append_assoc]
  · exact .inl (List.mem_singleton.mp hend)

theorem exists_endOfInput (source : List Char) : ∃ t ∈ scan source, t.kind = .endOfInput := by
  obtain ⟨first, pieces, left, -, htokens⟩ := hasTokens_scanFrom 1 (scanned source)
  refine ⟨endOfInput (1 + (scanned source).count '\n'), ?_, rfl⟩
  change _ ∈ scanFrom 1 (scanned source)
  rw [htokens]
  exact List.mem_append_right _ List.mem_cons_self

theorem count_scanned_le (source : List Char) :
    (scanned source).count '\n' ≤ source.count '\n' :=
  (List.takeWhile_sublist _).count_le _

/-- **The lines of tokens** are those of the text. -/
theorem line_of_mem_scan {source : List Char} {t : Token} (h : t ∈ scan source) :
    1 ≤ t.line ∧ t.line ≤ source.count '\n' + 1 := by
  have hle := count_scanned_le source
  rcases exists_place h with rfl | ⟨pre, post, htext, -, hline⟩
  · change 1 ≤ 1 + ((scanned source).count '\n' : Int) ∧ 1 + ((scanned source).count '\n' : Int) ≤ _
    omega
  · have hpre : pre.count '\n' ≤ (scanned source).count '\n' := by
      rw [htext, List.count_append]
      exact Nat.le_add_right _ _
    omega

theorem Digits.one_line {cs : List Char} (h : Digits cs) : ∀ c ∈ cs, c ≠ '\n' ∧ c ≠ '\r' := by
  intro c hc
  have hdigit := h.2 c hc
  constructor
  · rintro rfl
    exact absurd hdigit (by decide)
  · rintro rfl
    exact absurd hdigit (by decide)

/-- What is not recognised, a number out of range or a stray character, has no part in a line
break. -/
theorem Lexeme.one_line {t : Token} {rest : List Char} (h : Lexeme t rest)
    (hkind : t.kind = .error) : ∀ c ∈ t.text.toList, c ≠ '\n' ∧ c ≠ '\r' := by
  cases h with
  | word _ _ _ hword _ =>
    rw [hkind] at hword
    exact absurd hword.symm (Kind.ofWord_ne _).2.2
  | integer hdigits _ _ _ => exact hdigits.one_line
  | fraction htext hwhole hpart _ _ =>
    rw [htext]
    have hpoint : '.' ≠ '\n' ∧ '.' ≠ '\r' := by decide
    exact List.forall_mem_append.mpr
      ⟨hwhole.one_line, List.forall_mem_cons.mpr ⟨hpoint, hpart.one_line⟩⟩
  | quoted hstring _ =>
    rw [hkind] at hstring
    cases hstring
  | pair _ hpair => exact absurd hkind (ofPair_ne hpair).2.2.2
  | symbol _ hsymbol _ => exact absurd hkind (ofSymbol_ne hsymbol).2.2.2
  | stray htext _ _ hblank =>
    rw [htext]
    refine List.forall_mem_singleton.mpr ⟨?_, ?_⟩
    · rintro rfl
      exact absurd hblank (by decide)
    · rintro rfl
      exact absurd hblank (by decide)

/-- **The line of an error token holds its text**, also when the line break is taken off. -/
theorem exists_line_of_error {source : List Char} {t : Token} (h : t ∈ scan source)
    (hkind : t.kind = .error) (name : String) :
    ∃ line, SourceFile.line? ⟨name, String.ofList source⟩ t.line = some line ∧
      t.text.toList <:+: (trimBreak line).toList := by
  rcases exists_place h with rfl | ⟨pre, post, htext, hlexeme, hline⟩
  · cases hkind
  · have hchars := hlexeme.one_line hkind
    have hbreak : '\n' ∉ t.text.toList := fun hmem => (hchars _ hmem).1 rfl
    rw [written_of_ne (by rw [hkind]; decide)] at htext
    have hsource : source =
        pre ++ (t.text.toList ++ (post ++ source.dropWhile (· ≠ '\x00'))) := by
      rw [← List.append_assoc t.text.toList, ← List.append_assoc pre, ← htext]
      exact List.takeWhile_append_dropWhile.symm
    obtain ⟨line, hsplit, hinfix⟩ := exists_line_of_append hbreak pre _
    rw [← hsource] at hsplit
    refine ⟨String.ofList line, ?_, infix_trimBreak hchars hinfix⟩
    rw [hline, SourceFile.line?_succ, String.toList_ofList, hsplit]
    rfl

end Token

/-! ## Diagnostics -/

/-- A line as it is quoted below a diagnostic. -/
def Diagnostic.quotation (d : Diagnostic) (paint : Painter) (line : String) : String :=
  " " ++ paint.margin (toString d.line) ++ " " ++ paint.margin "|" ++ " " ++ trimBreak line

/-- The line is quoted if the file has it, between what is said before it and the message. -/
theorem Diagnostic.render_of_line {d : Diagnostic} {file : SourceFile} {line : String}
    (h : file.line? d.line = some line) (paint : Painter) : ∃ above below,
      d.render (some file) paint = "\n".intercalate (above ++ d.quotation paint line :: below) := by
  unfold Diagnostic.render
  dsimp only [Option.bind_some]
  rw [h]
  exact ⟨[_, _, _], [_], rfl⟩

/-- The source that is read from a file with this name and these bytes. -/
def SourceFile.ofBytes (name : String) (bytes : List UInt8) : SourceFile :=
  ⟨name, Text.Utf8.decode bytes⟩

variable {f : SourceFile} {natives : Natives} {d : Diagnostic}

theorem onLines_scan (f : SourceFile) :
    Parser.OnLines f.HasLine (Token.scan f.contents.toList) := by
  intro t ht
  unfold SourceFile.HasLine
  rw [f.length_lines]
  exact Token.line_of_mem_scan ht

theorem hasLine_of_mem_diagnostics (h : d ∈ (compile natives f.contents).diagnostics) :
    f.HasLine d.line := by
  rcases List.mem_append.mp h with hparsed | hchecked
  · exact Parser.line_of_mem_diagnostics (onLines_scan f) (Token.exists_endOfInput _) hparsed
  · obtain ⟨problem, hproblem, rfl⟩ := List.mem_map.mp hchecked
    exact Checker.located_program natives (Parser.on_ofTokens (onLines_scan f)) problem hproblem

/-- Nothing done to a debugger changes the line of a fault. -/
theorem hasLine_of_fault {i : Interpreter} {meanwhile script : List (List Control)} {fault : Fault}
    (h : (i.runAmid meanwhile script (Program.ofSource f.contents).program).1.fault = some fault) :
    f.HasLine fault.line := by
  have hresult : (i.runAmid meanwhile script (Program.ofSource f.contents).program).1.result =
      (i.run [] (Program.ofSource f.contents).program).1.result :=
    Interpreter.result_runIn _ rfl ⟨rfl, rfl, .refl _ _, rfl⟩
  have hrun : (i.run [] (Program.ofSource f.contents).program).1.fault = some fault := by
    rw [← h]
    exact (congrArg Result.fault hresult).symm
  exact Interpreter.line_of_fault (Parser.on_ofTokens (onLines_scan f)) hrun

theorem exists_error_of_lexical {source : String} (h : d ∈ (compile natives source).diagnostics)
    (hlexical : d.category = .lexical) :
    ∃ t ∈ Token.scan source.toList, t.kind = .error ∧ d = Parser.unrecognized t := by
  rw [← Parser.lexicalDiagnostic_eq]
  rcases List.mem_append.mp h with hparsed | hchecked
  · rcases Parser.cases_of_mem_diagnostics hparsed with herror | ⟨s, -, e, -, rfl⟩
    · exact herror
    · cases hlexical
  · obtain ⟨problem, -, rfl⟩ := List.mem_map.mp hchecked
    cases hlexical

/-- **Every reported line is a line of the source.** Whatever bytes a file holds, it has one line
more than there are bytes for line breaks. All diagnostics of scanning, parsing and checking are
about these lines, so that each of them is shown with the line it is about. So is the fault that
stops a run of the program, if one does. If the bytes encode a text, then the line of that text
which is shown with a lexical diagnostic holds what was not recognised. -/
theorem hasLine_of_reported (name : String) (bytes : List UInt8) (natives : Natives) :
    (SourceFile.ofBytes name bytes).lines.length = bytes.count Text.Utf8.newline + 1 ∧
    (∀ d ∈ (compile natives (Text.Utf8.decode bytes)).diagnostics,
      (SourceFile.ofBytes name bytes).HasLine d.line ∧
      ∀ paint, ∃ line above below, (SourceFile.ofBytes name bytes).line? d.line = some line ∧
        d.render (some (SourceFile.ofBytes name bytes)) paint =
          "\n".intercalate (above ++ d.quotation paint line :: below)) ∧
    (∀ (i : Interpreter) (meanwhile script : List (List Control)) (fault : Fault),
      (i.runAmid meanwhile script
        (Program.ofSource (Text.Utf8.decode bytes)).program).1.fault = some fault →
      (SourceFile.ofBytes name bytes).HasLine fault.line) ∧
    ∀ text : String, text.toUTF8.data.toList = bytes →
      ∀ d ∈ (compile natives (Text.Utf8.decode bytes)).diagnostics, d.category = .lexical →
        ∃ t ∈ Token.scan text.toList, d = Parser.unrecognized t ∧
          ∃ line, SourceFile.line? ⟨name, text⟩ d.line = some line ∧
            t.text.toList <:+: (trimBreak line).toList := by
  refine ⟨?_, fun d hd => ?_, fun i meanwhile script fault h => ?_,
    fun text htext d hd hlexical => ?_⟩
  · rw [SourceFile.length_lines, ← Text.Utf8.count_decode]
    rfl
  · have hline : (SourceFile.ofBytes name bytes).HasLine d.line := hasLine_of_mem_diagnostics hd
    refine ⟨hline, fun paint => ?_⟩
    obtain ⟨line, hsome⟩ := hline.exists_line
    obtain ⟨above, below, hrender⟩ := Diagnostic.render_of_line hsome paint
    exact ⟨line, above, below, hsome, hrender⟩
  · have hcontents : Text.Utf8.decode bytes = (SourceFile.ofBytes name bytes).contents := rfl
    rw [hcontents] at h
    exact hasLine_of_fault h
  · rw [← htext, Text.Utf8.decode_toUTF8] at hd
    obtain ⟨t, ht, hkind, rfl⟩ := exists_error_of_lexical hd hlexical
    obtain ⟨line, hline, hinfix⟩ := Token.exists_line_of_error ht hkind name
    rw [String.ofList_toList] at hline
    exact ⟨t, ht, rfl, line, hline, hinfix⟩

end BlockScript
