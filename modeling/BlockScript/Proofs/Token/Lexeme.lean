import BlockScript.Token.Scan

/-!
# Texts and their tokens

A source text is cut into lexemes and the gaps around them, so that nothing is lost and nothing is
made up. Every lexeme is as long as it can be, and every token knows its line.

* `Lexeme`: the tokens and what may follow each in the text.
* `Gap`: blanks and comments.
* `Cut`: a text in pieces: a gap, then lexemes with the gaps behind them, then what is left over of
  a text in quotes that is never closed.
* **`scan_cut`**: the tokens of a text are those of a cut of it.
-/

namespace BlockScript.Token

open Text (isBlank isLetter isDigit isAsciiDigit)

/-! ## Lexemes -/

/-- What stands in the text for a token. -/
def written (t : Token) : List Char :=
  if t.kind = .string then '"' :: (t.text.toList ++ ['"']) else t.text.toList

/-- No character of the class comes next. -/
def Stops (p : Char → Bool) (rest : List Char) : Prop :=
  ∀ c, rest.head? = some c → p c = false

/-- One digit or more. -/
def Digits (cs : List Char) : Prop :=
  cs ≠ [] ∧ ∀ c ∈ cs, isAsciiDigit c = true

/-- The kinds of a number: it is an error if it is too large. -/
def NumberKind (k : Kind) : Prop :=
  k = .number ∨ k = .error

/-- A token as it stands in front of the rest of a text. The rest cannot make it longer: a word ends
before a character that is not of a word, a number before one that is no digit, and a symbol of one
character stands where there is neither one of two characters nor a comment. -/
inductive Lexeme (t : Token) (rest : List Char) : Prop
  | word {c : Char} {cs : List Char} : t.text.toList = c :: cs → isWordStart c = true →
      (∀ d ∈ cs, isWordChar d = true) → t.kind = Kind.ofWord t.text → Stops isWordChar rest →
      Lexeme t rest
  | integer : Digits t.text.toList → NumberKind t.kind → Stops isAsciiDigit rest →
      (∀ d more, rest = '.' :: d :: more → isAsciiDigit d = false) → Lexeme t rest
  | fraction {whole part : List Char} : t.text.toList = whole ++ '.' :: part → Digits whole →
      Digits part → NumberKind t.kind → Stops isAsciiDigit rest → Lexeme t rest
  | quoted : t.kind = .string → '"' ∉ t.text.toList → Lexeme t rest
  | pair {c d : Char} : t.text.toList = [c, d] → Kind.ofPair? c d = some t.kind → Lexeme t rest
  | symbol {c : Char} : t.text.toList = [c] → Kind.ofSymbol? c = some t.kind →
      (∀ d, rest.head? = some d → Kind.ofPair? c d = none ∧ ¬ (c = '/' ∧ d = '/')) → Lexeme t rest
  | stray {c : Char} : t.text.toList = [c] → t.kind = .error → Kind.ofSymbol? c = none →
      isBlank c = false → isAsciiDigit c = false → c ≠ '"' → isWordStart c = false →
      (∀ d, rest.head? = some d → Kind.ofPair? c d = none) → Lexeme t rest

theorem written_of_ne {t : Token} (h : t.kind ≠ .string) : t.written = t.text.toList :=
  if_neg h

theorem written_plain {kind : Kind} (h : kind ≠ .string) (cs : List Char) (line : Int) :
    (plain kind cs line).written = cs := by
  rw [written, plain, if_neg h, String.toList_ofList]

theorem written_quoted (content : List Char) (line : Int) :
    (quoted content line).written = '"' :: (content ++ ['"']) := by
  rw [written, quoted, if_pos rfl, String.toList_ofList]

theorem Kind.ofWord_ne (word : String) :
    ofWord word ≠ .string ∧ ofWord word ≠ .endOfInput ∧ ofWord word ≠ .error := by
  have hall : ∀ k ∈ Kind.identifier :: keywords.map Prod.snd,
      k ≠ .string ∧ k ≠ .endOfInput ∧ k ≠ .error := by
    decide
  exact hall _ (ofWord_mem word)

theorem NumberKind.ne {k : Kind} (h : NumberKind k) : k ≠ .string ∧ k ≠ .endOfInput := by
  rcases h with rfl | rfl
  · decide
  · decide

theorem ofSymbol_ne {c : Char} {k : Kind} (h : Kind.ofSymbol? c = some k) :
    c ≠ '\n' ∧ k ≠ .string ∧ k ≠ .endOfInput ∧ k ≠ .error := by
  unfold Kind.ofSymbol? at h
  split at h
  case h_13 => cases h
  all_goals
    cases h
    decide

theorem ofPair_ne {c d : Char} {k : Kind} (h : Kind.ofPair? c d = some k) :
    '\n' ∉ [c, d] ∧ k ≠ .string ∧ k ≠ .endOfInput ∧ k ≠ .error := by
  unfold Kind.ofPair? at h
  split at h
  case h_8 => cases h
  all_goals
    cases h
    decide

theorem Digits.newline {cs : List Char} (h : Digits cs) : '\n' ∉ cs := fun hmem =>
  absurd (h.2 _ hmem) (by decide)

/-- Only a text in quotes goes over several lines. -/
theorem Lexeme.newline {t : Token} {rest : List Char} (h : Lexeme t rest)
    (hkind : t.kind ≠ .string) : '\n' ∉ t.written := by
  rw [written_of_ne hkind]
  cases h with
  | @word c cs htext hc hcs _ _ =>
    rw [htext, List.mem_cons, not_or]
    refine ⟨?_, fun hmem => absurd (hcs _ hmem) (by decide)⟩
    rintro rfl
    exact absurd hc (by decide)
  | integer hdigits _ _ _ => exact hdigits.newline
  | fraction htext hwhole hpart _ _ =>
    rw [htext, List.mem_append, List.mem_cons, not_or, not_or]
    exact ⟨hwhole.newline, by decide, hpart.newline⟩
  | quoted hstring _ => exact absurd hstring hkind
  | pair htext hpair =>
    rw [htext]
    exact (ofPair_ne hpair).1
  | symbol htext hsymbol _ =>
    rw [htext, List.mem_singleton]
    exact (ofSymbol_ne hsymbol).1.symm
  | stray htext _ _ hblank =>
    rw [htext, List.mem_singleton]
    rintro rfl
    exact absurd hblank (by decide)

/-! ## One lexeme at a time -/

/-- A token is taken from the head of a text. -/
structure Takes (line : Int) (s : List Char) (t : Token) (rest : List Char) : Prop where
  text : s = t.written ++ rest
  lexeme : Lexeme t rest
  line : t.line = line

theorem stops_dropWhile (p : Char → Bool) (cs : List Char) : Stops p (cs.dropWhile p) := by
  intro c hc
  have h := List.head?_dropWhile_not p cs
  rw [hc] at h
  exact h

theorem forall_takeWhile (p : Char → Bool) (cs : List Char) : ∀ c ∈ cs.takeWhile p, p c = true :=
  List.all_eq_true.mp List.all_takeWhile

theorem takes_takeWord {line : Int} {c : Char} {rest : List Char} (hc : isWordStart c = true) :
    Takes line (c :: rest) (takeWord line c rest).1 (takeWord line c rest).2 := by
  refine ⟨?_, .word String.toList_ofList hc (forall_takeWhile _ _) rfl (stops_dropWhile _ _), rfl⟩
  rw [written_of_ne (Kind.ofWord_ne _).1]
  change c :: rest = (String.ofList (c :: rest.takeWhile isWordChar)).toList ++ _
  rw [String.toList_ofList, List.cons_append]
  exact congrArg (c :: ·) List.takeWhile_append_dropWhile.symm

/-- A number that was read: its digits are kept, whether or not it is too large. -/
def IsNumber (t : Token) (cs : List Char) (line : Int) : Prop :=
  t.text = String.ofList cs ∧ NumberKind t.kind ∧ t.line = line

theorem isNumber_ofDigits (digits : List Char) (line : Int) :
    IsNumber (ofDigits digits line) digits line := by
  unfold ofDigits
  split
  · exact ⟨rfl, .inl rfl, rfl⟩
  · exact ⟨rfl, .inr rfl, rfl⟩

theorem isNumber_ofFraction (lexeme : List Char) (line : Int) :
    IsNumber (ofFraction lexeme line) lexeme line := by
  unfold ofFraction
  split
  · exact ⟨rfl, .inl rfl, rfl⟩
  · exact ⟨rfl, .inr rfl, rfl⟩

theorem IsNumber.toList {t : Token} {cs : List Char} {line : Int} (h : IsNumber t cs line) :
    t.text.toList = cs := by
  rw [h.1, String.toList_ofList]

theorem IsNumber.written {t : Token} {cs : List Char} {line : Int} (h : IsNumber t cs line) :
    t.written = cs := by
  rw [written_of_ne h.2.1.ne.1, h.toList]

theorem IsNumber.takes_integer {t : Token} {cs rest : List Char} {line : Int}
    (h : IsNumber t cs line) (hcs : Digits cs) (hstops : Stops isAsciiDigit rest)
    (hpoint : ∀ d more, rest = '.' :: d :: more → isAsciiDigit d = false) :
    Takes line (cs ++ rest) t rest := by
  refine ⟨by rw [h.written], .integer ?_ h.2.1 hstops hpoint, h.2.2⟩
  rwa [h.toList]

theorem digits_takeWhile {c : Char} (hc : isAsciiDigit c = true) (rest : List Char) :
    Digits (c :: rest.takeWhile isAsciiDigit) := by
  refine ⟨List.cons_ne_nil _ _, fun d hd => ?_⟩
  rcases List.mem_cons.mp hd with rfl | hd
  · exact hc
  · exact forall_takeWhile _ _ d hd

theorem takes_takeNumber {line : Int} {c : Char} {rest : List Char}
    (hc : isAsciiDigit c = true) :
    Takes line (c :: rest) (takeNumber line c rest).1 (takeNumber line c rest).2 := by
  have hdigits := digits_takeWhile hc rest
  have hstops := stops_dropWhile isAsciiDigit rest
  have htext : c :: rest = (c :: rest.takeWhile isAsciiDigit) ++ rest.dropWhile isAsciiDigit :=
    congrArg (c :: ·) List.takeWhile_append_dropWhile.symm
  unfold takeNumber
  rw [htext]
  dsimp only
  split
  · next d more hbehind =>
    rw [hbehind] at hstops ⊢
    split
    · next hd =>
      have hnumber := isNumber_ofFraction
        (c :: rest.takeWhile isAsciiDigit ++ '.' :: d :: more.takeWhile isAsciiDigit) line
      refine ⟨?_, .fraction hnumber.toList hdigits (digits_takeWhile hd more) hnumber.2.1
        (stops_dropWhile _ _), hnumber.2.2⟩
      dsimp only
      rw [hnumber.written, List.append_assoc]
      simp only [List.cons_append, List.takeWhile_append_dropWhile]
    · next hd =>
      refine (isNumber_ofDigits _ line).takes_integer hdigits hstops ?_
      rintro d' more' ⟨⟩
      simpa using hd
  · next hbehind =>
    exact (isNumber_ofDigits _ line).takes_integer hdigits hstops fun d more h =>
      absurd h (hbehind d more)

/-- A character that starts no lexeme of another sort and no gap. -/
structure IsSymbol (c : Char) (rest : List Char) : Prop where
  blank : isBlank c = false
  comment : ¬ (c = '/' ∧ rest.head? = some '/')
  digit : isAsciiDigit c = false
  quote : c ≠ '"'
  word : isWordStart c = false

theorem IsSymbol.takes_one {line : Int} {c : Char} {rest : List Char} (h : IsSymbol c rest)
    (hpair : ∀ d, rest.head? = some d → Kind.ofPair? c d = none) :
    Takes line (c :: rest) (ofSymbol line c) rest := by
  unfold ofSymbol
  split
  · next kind hkind =>
    refine ⟨?_, .symbol String.toList_ofList hkind fun d hd => ⟨hpair d hd, ?_⟩, rfl⟩
    · rw [written_plain (ofSymbol_ne hkind).2.1, List.singleton_append]
    · rintro ⟨rfl, rfl⟩
      exact h.comment ⟨rfl, hd⟩
  · next hkind =>
    refine ⟨?_, .stray String.toList_ofList rfl hkind h.blank h.digit h.quote h.word hpair, rfl⟩
    rw [written_plain (by decide), List.singleton_append]

theorem IsSymbol.takes {line : Int} {c : Char} {rest : List Char} (h : IsSymbol c rest) :
    Takes line (c :: rest) (takeSymbol line c rest).1 (takeSymbol line c rest).2 := by
  unfold takeSymbol
  cases rest with
  | nil => exact h.takes_one fun d hd => nomatch hd
  | cons d more =>
    dsimp only
    cases hpair : Kind.ofPair? c d with
    | none =>
      refine h.takes_one fun d' hd' => ?_
      cases hd'
      exact hpair
    | some kind =>
      refine ⟨?_, .pair String.toList_ofList hpair, rfl⟩
      dsimp only
      rw [written_plain (ofPair_ne hpair).2.1]
      rfl

theorem takes_quoted (line : Int) {rest : List Char} (h : '"' ∈ rest) :
    Takes line ('"' :: rest) (quoted (rest.takeWhile (· ≠ '"')) line)
      (rest.dropWhile (· ≠ '"')).tail := by
  have hcontent : '"' ∉ rest.takeWhile (· ≠ '"') := fun hmem =>
    absurd (forall_takeWhile _ _ _ hmem) (by decide)
  refine ⟨?_, .quoted rfl (by rwa [quoted, String.toList_ofList]), rfl⟩
  have hstops := stops_dropWhile (· ≠ '"') rest
  have htext : rest.takeWhile (· ≠ '"') ++ rest.dropWhile (· ≠ '"') = rest :=
    List.takeWhile_append_dropWhile
  rw [written_quoted, List.cons_append, List.append_assoc]
  refine congrArg ('"' :: ·) ?_
  cases hdrop : rest.dropWhile (· ≠ '"') with
  | nil =>
    rw [hdrop, List.append_nil] at htext
    rw [htext] at hcontent
    exact absurd h hcontent
  | cons c more =>
    rw [hdrop] at htext hstops
    have hc : c = '"' := by simpa using hstops c rfl
    rw [hc] at htext
    exact htext.symm

/-! ## Gaps -/

/-- Blanks and comments in front of the rest of a text. A comment goes up to the end of its line or
of the text. -/
inductive Gap : List Char → List Char → Prop
  | nil {rest : List Char} : Gap [] rest
  | blank {c : Char} {gap rest : List Char} : isBlank c = true → Gap gap rest →
      Gap (c :: gap) rest
  | comment {body gap rest : List Char} : '\n' ∉ body →
      (gap ++ rest = [] ∨ (gap ++ rest).head? = some '\n') → Gap gap rest →
      Gap ('/' :: '/' :: (body ++ gap)) rest

/-! ## Whole texts -/

/-- Lexemes with the gaps behind them, as they stand in the text. -/
def joined : List (Token × List Char) → List Char
  | [] => []
  | (t, gap) :: pieces => t.written ++ gap ++ joined pieces

/-- A text that starts on a line, in pieces. The line of a token is counted from the line breaks
before it. What is left over at the end, if anything, is a quote that is never closed. -/
structure Cut (line : Int) (s first : List Char) (pieces : List (Token × List Char))
    (left : List Char) : Prop where
  text : s = first ++ joined pieces ++ left
  opening : Gap first (joined pieces ++ left)
  piece (before : List (Token × List Char)) (t : Token) (gap : List Char)
      (after : List (Token × List Char)) : pieces = before ++ (t, gap) :: after →
    Lexeme t (gap ++ joined after ++ left) ∧ Gap gap (joined after ++ left) ∧
      t.line = line + (first ++ joined before).count '\n'
  unclosed : left = [] ∨ ∃ content, left = '"' :: content ∧ '"' ∉ content

/-- The tokens are those of a cut of the text, closed by one for the end that knows the last
line. -/
def HasTokens (line : Int) (s : List Char) (ts : List Token) : Prop :=
  ∃ first pieces left, Cut line s first pieces left ∧
    ts = pieces.map Prod.fst ++ [endOfInput (line + s.count '\n')]

theorem hasTokens_nil (line : Int) : HasTokens line [] [endOfInput line] := by
  refine ⟨[], [], [], ⟨rfl, .nil, fun before t gap after h => ?_, .inl rfl⟩, by simp⟩
  simp at h

theorem hasTokens_unclosed (line : Int) {rest : List Char} (h : '"' ∉ rest) :
    HasTokens line ('"' :: rest) [endOfInput (line + rest.count '\n')] := by
  refine ⟨[], [], '"' :: rest,
    ⟨rfl, .nil, fun before t gap after h => ?_, .inr ⟨rest, rfl, h⟩⟩, ?_⟩
  · simp at h
  · rw [List.count_cons_of_ne (by decide)]
    rfl

/-- More of the first gap is put in front of a text. -/
theorem HasTokens.widen {line : Int} {front s : List Char} {ts : List Token}
    (h : HasTokens (line + front.count '\n') s ts)
    (hfront : ∀ first rest, s = first ++ rest → Gap first rest → Gap (front ++ first) rest) :
    HasTokens line (front ++ s) ts := by
  obtain ⟨first, pieces, left, hcut, rfl⟩ := h
  refine ⟨front ++ first, pieces, left, ⟨?_, ?_, fun before t gap after hp => ?_,
    hcut.unclosed⟩, ?_⟩
  · rw [hcut.text, List.append_assoc, List.append_assoc, List.append_assoc]
  · refine hfront _ _ ?_ hcut.opening
    rw [hcut.text, List.append_assoc]
  · obtain ⟨hlexeme, hgap, hline⟩ := hcut.piece before t gap after hp
    refine ⟨hlexeme, hgap, ?_⟩
    rw [hline]
    simp only [List.count_append]
    omega
  · rw [List.count_append]
    congr 3
    omega

theorem HasTokens.blank {line : Int} {c : Char} {s : List Char} {ts : List Token}
    (hc : isBlank c = true) (h : HasTokens (if c = '\n' then line + 1 else line) s ts) :
    HasTokens line (c :: s) ts := by
  have hfront : HasTokens (line + [c].count '\n') s ts := by
    by_cases hn : c = '\n'
    · rw [if_pos hn] at h
      rw [hn]
      exact h
    · rw [if_neg hn] at h
      rw [List.count_eq_zero.mpr (by simpa using Ne.symm hn)]
      simpa using h
  exact hfront.widen fun _ _ _ hgap => .blank hc hgap

theorem HasTokens.comment {line : Int} {rest : List Char} {ts : List Token}
    (hrest : rest.head? = some '/') (h : HasTokens line (rest.dropWhile (· ≠ '\n')) ts) :
    HasTokens line ('/' :: rest) ts := by
  obtain ⟨rest, rfl⟩ := List.head?_eq_some_iff.mp hrest
  have hbody : '\n' ∉ rest.takeWhile (· ≠ '\n') := fun hmem =>
    absurd (forall_takeWhile _ _ _ hmem) (by decide)
  have htext : '/' :: '/' :: rest =
      ('/' :: '/' :: rest.takeWhile (· ≠ '\n')) ++ rest.dropWhile (· ≠ '\n') := by
    simp only [List.cons_append, List.takeWhile_append_dropWhile]
  have hstops := stops_dropWhile (· ≠ '\n') rest
  rw [List.dropWhile_cons_of_pos (by decide)] at h
  rw [htext]
  refine HasTokens.widen ?_ fun first rest' hs hgap => .comment hbody ?_ hgap
  · rw [List.count_eq_zero.mpr (by simpa using hbody)]
    simpa using h
  · rw [← hs]
    cases hdrop : rest.dropWhile (· ≠ '\n') with
    | nil => exact .inl rfl
    | cons c more =>
      rw [hdrop] at hstops
      have hc : c = '\n' := by simpa using hstops c rfl
      exact .inr (by rw [hc]; rfl)

/-- A token is put in front of a text, so that its first gap comes to stand behind that token. -/
theorem HasTokens.token {line : Int} {t : Token} {s rest : List Char} {ts : List Token}
    (ht : Takes line s t rest) (h : HasTokens (line + t.written.count '\n') rest ts) :
    HasTokens line s (t :: ts) := by
  obtain ⟨first, pieces, left, hcut, rfl⟩ := h
  refine ⟨[], (t, first) :: pieces, left, ⟨?_, .nil, fun before u gap after hp => ?_,
    hcut.unclosed⟩, ?_⟩
  · rw [ht.text, hcut.text, joined]
    simp
  · cases before with
    | nil =>
      cases hp
      refine ⟨?_, hcut.opening, ?_⟩
      · have hlexeme := ht.lexeme
        rwa [hcut.text] at hlexeme
      · rw [ht.line]
        simp [joined]
    | cons b before =>
      cases hp
      obtain ⟨hlexeme, hgap, hline⟩ := hcut.piece before u gap after rfl
      refine ⟨hlexeme, hgap, ?_⟩
      rw [hline, List.nil_append, joined]
      simp only [List.count_append]
      omega
  · rw [ht.text, List.count_append, List.map_cons, List.cons_append]
    congr 4
    omega

/-- A token that does not start with a quote is on one line. -/
theorem HasTokens.oneLine {line : Int} {c : Char} {t : Token} {s rest : List Char}
    {ts : List Token} (ht : Takes line (c :: s) t rest) (hc : c ≠ '"')
    (h : HasTokens line rest ts) : HasTokens line (c :: s) (t :: ts) := by
  have hkind : t.kind ≠ .string := by
    intro hkind
    have htext := ht.text
    rw [written, if_pos hkind, List.cons_append] at htext
    exact hc (List.cons.inj htext).1
  refine HasTokens.token ht ?_
  rw [List.count_eq_zero.mpr (ht.lexeme.newline hkind)]
  simpa using h

/-- **The tokens of a text that starts on a line**, by induction along the scan. -/
theorem hasTokens_scanFrom (line : Int) (s : List Char) : HasTokens line s (scanFrom line s) := by
  fun_induction scanFrom line s with
  | case1 line => exact hasTokens_nil line
  | case2 line c rest hblank ih => exact ih.blank hblank
  | case3 line c rest _ hcomment ih =>
    obtain ⟨rfl, hrest⟩ := hcomment
    exact ih.comment hrest
  | case4 line c rest _ _ hdigit ih =>
    refine ih.oneLine (takes_takeNumber hdigit) ?_
    rintro rfl
    exact absurd hdigit (by decide)
  | case5 line rest content after hclosed _ _ _ ih =>
    refine HasTokens.token (takes_quoted line hclosed) ?_
    rw [written_quoted, List.count_cons_of_ne (by decide), List.count_append]
    exact ih
  | case6 line rest content after hopen =>
    have hall : ∀ c ∈ rest, decide (c ≠ '"') = true := by
      intro c hc
      refine decide_eq_true ?_
      rintro rfl
      exact hopen hc
    have hcontent : rest.takeWhile (· ≠ '"') = rest := by
      rw [← List.append_nil rest, List.takeWhile_append_of_pos hall, List.takeWhile_nil]
    change HasTokens line ('"' :: rest) [endOfInput (line + (rest.takeWhile _).count '\n')]
    rw [hcontent]
    exact hasTokens_unclosed line hopen
  | case7 line c rest _ _ _ hquote hword ih => exact ih.oneLine (takes_takeWord hword) hquote
  | case8 line c rest hblank hcomment hdigit hquote hword ih =>
    have hsymbol : IsSymbol c rest := by
      refine ⟨?_, hcomment, ?_, hquote, ?_⟩
      · simpa using hblank
      · simpa using hdigit
      · simpa using hword
    exact ih.oneLine hsymbol.takes hquote

end BlockScript.Token
