import BlockScript.Proofs.Text.Quoted
import BlockScript.Tree.Dump
import Mathlib.Data.List.Forall2

/-!
# Texts in parentheses

The text of a tree can be read back, as nested groups of words and texts in quotes. A reader goes
over it one character at a time and keeps the groups that are still open. Blanks and line ends only
separate, so it does not see how far a line is indented.

* `Datum`: what is read. `Reader`, `Reader.next`: what a reader knows, and what one character does.
* `Reads`: a text stands for some data, wherever they may end.
* `reads_word`, `reads_quote`, `reads_parenthesized`, `reads_indent`, `reads_headed`: what the texts
  that a tree is written with stand for.
* **`Reads.unique`**: a text stands for one list of data only.
-/

namespace BlockScript

open Text (quote quotedChars isOpen)

/-! ## Readers -/

/-- What a text in parentheses says. Of a text in quotes, this is what stands between them. -/
inductive Datum where
  | word (s : String)
  | quoted (content : List Char)
  | group (items : List Datum)

/-- Where a reader is: in a word or between words, in quotes, or there behind a backslash, each with
what was read so far. -/
inductive Mode where
  | bare (word : List Char)
  | quoted (content : List Char)
  | escaped (content : List Char)

/-- A reader: where it is, what it has read of the innermost group that is open, and of the groups
around that one. -/
structure Reader where
  mode : Mode
  items : List Datum
  outer : List (List Datum)

/-- The word that was read, if it is one. -/
def wordOf : List Char → List Datum
  | [] => []
  | c :: cs => [.word (String.ofList (c :: cs))]

@[simp] theorem wordOf_nil : wordOf [] = [] := rfl

namespace Reader

/-- A character outside of quotes, behind the start of a word. -/
def nextBare (word : List Char) (items : List Datum) (outer : List (List Datum)) (c : Char) :
    Reader :=
  if c = ' ' then ⟨.bare [], items ++ wordOf word, outer⟩
  else if c = '(' then ⟨.bare [], [], (items ++ wordOf word) :: outer⟩
  else if c = ')' then
    match outer with
    | [] => ⟨.bare [], items ++ wordOf word, []⟩
    | around :: outer => ⟨.bare [], around ++ [.group (items ++ wordOf word)], outer⟩
  else if c = '"' then ⟨.quoted [], items ++ wordOf word, outer⟩
  else ⟨.bare (word ++ [c]), items, outer⟩

/-- A character in quotes. -/
def nextQuoted (content : List Char) (items : List Datum) (outer : List (List Datum)) (c : Char) :
    Reader :=
  if c = '\\' then ⟨.escaped (content ++ [c]), items, outer⟩
  else if c = '"' then ⟨.bare [], items ++ [.quoted content], outer⟩
  else ⟨.quoted (content ++ [c]), items, outer⟩

/-- The end of a line, where quotes end without a word. -/
def nextLine (r : Reader) : Reader :=
  match r.mode with
  | .bare word => ⟨.bare [], r.items ++ wordOf word, r.outer⟩
  | .quoted _ | .escaped _ => ⟨.bare [], r.items, r.outer⟩

/-- What one character does. -/
def next (r : Reader) (c : Char) : Reader :=
  if c = '\n' then r.nextLine
  else
    match r.mode with
    | .bare word => nextBare word r.items r.outer c
    | .quoted content => nextQuoted content r.items r.outer c
    | .escaped content => ⟨.quoted (content ++ [c]), r.items, r.outer⟩

/-- What the characters of a text do, one after the other. -/
def run (r : Reader) (cs : List Char) : Reader :=
  cs.foldl next r

/-- A reader between words. -/
abbrev between (items : List Datum) (outer : List (List Datum)) : Reader :=
  ⟨.bare [], items, outer⟩

@[simp] theorem run_nil (r : Reader) : r.run [] = r := rfl

@[simp] theorem run_cons (r : Reader) (c : Char) (cs : List Char) :
    r.run (c :: cs) = (r.next c).run cs := rfl

theorem run_append (r : Reader) (cs ds : List Char) : r.run (cs ++ ds) = (r.run cs).run ds :=
  List.foldl_append

@[simp] theorem next_blank (items : List Datum) (outer : List (List Datum)) :
    (between items outer).next ' ' = between items outer := by
  simp [next, nextBare]

@[simp] theorem next_line (items : List Datum) (outer : List (List Datum)) :
    (between items outer).next '\n' = between items outer := by
  simp [next, nextLine]

@[simp] theorem next_open (items : List Datum) (outer : List (List Datum)) :
    (between items outer).next '(' = between [] (items :: outer) := by
  simp [next, nextBare]

@[simp] theorem next_close (items around : List Datum) (outer : List (List Datum)) :
    (between items (around :: outer)).next ')' = between (around ++ [.group items]) outer := by
  simp [next, nextBare]

@[simp] theorem next_quote (items : List Datum) (outer : List (List Datum)) :
    (between items outer).next '"' = ⟨.quoted [], items, outer⟩ := by
  simp [next, nextBare]

end Reader

/-! ## What texts stand for -/

/-- A character at which a word ends. -/
def endsWord (c : Char) : Bool :=
  c = ' ' || c = '\n' || c = ')'

/-- Words may end here. -/
def Bounded (rest : List Char) : Prop :=
  ∃ c cs, rest = c :: cs ∧ endsWord c = true

theorem bounded_blank (rest : List Char) : Bounded (' ' :: rest) := ⟨_, _, rfl, rfl⟩

theorem bounded_line (rest : List Char) : Bounded ('\n' :: rest) := ⟨_, _, rfl, rfl⟩

theorem bounded_close (rest : List Char) : Bounded (')' :: rest) := ⟨_, _, rfl, rfl⟩

/-- **The text stands for the data**: a reader adds them to what it has, if words may end behind the
text. -/
def Reads (t : String) (ds : List Datum) : Prop :=
  ∀ items outer rest, Bounded rest →
    (Reader.between items outer).run (t.toList ++ rest) =
      (Reader.between (items ++ ds) outer).run rest

/-- A text stands for one list of data only. -/
theorem Reads.unique {t : String} {ds es : List Datum} (hd : Reads t ds) (he : Reads t es) :
    ds = es := by
  have h := (hd [] [] ['\n'] (bounded_line [])).symm.trans (he [] [] ['\n'] (bounded_line []))
  simpa using h

/-! ### Words -/

/-- A character of a word. -/
def isInner (c : Char) : Bool :=
  c ≠ ' ' && c ≠ '\n' && c ≠ '(' && c ≠ ')' && c ≠ '"'

theorem run_inner {cs : List Char} (h : ∀ c ∈ cs, isInner c = true) (word : List Char)
    (items : List Datum) (outer : List (List Datum)) :
    Reader.run ⟨.bare word, items, outer⟩ cs = ⟨.bare (word ++ cs), items, outer⟩ := by
  induction cs generalizing word with
  | nil => simp
  | cons c cs ih =>
    obtain ⟨hc, hcs⟩ := List.forall_mem_cons.mp h
    simp only [isInner, Bool.and_eq_true, decide_eq_true_eq] at hc
    have hnext : Reader.next ⟨.bare word, items, outer⟩ c =
        ⟨.bare (word ++ [c]), items, outer⟩ := by
      simp [Reader.next, Reader.nextBare, hc]
    rw [Reader.run_cons, hnext, ih hcs, List.append_assoc, List.singleton_append]

/-- Where a word may end, it is as if it had ended before. -/
theorem next_ends {c : Char} (hc : endsWord c = true) (word : List Char) (items : List Datum)
    (outer : List (List Datum)) :
    Reader.next ⟨.bare word, items, outer⟩ c =
      (Reader.between (items ++ wordOf word) outer).next c := by
  simp only [endsWord, Bool.or_eq_true, decide_eq_true_eq] at hc
  rcases hc with (rfl | rfl) | rfl
  · simp [Reader.next, Reader.nextBare]
  · simp [Reader.next, Reader.nextLine]
  · cases outer with
    | nil => simp [Reader.next, Reader.nextBare]
    | cons around outer => simp [Reader.next, Reader.nextBare]

/-- The text is read as one word: it has a character, and none at which a word ends. -/
def fitsWord (s : String) : Bool :=
  s.toList ≠ [] && s.toList.all isInner

theorem reads_word {s : String} (h : fitsWord s = true) : Reads s [.word s] := by
  simp only [fitsWord, Bool.and_eq_true, decide_eq_true_eq, List.all_eq_true] at h
  rintro items outer rest ⟨c, cs, rfl, hc⟩
  have hword : wordOf s.toList = [.word s] := by
    cases hs : s.toList with
    | nil => exact absurd hs h.1
    | cons c cs => rw [wordOf, ← hs, String.ofList_toList]
  rw [Reader.run_append, run_inner h.2, List.nil_append, Reader.run_cons, next_ends hc, hword]
  rfl

/-! ### Texts in quotes -/

theorem run_open {cs : List Char} (h : ∀ c ∈ cs, isOpen c = true) (content : List Char)
    (items : List Datum) (outer : List (List Datum)) :
    Reader.run ⟨.quoted content, items, outer⟩ cs = ⟨.quoted (content ++ cs), items, outer⟩ := by
  induction cs generalizing content with
  | nil => simp
  | cons c cs ih =>
    obtain ⟨hc, hcs⟩ := List.forall_mem_cons.mp h
    obtain ⟨hquote, hslash, hline⟩ := Text.isOpen_ne hc
    have hnext : Reader.next ⟨.quoted content, items, outer⟩ c =
        ⟨.quoted (content ++ [c]), items, outer⟩ := by
      simp [Reader.next, Reader.nextQuoted, hquote, hslash, hline]
    rw [Reader.run_cons, hnext, ih hcs, List.append_assoc, List.singleton_append]

theorem run_escape {l : Char} (hl : l ≠ '\n') (content : List Char) (items : List Datum)
    (outer : List (List Datum)) :
    Reader.run ⟨.quoted content, items, outer⟩ ['\\', l] =
      ⟨.quoted (content ++ ['\\', l]), items, outer⟩ := by
  simp [Reader.next, Reader.nextQuoted, hl]

/-- Whichever way a character is written, the quotes do not end in it. -/
theorem run_coded {c : Char} {cs : List Char} (h : Text.Coded c cs) (content : List Char)
    (items : List Datum) (outer : List (List Datum)) :
    Reader.run ⟨.quoted content, items, outer⟩ cs = ⟨.quoted (content ++ cs), items, outer⟩ := by
  cases h with
  | itself hc => exact run_open (List.forall_mem_singleton.mpr hc) content items outer
  | letter hl =>
    have hall : ∀ a ∈ Text.letters, a.2 ≠ '\n' := by decide
    exact run_escape (hall _ hl) content items outer
  | @number l width digits hw _ hdigits _ =>
    have hall : ∀ a ∈ Text.widths, a.1 ≠ '\n' := by decide
    have hlist : '\\' :: l :: digits = ['\\', l] ++ digits := rfl
    rw [hlist, Reader.run_append, run_escape (hall _ hw), run_open hdigits, List.append_assoc]

theorem run_quotedChars (cs content : List Char) (items : List Datum) (outer : List (List Datum)) :
    Reader.run ⟨.quoted content, items, outer⟩ (cs.flatMap fun c => (Text.quoteChar c).toList) =
      ⟨.quoted (content ++ cs.flatMap fun c => (Text.quoteChar c).toList), items, outer⟩ := by
  induction cs generalizing content with
  | nil => simp
  | cons c cs ih =>
    rw [List.flatMap_cons, Reader.run_append, run_coded (Text.coded_quoteChar c), ih,
      List.append_assoc]

theorem reads_quote (s : String) : Reads (quote s) [.quoted (quotedChars s)] := by
  intro items outer rest _
  rw [Text.toList_quote, List.cons_append, Reader.run_cons, Reader.next_quote, List.append_assoc,
    Reader.run_append, quotedChars, run_quotedChars]
  rfl

/-! ### Groups -/

theorem reads_group {t : String} {ds : List Datum} (h : Reads t ds) :
    Reads ("(" ++ t ++ ")") [.group ds] := by
  intro items outer rest _
  have hchars : ("(" ++ t ++ ")").toList ++ rest = '(' :: (t.toList ++ ')' :: rest) := by simp
  rw [hchars, Reader.run_cons, Reader.next_open, h [] _ _ (bounded_close rest), Reader.run_cons,
    List.nil_append, Reader.next_close]

theorem reads_empty : Reads "" [] := by
  intro items outer rest _
  simp

/-- What stands between two data: a blank or the end of a line. -/
def Separates (sep : String) : Prop := sep = " " ∨ sep = "\n"

theorem Reads.append {t u sep : String} {ds es : List Datum} (ht : Reads t ds)
    (hsep : Separates sep) (hu : Reads u es) : Reads (t ++ sep ++ u) (ds ++ es) := by
  intro items outer rest hrest
  rw [String.toList_append, String.toList_append, List.append_assoc, List.append_assoc]
  rcases hsep with rfl | rfl
  · have hblank : " ".toList ++ (u.toList ++ rest) = ' ' :: (u.toList ++ rest) := rfl
    rw [hblank, ht _ _ _ (bounded_blank _), Reader.run_cons, Reader.next_blank, hu _ _ _ hrest,
      List.append_assoc]
  · have hline : "\n".toList ++ (u.toList ++ rest) = '\n' :: (u.toList ++ rest) := rfl
    rw [hline, ht _ _ _ (bounded_line _), Reader.run_cons, Reader.next_line, hu _ _ _ hrest,
      List.append_assoc]

/-- Every text stands for one datum. -/
abbrev ReadsEach (ts : List String) (ds : List Datum) : Prop :=
  List.Forall₂ (fun t d => Reads t [d]) ts ds

theorem reads_intercalate {sep : String} (hsep : Separates sep) {ts : List String}
    {ds : List Datum} (h : ReadsEach ts ds) : Reads (sep.intercalate ts) ds := by
  induction h with
  | nil => exact reads_empty
  | @cons t d ts ds hd hds ih =>
    cases hds with
    | nil => exact hd
    | cons _ _ =>
      rw [String.intercalate_cons_cons]
      exact hd.append hsep ih

theorem reads_parenthesized {ts : List String} {ds : List Datum} (h : ReadsEach ts ds) :
    Reads (parenthesized ts) [.group ds] :=
  reads_group (reads_intercalate (.inl rfl) h)

/-! ### Indented lines -/

/-- The characters of a text, with two blanks at the start of every further line. -/
def indented (cs : List Char) : List Char :=
  cs.flatMap fun c => if c = '\n' then ['\n', ' ', ' '] else [c]

theorem toList_foldl_indent (cs : List Char) (t : String) :
    (cs.foldl (fun text c => if c = '\n' then text ++ "\n  " else text.push c) t).toList =
      t.toList ++ indented cs := by
  induction cs generalizing t with
  | nil => simp [indented]
  | cons c cs ih =>
    have hcons : indented (c :: cs) = (if c = '\n' then ['\n', ' ', ' '] else [c]) ++ indented cs :=
      List.flatMap_cons
    rw [List.foldl_cons, ih, hcons]
    by_cases hc : c = '\n'
    · simp [hc]
    · simp [hc]

theorem toList_indent {s : String} (h : s ≠ "") :
    (indent s).toList = ' ' :: ' ' :: indented s.toList := by
  rw [indent, if_neg h, String.foldl_eq_foldl_toList, toList_foldl_indent]
  rfl

/-- A reader does not see the blanks at the start of a line. -/
theorem run_indented (r : Reader) (cs : List Char) : r.run (indented cs) = r.run cs := by
  induction cs generalizing r with
  | nil => rfl
  | cons c cs ih =>
    rw [indented, List.flatMap_cons, Reader.run_append, Reader.run_cons]
    by_cases hc : c = '\n'
    · have hline : ∃ items outer, r.next c = Reader.between items outer := by
        rw [Reader.next, if_pos hc, Reader.nextLine]
        split
        · exact ⟨_, _, rfl⟩
        · exact ⟨_, _, rfl⟩
        · exact ⟨_, _, rfl⟩
      obtain ⟨items, outer, hnext⟩ := hline
      have hblanks : r.run ['\n', ' ', ' '] = r.next c := by
        rw [← hc, Reader.run_cons, hnext]
        simp
      rw [if_pos hc, hblanks]
      exact ih _
    · rw [if_neg hc]
      exact ih _

theorem reads_indent {t : String} {ds : List Datum} (h : Reads t ds) : Reads (indent t) ds := by
  intro items outer rest hrest
  by_cases ht : t = ""
  · have := h items outer rest hrest
    rw [ht] at this ⊢
    exact this
  · rw [toList_indent ht, Reader.run_append, Reader.run_cons, Reader.next_blank, Reader.run_cons,
      Reader.next_blank, run_indented, ← Reader.run_append]
    exact h items outer rest hrest

/-- Lines behind a first word, each of which stands for one datum. -/
theorem reads_headed {head : String} (hhead : fitsWord head = true) {ts : List String}
    {ds : List Datum} (h : ReadsEach ts ds) :
    Reads ("(" ++ head ++ "\n" ++ indent ("\n".intercalate ts) ++ ")")
      [.group (.word head :: ds)] := by
  have hlines := reads_indent (reads_intercalate (.inr rfl) h)
  have hread := reads_group ((reads_word hhead).append (.inr rfl) hlines)
  simpa only [String.append_assoc, List.singleton_append] using hread

theorem reads_blockText {ts : List String} {ds : List Datum} (h : ReadsEach ts ds) :
    Reads (blockText ts) [.group (.word "block" :: ds)] := by
  have hword : fitsWord "block" = true := by decide
  cases h with
  | nil =>
    have htext : blockText [] = "(" ++ "block" ++ ")" := by decide
    rw [htext]
    exact reads_group (reads_word hword)
  | cons hd hds =>
    have hhead : "(block\n" = "(" ++ "block" ++ "\n" := by decide
    rw [blockText, if_neg (by simp), hhead]
    exact reads_headed hword (.cons hd hds)

end BlockScript
