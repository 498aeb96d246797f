import BlockScript.Diagnostic

/-!
# Lines of a text

A text has one line more than line breaks. The line on which a place lies is given by the line
breaks before it, and a piece of text without line breaks lies on one line.

* `length_splitLines`: how many lines there are.
* `exists_line_of_append`: the line that a piece of the text lies on.
* `infix_trimBreak`: the piece is still there when the line break is taken off.
* `SourceFile.HasLine`: the lines that a file has.
-/

namespace BlockScript

/-! ## Splitting -/

theorem splitLines_newline (cs : List Char) :
    splitLines ('\n' :: cs) = ['\n'] :: splitLines cs := by
  rw [splitLines, if_pos rfl]

theorem splitLines_ne_nil (cs : List Char) : splitLines cs ≠ [] := by
  cases cs with
  | nil => simp [splitLines]
  | cons c cs =>
    rw [splitLines]
    split
    · simp
    · split <;> simp

/-- A character that breaks no line is put in front of the first line. -/
theorem splitLines_cons {c : Char} (hc : c ≠ '\n') (cs : List Char) :
    ∃ line lines, splitLines cs = line :: lines ∧ splitLines (c :: cs) = (c :: line) :: lines := by
  obtain ⟨line, lines, h⟩ := List.exists_cons_of_ne_nil (splitLines_ne_nil cs)
  refine ⟨line, lines, h, ?_⟩
  rw [splitLines, if_neg hc, h]

/-- **There is one line more than line breaks.** -/
theorem length_splitLines (cs : List Char) : (splitLines cs).length = cs.count '\n' + 1 := by
  induction cs with
  | nil => rfl
  | cons c cs ih =>
    by_cases hc : c = '\n'
    · rw [hc, splitLines_newline, List.length_cons, ih, List.count_cons_self]
    · obtain ⟨line, lines, hcs, hccs⟩ := splitLines_cons hc cs
      rw [hcs, List.length_cons] at ih
      rw [hccs, List.length_cons, ih, List.count_cons_of_ne hc]

/-- The first line starts as the text does, up to a line break. -/
theorem exists_first_line {piece : List Char} (h : '\n' ∉ piece) (post : List Char) :
    ∃ line lines, splitLines (piece ++ post) = line :: lines ∧ piece <+: line := by
  induction piece with
  | nil =>
    obtain ⟨line, lines, hpost⟩ := List.exists_cons_of_ne_nil (splitLines_ne_nil post)
    exact ⟨line, lines, hpost, List.nil_prefix⟩
  | cons c piece ih =>
    rw [List.mem_cons, not_or] at h
    obtain ⟨line, lines, hrest, hprefix⟩ := ih h.2
    obtain ⟨line', lines', hrest', hall⟩ := splitLines_cons (Ne.symm h.1) (piece ++ post)
    rw [hrest] at hrest'
    cases hrest'
    exact ⟨c :: line, lines, hall, List.cons_prefix_cons.mpr ⟨rfl, hprefix⟩⟩

/-- **A piece of text without line breaks lies on one line**, the one that the line breaks before it
lead to. -/
theorem exists_line_of_append {piece : List Char} (h : '\n' ∉ piece) (pre post : List Char) :
    ∃ line, (splitLines (pre ++ (piece ++ post)))[pre.count '\n']? = some line ∧
      piece <:+: line := by
  induction pre with
  | nil =>
    obtain ⟨line, lines, hsplit, hprefix⟩ := exists_first_line h post
    refine ⟨line, ?_, hprefix.isInfix⟩
    rw [List.nil_append, hsplit]
    rfl
  | cons c pre ih =>
    obtain ⟨line, hline, hpiece⟩ := ih
    by_cases hc : c = '\n'
    · refine ⟨line, ?_, hpiece⟩
      rw [hc, List.cons_append, splitLines_newline, List.count_cons_self, List.getElem?_cons_succ]
      exact hline
    · obtain ⟨first, rest, hrest, hall⟩ := splitLines_cons hc (pre ++ (piece ++ post))
      rw [List.cons_append, hall, List.count_cons_of_ne hc]
      rw [hrest] at hline
      -- the piece may lie on the first line, which has grown by a character
      cases hcount : pre.count '\n' with
      | zero =>
        rw [hcount] at hline
        cases hline
        exact ⟨c :: line, rfl, hpiece.trans (List.suffix_cons c line).isInfix⟩
      | succ n =>
        rw [hcount] at hline
        exact ⟨line, hline, hpiece⟩

/-! ## Line breaks at the end -/

theorem dropWhile_append_cons {α : Type} {p : α → Bool} {x : α} (hx : p x = false)
    (xs ys : List α) : (xs ++ x :: ys).dropWhile p = xs.dropWhile p ++ x :: ys := by
  induction xs with
  | nil => simp [hx]
  | cons y xs ih =>
    by_cases hy : p y = true
    · rw [List.cons_append, List.dropWhile_cons_of_pos hy, ih, List.dropWhile_cons_of_pos hy]
    · rw [List.cons_append, List.dropWhile_cons_of_neg hy, List.dropWhile_cons_of_neg hy,
        List.cons_append]

/-- A piece without any part of a line break is not lost with the line break. -/
theorem infix_trimBreak {piece line : List Char} (h : ∀ c ∈ piece, c ≠ '\n' ∧ c ≠ '\r')
    (hline : piece <:+: line) : piece <:+: (trimBreak (String.ofList line)).toList := by
  unfold trimBreak
  rw [String.toList_ofList, String.toList_ofList]
  obtain ⟨pre, post, rfl⟩ := hline
  rcases List.eq_nil_or_concat piece with rfl | ⟨init, c, rfl⟩
  · exact List.nil_infix
  · have hc := h c (by simp)
    have hdrop := dropWhile_append_cons (p := fun c => decide (c = '\r') || decide (c = '\n'))
      (x := c) (by simp [hc]) post.reverse (init.reverse ++ pre.reverse)
    have hreverse : (pre ++ init.concat c ++ post).reverse =
        post.reverse ++ c :: (init.reverse ++ pre.reverse) := by simp
    rw [hreverse, hdrop]
    refine ⟨pre, (post.reverse.dropWhile fun c => decide (c = '\r') || decide (c = '\n')).reverse,
      ?_⟩
    simp

/-! ## Numbers of lines -/

namespace SourceFile

/-- The line has a number in this file: the first is one, and the last is the number of lines. -/
def HasLine (f : SourceFile) (n : Int) : Prop := 1 ≤ n ∧ n ≤ f.lines.length

theorem length_lines (f : SourceFile) : f.lines.length = f.contents.toList.count '\n' + 1 := by
  unfold lines
  rw [List.length_map, length_splitLines]

theorem line?_succ (f : SourceFile) (k : Nat) :
    f.line? (1 + k) = (splitLines f.contents.toList)[k]?.map String.ofList := by
  have hk : (1 + (k : Int) - 1).toNat = k := by omega
  unfold line? lines
  rw [if_pos (by omega), hk, List.getElem?_map]

theorem HasLine.exists_line {f : SourceFile} {n : Int} (h : f.HasLine n) :
    ∃ line, f.line? n = some line := by
  obtain ⟨hpos, hle⟩ := h
  have hlt : (n - 1).toNat < f.lines.length := by omega
  refine ⟨f.lines[(n - 1).toNat], ?_⟩
  unfold line?
  rw [if_pos hpos, List.getElem?_eq_getElem hlt]

end SourceFile

end BlockScript
