import BlockScript.Number.Read
import BlockScript.Text.Quoted

/-!
# What quoted text stands for

Whatever follows, the way a character is written inside quotes tells which one it is. It is written
as itself, with a letter behind a backslash, or with a letter that says how many hexadecimal digits
follow and the digits of its code point.

* `hexValueOf_hexadecimal`: hexadecimal digits stand for the number that they were made of.
* `Coded`: the three ways to write a character.
* `Coded.append_inj`: none of them is the start of another.
* **`quotedChars_injective`**: two texts that look alike between their quotes are equal.
-/

namespace BlockScript.Text

open Number (hexDigitValue hexValueOf)

/-! ## Hexadecimal numbers -/

theorem hexDigitValue_digitChar {n : Nat} (h : n < 16) : hexDigitValue n.digitChar = n := by
  have hall : ∀ n < 16, hexDigitValue n.digitChar = n := by decide
  exact hall n h

theorem hexValueOf_append_singleton (cs : List Char) (c : Char) :
    hexValueOf (cs ++ [c]) = hexValueOf cs * 16 + hexDigitValue c := by
  rw [hexValueOf, List.foldl_append]
  rfl

theorem hexValueOf_toDigits (n : Nat) : hexValueOf (Nat.toDigits 16 n) = n := by
  induction n using Nat.strongRecOn with
  | ind n ih =>
    rw [Nat.toDigits_eq_if (by decide)]
    by_cases h : n < 16
    · rw [if_pos h]
      simp [hexValueOf, hexDigitValue_digitChar h]
    · have hmod : n % 16 < 16 := Nat.mod_lt n (by decide)
      rw [if_neg h, hexValueOf_append_singleton, ih (n / 16) (by omega),
        hexDigitValue_digitChar hmod]
      omega

/-- Zeros in front do not count. -/
theorem hexValueOf_replicate_append (k : Nat) (cs : List Char) :
    hexValueOf (List.replicate k '0' ++ cs) = hexValueOf cs := by
  induction k with
  | zero => rfl
  | succ k ih =>
    have hzero : 0 * 16 + hexDigitValue '0' = 0 := by decide
    rw [List.replicate_succ, List.cons_append, hexValueOf, List.foldl_cons, hzero]
    exact ih

theorem hexValueOf_hexadecimal (width n : Nat) :
    hexValueOf (hexadecimal width n).toList = n := by
  rw [hexadecimal, String.toList_ofList, hexValueOf_replicate_append, hexValueOf_toDigits]

theorem length_hexadecimal {width n : Nat} (hwidth : 0 < width) (h : n < Nat.pow 16 width) :
    (hexadecimal width n).toList.length = width := by
  have hle := (Nat.length_toDigits_le_iff (b := 16) (by decide) hwidth).mpr h
  rw [hexadecimal, String.toList_ofList, List.length_append, List.length_replicate]
  omega

theorem mem_toDigits {n : Nat} {d : Char} (h : d ∈ Nat.toDigits 16 n) :
    ∃ k < 16, d = k.digitChar := by
  induction n using Nat.strongRecOn with
  | ind n ih =>
    rw [Nat.toDigits_eq_if (by decide)] at h
    by_cases hn : n < 16
    · rw [if_pos hn, List.mem_singleton] at h
      exact ⟨n, hn, h⟩
    · rw [if_neg hn, List.mem_append, List.mem_singleton] at h
      rcases h with h | h
      · exact ih (n / 16) (by omega) h
      · exact ⟨n % 16, Nat.mod_lt n (by decide), h⟩

/-! ## Single characters -/

/-- A character that neither ends a text in quotes nor starts an escape, and is on one line. -/
def isOpen (c : Char) : Bool :=
  c ≠ '"' && c ≠ '\\' && c ≠ '\n'

theorem isOpen_hexadecimal {width n : Nat} {d : Char} (h : d ∈ (hexadecimal width n).toList) :
    isOpen d = true := by
  rw [hexadecimal, String.toList_ofList, List.mem_append] at h
  rcases h with h | h
  · rw [List.eq_of_mem_replicate h]
    decide
  · obtain ⟨k, hk, rfl⟩ := mem_toDigits h
    have hall : ∀ k < 16, isOpen k.digitChar = true := by decide
    exact hall k hk

/-- The characters that are written with a letter of their own, and that letter. -/
def letters : List (Char × Char) :=
  [('"', '"'), ('\\', '\\'), ('\x07', 'a'), ('\x08', 'b'), ('\x0c', 'f'), ('\n', 'n'),
    ('\r', 'r'), ('\t', 't'), ('\x0b', 'v')]

/-- The letters that stand in front of hexadecimal digits, and the number of digits. -/
def widths : List (Char × Nat) :=
  [('x', 2), ('u', 4), ('U', 8)]

/-- The ways to write a character. -/
inductive Coded (c : Char) : List Char → Prop
  | itself : isOpen c = true → Coded c [c]
  | letter {l : Char} : (c, l) ∈ letters → Coded c ['\\', l]
  | number {l : Char} {width : Nat} {digits : List Char} : (l, width) ∈ widths →
      digits.length = width → (∀ d ∈ digits, isOpen d = true) →
      hexValueOf digits = c.toNat → Coded c ('\\' :: l :: digits)

theorem Coded.hexadecimal {c l : Char} {width : Nat} (hl : (l, width) ∈ widths)
    (hwidth : 0 < width) (hc : c.toNat < Nat.pow 16 width) :
    Coded c ('\\' :: l :: (hexadecimal width c.toNat).toList) :=
  .number hl (length_hexadecimal hwidth hc) (fun _ hd => isOpen_hexadecimal hd)
    (hexValueOf_hexadecimal width c.toNat)

theorem coded_escapeCode (c : Char) : Coded c (escapeCode c).toList := by
  unfold escapeCode
  by_cases hascii : c.toNat < 128
  · rw [if_pos hascii, String.toList_append]
    exact .hexadecimal (by decide) (by decide) (Nat.lt_trans hascii (by decide))
  · rw [if_neg hascii]
    by_cases hplane : c.toNat < 0x10000
    · rw [if_pos hplane, String.toList_append]
      exact .hexadecimal (by decide) (by decide) hplane
    · rw [if_neg hplane, String.toList_append]
      have hlt : c.toNat < 0x110000 := by
        have := c.valid
        simp only [UInt32.isValidChar, Nat.isValidChar, Char.toNat] at this ⊢
        omega
      exact .hexadecimal (by decide) (by decide) (Nat.lt_trans hlt (by decide))

theorem coded_quoteChar (c : Char) : Coded c (quoteChar c).toList := by
  unfold quoteChar
  split
  case h_10 hquote hslash _ _ _ hline _ _ _ =>
    by_cases h : isPrintable c = true
    · rw [if_pos h]
      rw [Char.toString, String.toList_singleton]
      refine .itself ?_
      simp only [isOpen, Bool.and_eq_true, decide_eq_true_eq]
      exact ⟨⟨hquote, hslash⟩, hline⟩
    · rw [if_neg h]
      exact coded_escapeCode c
  all_goals exact .letter (by decide)

theorem letter_of_mem_letters {c d l : Char} (h : (c, l) ∈ letters) (h' : (d, l) ∈ letters) :
    c = d := by
  have hall : ∀ a ∈ letters, ∀ b ∈ letters, a.2 = b.2 → a.1 = b.1 := by decide
  exact hall _ h _ h' rfl

theorem not_mem_widths {c l : Char} {width : Nat} (h : (c, l) ∈ letters) :
    (l, width) ∉ widths := by
  have hall : ∀ a ∈ letters, ∀ b ∈ widths, a.2 ≠ b.1 := by decide
  exact fun h' => hall _ h _ h' rfl

theorem width_of_mem_widths {l : Char} {width width' : Nat} (h : (l, width) ∈ widths)
    (h' : (l, width') ∈ widths) : width = width' := by
  have hall : ∀ a ∈ widths, ∀ b ∈ widths, a.1 = b.1 → a.2 = b.2 := by decide
  exact hall _ h _ h' rfl

theorem isOpen_ne {c : Char} (h : isOpen c = true) : c ≠ '"' ∧ c ≠ '\\' ∧ c ≠ '\n' := by
  simpa [isOpen, and_assoc] using h

/-- **No way to write a character is the start of another.** -/
theorem Coded.append_inj {c d : Char} {cs ds xs ys : List Char} (h : Coded c cs)
    (h' : Coded d ds) (heq : cs ++ xs = ds ++ ys) : c = d ∧ xs = ys := by
  cases h with
  | itself hc =>
    have hslash := (isOpen_ne hc).2.1
    cases h' with
    | itself _ => exact List.cons.inj heq
    | letter _ | number _ _ _ _ => exact absurd (List.cons.inj heq).1 hslash
  | letter hl =>
    cases h' with
    | itself hd => exact absurd (List.cons.inj heq).1.symm (isOpen_ne hd).2.1
    | letter hl' =>
      obtain ⟨rfl, rfl⟩ := List.cons.inj (List.cons.inj heq).2
      exact ⟨letter_of_mem_letters hl hl', rfl⟩
    | number hw _ _ _ =>
      obtain ⟨rfl, -⟩ := List.cons.inj (List.cons.inj heq).2
      exact absurd hw (not_mem_widths hl)
  | number hw hlength _ hvalue =>
    cases h' with
    | itself hd => exact absurd (List.cons.inj heq).1.symm (isOpen_ne hd).2.1
    | letter hl =>
      obtain ⟨rfl, -⟩ := List.cons.inj (List.cons.inj heq).2
      exact absurd hw (not_mem_widths hl)
    | number hw' hlength' _ hvalue' =>
      obtain ⟨rfl, hrest⟩ := List.cons.inj (List.cons.inj heq).2
      have hwidth := width_of_mem_widths hw hw'
      obtain ⟨rfl, rfl⟩ := List.append_inj hrest (by rw [hlength, hlength', hwidth])
      exact ⟨Char.toNat_inj.mp (hvalue.symm.trans hvalue'), rfl⟩

theorem Coded.ne_nil {c : Char} {cs : List Char} (h : Coded c cs) : cs ≠ [] := by
  cases h <;> exact List.cons_ne_nil _ _

/-! ## Whole texts -/

/-- What stands between the quotes of a text. -/
def quotedChars (s : String) : List Char :=
  s.toList.flatMap fun c => (quoteChar c).toList

theorem toList_quote (s : String) : (quote s).toList = '"' :: (quotedChars s ++ ['"']) := by
  simp [quote, quotedChars, String.toList_join, List.flatMap_map]

theorem flatMap_quoteChar_inj (cs ds : List Char)
    (h : cs.flatMap (fun c => (quoteChar c).toList) = ds.flatMap fun c => (quoteChar c).toList) :
    cs = ds := by
  induction cs generalizing ds with
  | nil =>
    cases ds with
    | nil => rfl
    | cons d ds =>
      rw [List.flatMap_nil, List.flatMap_cons] at h
      exact absurd (List.append_eq_nil_iff.mp h.symm).1 (coded_quoteChar d).ne_nil
  | cons c cs ih =>
    cases ds with
    | nil =>
      rw [List.flatMap_nil, List.flatMap_cons] at h
      exact absurd (List.append_eq_nil_iff.mp h).1 (coded_quoteChar c).ne_nil
    | cons d ds =>
      rw [List.flatMap_cons, List.flatMap_cons] at h
      obtain ⟨rfl, hrest⟩ := (coded_quoteChar c).append_inj (coded_quoteChar d) h
      rw [ih ds hrest]

/-- **Texts that are quoted alike are equal.** -/
theorem quotedChars_injective {s t : String} (h : quotedChars s = quotedChars t) : s = t :=
  String.toList_inj.mp (flatMap_quoteChar_inj _ _ h)

end BlockScript.Text
