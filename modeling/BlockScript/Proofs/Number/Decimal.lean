import BlockScript.Number.Decimal
import BlockScript.Text.Letter

/-!
# What decimal text stands for

The digits of a number stand for that number, and the text of an integer for that integer.

* `valueOf_digitsOf`: reading undoes writing, for numbers without a sign.
* `isNumeral_integerText`: what the text of an integer is made of.
* **`integerText_injective`**: two integers of the same text are equal.
-/

namespace BlockScript.Number

open Text (isAsciiDigit)

/-! ## Digits -/

theorem digit_of_lt {n : Nat} (h : n < 10) :
    isAsciiDigit (digit n) = true ∧ digitValue (digit n) = n := by
  have hall : ∀ n < 10, isAsciiDigit (digit n) = true ∧ digitValue (digit n) = n := by decide
  exact hall n h

theorem valueOf_append_singleton (cs : List Char) (c : Char) :
    valueOf (cs ++ [c]) = valueOf cs * 10 + digitValue c := by
  rw [valueOf, List.foldl_append]
  rfl

theorem valueOf_digitsOf (n : Nat) : valueOf (digitsOf n) = n := by
  induction n using Nat.strongRecOn with
  | ind n ih =>
    rw [digitsOf]
    by_cases h : n < 10
    · rw [if_pos h]
      simp [valueOf, (digit_of_lt h).2]
    · have hmod : n % 10 < 10 := Nat.mod_lt n (by decide)
      rw [if_neg h, valueOf_append_singleton, ih (n / 10) (by omega), (digit_of_lt hmod).2]
      omega

theorem isAsciiDigit_digitsOf (n : Nat) : ∀ c ∈ digitsOf n, isAsciiDigit c = true := by
  induction n using Nat.strongRecOn with
  | ind n ih =>
    intro c hc
    rw [digitsOf] at hc
    by_cases h : n < 10
    · rw [if_pos h, List.mem_singleton] at hc
      rw [hc]
      exact (digit_of_lt h).1
    · rw [if_neg h, List.mem_append, List.mem_singleton] at hc
      rcases hc with hc | rfl
      · exact ih (n / 10) (by omega) c hc
      · exact (digit_of_lt (Nat.mod_lt n (by decide))).1

theorem digitsOf_ne_nil (n : Nat) : digitsOf n ≠ [] := by
  rw [digitsOf]
  by_cases h : n < 10
  · rw [if_pos h]
    exact List.cons_ne_nil _ _
  · rw [if_neg h]
    simp

/-! ## Integers -/

/-- A digit or a minus sign. -/
def isNumeral (c : Char) : Bool :=
  isAsciiDigit c || c == '-'

theorem isNumeral_integerText (n : Int) : ∀ c ∈ (integerText n).toList, isNumeral c = true := by
  have hdigits : ∀ c ∈ digitsOf n.natAbs, isNumeral c = true := fun c hc => by
    rw [isNumeral, isAsciiDigit_digitsOf _ c hc, Bool.true_or]
  intro c hc
  rw [integerText, String.toList_ofList] at hc
  by_cases h : n < 0
  · rw [if_pos h] at hc
    rcases List.mem_cons.mp hc with rfl | hc
    · decide
    · exact hdigits c hc
  · rw [if_neg h] at hc
    exact hdigits c hc

theorem integerText_ne_nil (n : Int) : (integerText n).toList ≠ [] := by
  rw [integerText, String.toList_ofList]
  by_cases h : n < 0
  · rw [if_pos h]
    exact List.cons_ne_nil _ _
  · rw [if_neg h]
    exact digitsOf_ne_nil _

theorem minus_not_mem_digitsOf (n : Nat) : '-' ∉ digitsOf n := fun h =>
  absurd (isAsciiDigit_digitsOf n _ h) (by decide)

theorem natAbs_eq_of_digitsOf {n m : Int} (h : digitsOf n.natAbs = digitsOf m.natAbs) :
    n.natAbs = m.natAbs := by
  rw [← valueOf_digitsOf n.natAbs, h, valueOf_digitsOf]

/-- **Integers of the same text are equal.** -/
theorem integerText_injective {n m : Int} (h : integerText n = integerText m) : n = m := by
  have hlist := String.ofList_injective h
  by_cases hn : n < 0
  · by_cases hm : m < 0
    · rw [if_pos hn, if_pos hm] at hlist
      have := natAbs_eq_of_digitsOf (List.cons.inj hlist).2
      omega
    · -- Only the text of a negative integer has a minus sign.
      rw [if_pos hn, if_neg hm] at hlist
      exact absurd (hlist ▸ List.mem_cons_self) (minus_not_mem_digitsOf m.natAbs)
  · by_cases hm : m < 0
    · rw [if_neg hn, if_pos hm] at hlist
      exact absurd (hlist ▸ List.mem_cons_self) (minus_not_mem_digitsOf n.natAbs)
    · rw [if_neg hn, if_neg hm] at hlist
      have := natAbs_eq_of_digitsOf hlist
      omega

end BlockScript.Number
