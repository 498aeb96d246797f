import BlockScript.Proofs.Number.Decimal
import BlockScript.Proofs.Token.Spelling
import BlockScript.Value.Operator
import Mathlib.Data.List.Induction
import Mathlib.Data.Nat.Digits.Defs

/-!
# Integers of 64 bits as text

An integer is written as text by concatenation, read from a text by arithmetic, and scanned from the
digits in a source text. All three agree up to both ends of the range, and digits that stand for
more than the largest integer are an error as a whole.

* `decimalValue`, `valueOf_eq_decimalValue`: digits by their places, and as they are read.
* `toInt64?_toInt`, `toInt64?_eq_none`: which integers fit.
* `readInt?_integerText`, `trim_integerText`: the text of an integer is read back, and there is
  nothing to trim.
* `Token.scan_digits`: digits by themselves are one token.
* **`integer_through_text`**: all of this together.
-/

namespace BlockScript

open Text (isAsciiDigit isBlank trim)
open Token (Digits)

namespace Number

/-! ## Digits by their places -/

/-- The number that digits stand for in base ten, the last one being that of the ones. -/
def decimalValue (cs : List Char) : Nat :=
  Nat.ofDigits 10 (cs.map digitValue).reverse

theorem valueOf_eq_decimalValue (cs : List Char) : valueOf cs = decimalValue cs := by
  induction cs using List.reverseRecOn with
  | nil => rfl
  | append_singleton cs c ih =>
    have hlast : decimalValue (cs ++ [c]) = digitValue c + 10 * decimalValue cs := by
      rw [decimalValue, List.map_append, List.reverse_append]
      rfl
    rw [valueOf_append_singleton, ih, hlast]
    omega

/-! ## The range -/

theorem fitsInt64_iff {n : Int} :
    fitsInt64 n = true ↔ Int64.minValue.toInt ≤ n ∧ n ≤ Int64.maxValue.toInt := by
  have hmin : Int64.minValue.toInt = -9223372036854775808 := by decide
  have hmax : Int64.maxValue.toInt = 9223372036854775807 := by decide
  have hpow : Nat.pow 2 63 = 9223372036854775808 := by decide
  rw [hmin, hmax]
  cases n with
  | ofNat n =>
    rw [fitsInt64, hpow, decide_eq_true_eq, Int.ofNat_eq_natCast]
    omega
  | negSucc n =>
    rw [fitsInt64, hpow, decide_eq_true_eq]
    omega

/-- Every integer of 64 bits fits, those at the ends of the range as well. -/
theorem toInt64?_toInt (n : Int64) : toInt64? n.toInt = some n := by
  have hfits : fitsInt64 n.toInt = true :=
    fitsInt64_iff.mpr ⟨Int64.minValue_le_toInt n, Int64.toInt_le n⟩
  rw [toInt64?, if_pos hfits, Int64.ofInt_toInt]

theorem toInt64?_eq_none {n : Int} (h : Int64.maxValue.toInt < n) : toInt64? n = none := by
  refine if_neg fun hfits => ?_
  have := (fitsInt64_iff.mp hfits).2
  omega

/-- A number up to the largest integer is one. -/
theorem exists_toInt64? {n : Nat} (h : (n : Int) ≤ Int64.maxValue.toInt) :
    ∃ m : Int64, m.toInt = n ∧ toInt64? n = some m := by
  have hmax : Int64.maxValue.toInt = 9223372036854775807 := by decide
  have htoInt : (Int64.ofInt n).toInt = n := Int64.toInt_ofInt_of_le (by omega) (by omega)
  refine ⟨Int64.ofInt n, htoInt, ?_⟩
  have := toInt64?_toInt (Int64.ofInt n)
  rwa [htoInt] at this

/-! ## Reading -/

theorem splitSign_of_digits {cs : List Char} (h : ∀ c ∈ cs, isAsciiDigit c = true) :
    splitSign cs = (false, cs) := by
  cases cs with
  | nil => rfl
  | cons c cs =>
    have hc := h c List.mem_cons_self
    have hplus : c ≠ '+' := by
      rintro rfl
      exact absurd hc (by decide)
    have hminus : c ≠ '-' := by
      rintro rfl
      exact absurd hc (by decide)
    simp [splitSign, hplus, hminus]

/-- **Reading an integer undoes writing it.** -/
theorem readInt?_integerText (n : Int64) : readInt? (integerText n.toInt).toList = some n := by
  have hdigits := isAsciiDigit_digitsOf n.toInt.natAbs
  have hcond : digitsOf n.toInt.natAbs ≠ [] ∧ (digitsOf n.toInt.natAbs).all isAsciiDigit = true :=
    ⟨digitsOf_ne_nil _, List.all_eq_true.mpr hdigits⟩
  rw [integerText, String.toList_ofList]
  by_cases hneg : n.toInt < 0
  · have hvalue : -(n.toInt.natAbs : Int) = n.toInt := by omega
    rw [if_pos hneg, readInt?]
    simp only [splitSign]
    rw [if_pos hcond, if_pos trivial, valueOf_digitsOf, hvalue, toInt64?_toInt]
  · have hvalue : (n.toInt.natAbs : Int) = n.toInt := by omega
    rw [if_neg hneg, readInt?, splitSign_of_digits hdigits]
    dsimp only
    rw [if_pos hcond, if_neg Bool.false_ne_true, valueOf_digitsOf, hvalue, toInt64?_toInt]

theorem isBlank_of_isNumeral {c : Char} (h : isNumeral c = true) : isBlank c = false := by
  rw [isNumeral, Bool.or_eq_true, beq_iff_eq] at h
  rcases h with hdigit | rfl
  · exact (Token.isAsciiDigit_ne hdigit).1
  · decide

theorem dropWhile_of_forall {p : Char → Bool} {cs : List Char} (h : ∀ c ∈ cs, p c = false) :
    cs.dropWhile p = cs := by
  cases cs with
  | nil => rfl
  | cons c cs => rw [List.dropWhile_cons, h c List.mem_cons_self, if_neg Bool.false_ne_true]

theorem trim_integerText (n : Int) : trim (integerText n).toList = (integerText n).toList := by
  have hblank : ∀ c ∈ (integerText n).toList, isBlank c = false := fun c hc =>
    isBlank_of_isNumeral (isNumeral_integerText n c hc)
  have hreverse : ∀ c ∈ (integerText n).toList.reverse, isBlank c = false := fun c hc =>
    hblank c (List.mem_reverse.mp hc)
  rw [trim, dropWhile_of_forall hblank, dropWhile_of_forall hreverse, List.reverse_reverse]

end Number

/-! ## Scanning -/

/-- Digits by themselves are one token, whatever they stand for. -/
theorem Token.scan_digits {cs : List Char} (h : Digits cs) :
    scan cs = [ofDigits cs 1, endOfInput 1] := by
  have hnul : ∀ c ∈ cs, decide (c ≠ '\x00') = true := by
    intro c hc
    refine decide_eq_true ?_
    rintro rfl
    exact absurd (h.2 _ hc) (by decide)
  have hscanned : scanned cs = cs := by
    rw [scanned, ← List.append_nil cs, List.takeWhile_append_of_pos hnul, List.takeWhile_nil]
  have hend : Separated [] := by
    rintro c ⟨⟩
  have hscan := scanFrom_integer 1 h hend
  rw [List.append_nil] at hscan
  rw [scan, hscanned, hscan, scanFrom]

theorem Token.ofDigits_of_some {cs : List Char} {n : Int64} {line : Int}
    (h : Number.toInt64? (Number.valueOf cs) = some n) :
    ofDigits cs line = ⟨.number, String.ofList cs, some (.integer n), line⟩ := by
  rw [ofDigits, h]

theorem Token.ofDigits_of_none {cs : List Char} {line : Int}
    (h : Number.toInt64? (Number.valueOf cs) = none) :
    ofDigits cs line = ⟨.error, String.ofList cs, none, line⟩ := by
  rw [ofDigits, h]
  rfl

namespace Value

/-! ## Through text and back -/

theorem toInteger_toText (n : Int64) : (Value.text (Value.integer n).toText).toInteger = n := by
  rw [toText, toInteger, Number.trim_integerText, Number.readInt?_integerText]

theorem scan_toText {n : Int64} (h : 0 ≤ n) : Token.scan (Value.integer n).toText.toList =
    [⟨.number, (Value.integer n).toText, some (.integer n), 1⟩, .endOfInput 1] := by
  have hle : 0 ≤ n.toInt := Int64.le_iff_toInt_le.mp h
  have htext : (Value.integer n).toText = String.ofList (Number.digitsOf n.toInt.natAbs) := by
    rw [toText, Number.integerText, if_neg (by omega)]
  have hdigits : Digits (Number.digitsOf n.toInt.natAbs) :=
    ⟨Number.digitsOf_ne_nil _, Number.isAsciiDigit_digitsOf _⟩
  have hvalue : Number.toInt64? (Number.valueOf (Number.digitsOf n.toInt.natAbs)) = some n := by
    rw [Number.valueOf_digitsOf, Int.natAbs_of_nonneg hle, Number.toInt64?_toInt]
  rw [htext, String.toList_ofList, Token.scan_digits hdigits, Token.ofDigits_of_some hvalue]

/-- **Integers go through text unchanged, up to both ends of the range.** The text of an integer is
read as that integer, so that adding it to the empty text and multiplying by one gives it back; that
of an integer that is not negative is scanned as one number. Digits in any number, leading zeros
included, are scanned as the number that they stand for if there is such an integer, and otherwise
as one error that holds them all. -/
theorem integer_through_text (n : Int64) :
    (Value.text (Value.integer n).toText).toInteger = n ∧
    ((Operator.add.apply (.text "") (.integer n)).bind fun t =>
      Operator.multiply.apply t (.integer 1)) = .ok (.integer n) ∧
    (0 ≤ n → Token.scan (Value.integer n).toText.toList =
      [⟨.number, (Value.integer n).toText, some (.integer n), 1⟩, .endOfInput 1]) ∧
    ∀ cs, Digits cs →
      ((Number.decimalValue cs : Int) ≤ Int64.maxValue.toInt →
        ∃ m : Int64, m.toInt = Number.decimalValue cs ∧ Token.scan cs =
          [⟨.number, String.ofList cs, some (.integer m), 1⟩, .endOfInput 1]) ∧
      (Int64.maxValue.toInt < Number.decimalValue cs →
        Token.scan cs = [⟨.error, String.ofList cs, none, 1⟩, .endOfInput 1]) := by
  refine ⟨toInteger_toText n, ?_, scan_toText, fun cs hcs => ⟨fun hle => ?_, fun hlt => ?_⟩⟩
  · have hadd : Operator.add.apply (.text "") (.integer n) =
        .ok (.text (Value.integer n).toText) :=
      congrArg (fun s => Except.ok (Value.text s)) String.empty_append
    have hmultiply : Operator.multiply.apply (.text (Value.integer n).toText) (.integer 1) =
        .ok (.integer ((Value.text (Value.integer n).toText).toInteger * 1)) := rfl
    rw [hadd, Except.bind, hmultiply, toInteger_toText, Int64.mul_one]
  · rw [← Number.valueOf_eq_decimalValue] at hle ⊢
    obtain ⟨m, hm, hsome⟩ := Number.exists_toInt64? hle
    refine ⟨m, hm, ?_⟩
    rw [Token.scan_digits hcs, Token.ofDigits_of_some hsome]
  · rw [← Number.valueOf_eq_decimalValue] at hlt
    rw [Token.scan_digits hcs, Token.ofDigits_of_none (Number.toInt64?_eq_none hlt)]

/-- Leading zeros, and the largest integer. -/
def largestPadded : List Char := "0009223372036854775807".toList

/-- Leading zeros, and the first number that is no integer any more. -/
def beyondLargest : List Char := "0009223372036854775808".toList

theorem limits_through_text :
    (Value.text (Value.integer Int64.minValue).toText).toInteger = Int64.minValue ∧
    0 ≤ Int64.maxValue ∧
    Token.scan (Value.integer Int64.maxValue).toText.toList =
      [⟨.number, (Value.integer Int64.maxValue).toText, some (.integer Int64.maxValue), 1⟩,
        .endOfInput 1] ∧
    Digits largestPadded ∧ (Number.decimalValue largestPadded : Int) ≤ Int64.maxValue.toInt ∧
    (∃ m : Int64, m.toInt = Number.decimalValue largestPadded ∧ Token.scan largestPadded =
      [⟨.number, String.ofList largestPadded, some (.integer m), 1⟩, .endOfInput 1]) ∧
    Digits beyondLargest ∧ Int64.maxValue.toInt < Number.decimalValue beyondLargest ∧
    Token.scan beyondLargest =
      [⟨.error, String.ofList beyondLargest, none, 1⟩, .endOfInput 1] := by
  have hlargest : Digits largestPadded :=
    ⟨by decide, List.all_eq_true.mp (by decide : largestPadded.all isAsciiDigit = true)⟩
  have hbeyond : Digits beyondLargest :=
    ⟨by decide, List.all_eq_true.mp (by decide : beyondLargest.all isAsciiDigit = true)⟩
  have hle : (Number.decimalValue largestPadded : Int) ≤ Int64.maxValue.toInt := by decide
  have hlt : Int64.maxValue.toInt < Number.decimalValue beyondLargest := by decide
  have hmax := integer_through_text Int64.maxValue
  exact ⟨(integer_through_text Int64.minValue).1, by decide, hmax.2.2.1 (by decide), hlargest, hle,
    (hmax.2.2.2 _ hlargest).1 hle, hbeyond, hlt, (hmax.2.2.2 _ hbeyond).2 hlt⟩

end Value

end BlockScript
