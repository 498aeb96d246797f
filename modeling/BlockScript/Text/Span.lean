/-!
# Spans of code points

Classes of characters are kept as lists of spans `(first, last)`, both ends included.
-/

namespace BlockScript.Text

/-- Whether a code point lies in one of the spans. -/
def inSpans (spans : List (Nat × Nat)) (n : Nat) : Bool :=
  spans.any fun span => span.1 ≤ n && n ≤ span.2

theorem inSpans_iff {spans : List (Nat × Nat)} {n : Nat} :
    inSpans spans n = true ↔ ∃ span ∈ spans, span.1 ≤ n ∧ n ≤ span.2 := by
  simp [inSpans]

end BlockScript.Text
