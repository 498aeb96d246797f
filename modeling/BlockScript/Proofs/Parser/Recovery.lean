import BlockScript.Proofs.Parser.Nesting

/-!
# Recovery

After a failure, reading goes on outside of the blocks that were left open: recovery finds the end
of the last of them.

* `exits_synchronize`: what `synchronize` skips closes the open blocks.
* `WellNested`: nowhere are more blocks closed than were opened.
* `length_synchronize_lt`: then recovery gets on by itself.
* `reaches_step`: what one step keeps. **`reaches_stepsWithin`**: every declaration starts outside
  of all blocks.
-/

namespace BlockScript.Parser

/-! ## Recovery -/

theorem reaches_skipSemicolon (ts : List Token) : Reaches 0 ts (skipSemicolon ts) := by
  cases ts with
  | nil => exact .refl []
  | cons t ts =>
    rw [skipSemicolon, cur?_cons]
    dsimp only [advance_cons]
    split
    · next ht => exact Reaches.skip (.refl ts) (ht ▸ rfl)
    · exact .refl _

/-- The tokens `rest` stand where `depth` blocks open before `ts` are closed, if not at the end. -/
def Exits (depth : Nat) (ts rest : List Token) : Prop :=
  rest = [] ∨ Reaches (-depth) ts rest

theorem Exits.opening {depth : Nat} {t : Token} {ts rest : List Token} (ht : t.kind = .blockOpen)
    (h : Exits (depth + 1) ts rest) : Exits depth (t :: ts) rest := by
  refine h.imp_right fun h => ?_
  have hdepth : weight t + -(depth + 1 : Nat) = -(depth : Int) := by
    simp only [weight, ht]
    omega
  exact hdepth ▸ h.cons

theorem Exits.closing {depth : Nat} {t : Token} {ts rest : List Token}
    (ht : t.kind = .blockClose) (h : Exits depth ts rest) : Exits (depth + 1) (t :: ts) rest := by
  refine h.imp_right fun h => ?_
  have hdepth : weight t + -(depth : Int) = -(depth + 1 : Nat) := by
    simp only [weight, ht]
    omega
  exact hdepth ▸ h.cons

theorem Exits.skip {depth : Nat} {t : Token} {ts rest : List Token} (ht : isEdge t.kind = false)
    (h : Exits depth ts rest) : Exits depth (t :: ts) rest :=
  h.imp_right fun h => h.skip ht

theorem Exits.length_le {depth : Nat} {ts rest : List Token} (h : Exits depth ts rest) :
    rest.length ≤ ts.length := by
  rcases h with rfl | h
  · exact Nat.zero_le _
  · exact h.length_le

/-- What recovery skips closes the open blocks, and leaves no other block half read. By induction
on the bound, which has to allow for all tokens. -/
theorem exits_synchronizeWithin (bound depth : Nat) (ts : List Token) (h : ts.length ≤ bound) :
    Exits depth ts (synchronizeWithin bound depth ts) := by
  have hstay (ts : List Token) : Exits 0 ts ts := .inr (.refl ts)
  induction bound generalizing depth ts with
  | zero => exact .inl (List.length_eq_zero_iff.mp (Nat.le_zero.mp h))
  | succ bound ih =>
    cases ts with
    | nil => exact .inl rfl
    | cons t ts =>
      have h : ts.length ≤ bound := Nat.le_of_succ_le_succ h
      rw [synchronizeWithin.eq_def]
      simp only [cur?_cons, advance_cons]
      split
      case h_1 hk => exact (ih (depth + 1) ts h).opening hk
      case h_2 hk =>
        split
        case h_1 => exact hstay _
        case h_2 =>
          cases ts with
          | nil => exact .inl rfl
          | cons e ts =>
            simp only [cur?_cons, advance_cons, Option.map_some, Option.some.injEq]
            split
            · next he =>
              have hother : isEdge e.kind = false := by rw [he]; rfl
              exact ((ih 0 ts (Nat.le_of_succ_le h)).skip hother).closing hk
            · exact Exits.closing hk (.inr (reaches_skipSemicolon (e :: ts)))
        case h_3 depth => exact (ih (depth + 1) ts h).closing hk
      case h_3 hk =>
        split
        · next hdepth => exact hdepth ▸ (hstay ts).skip (hk ▸ rfl)
        · exact (ih depth ts h).skip (hk ▸ rfl)
      case h_4 hopen hclose _ =>
        split
        · next hdepth =>
          obtain ⟨hzero, -⟩ : depth = 0 ∧ _ := by simpa using hdepth
          exact hzero ▸ hstay _
        · exact (ih depth ts h).skip (isEdge_eq_false hopen hclose)

theorem exits_synchronize (depth : Nat) (ts : List Token) :
    Exits depth ts (synchronize depth ts) :=
  exits_synchronizeWithin _ depth ts (show ts.length ≤ 4 * ts.length + 4 by omega)

theorem length_synchronize_zero_le {t : Token} {ts : List Token} (hclose : t.kind ≠ .blockClose)
    (hstart : startsDeclaration t.kind = false) :
    (synchronize 0 (t :: ts)).length ≤ ts.length := by
  have hskip (depth : Nat) : (synchronizeWithin ts.length depth ts).length ≤ ts.length :=
    (exits_synchronizeWithin _ depth ts (Nat.le_refl _)).length_le
  rw [← synchronizeWithin_eq 0 (Nat.le_refl _), List.length_cons, synchronizeWithin.eq_def]
  dsimp only [cur?_cons, advance_cons]
  split
  · exact hskip 1
  · exact absurd ‹_› hclose
  · exact Nat.le_refl _
  · rw [if_neg (by simp [hstart])]
    exact hskip 0

/-- A declaration that starts with a keyword reads it, whatever follows. -/
theorem counted_keyword {t : Token} (ts : List Token) (ht : startsDeclaration t.kind = true) :
    Counted ts (declaration (t :: ts)) := by
  cases hk : t.kind with
  | function =>
    simp only [declaration, cur?_cons, advance_cons, hk]
    exact balanced_functionBehind t ts
  | declare =>
    simp only [declaration, cur?_cons, advance_cons, hk]
    exact balanced_variableBehind t ts
  | branch =>
    simp only [declaration, cur?_cons, advance_cons, hk, room_cons, statement]
    exact balanced_branchBehind _ t ts
  | loop =>
    simp only [declaration, cur?_cons, advance_cons, hk, room_cons, statement]
    exact balanced_loopOf (balanced_statements _) t ts
  | giveBack =>
    simp only [declaration, cur?_cons, advance_cons, hk, room_cons, statement]
    exact balanced_giveBackBehind t ts
  | print =>
    simp only [declaration, cur?_cons, advance_cons, hk, room_cons, statement]
    exact balanced_ended _ ts
  | _ =>
    rw [hk] at ht
    cases ht

/-! ## All steps -/

/-- No end of a block stands where none is open. Blocks may be left open. -/
def WellNested (ts : List Token) : Prop :=
  ∀ front rest, ts = front ++ rest → 0 ≤ nesting front

theorem WellNested.rest {ts rest : List Token} (h : WellNested ts) (hr : Reaches 0 ts rest) :
    WellNested rest := by
  obtain ⟨front, rfl, hfront⟩ := hr
  rintro inner rest rfl
  have := h (front ++ inner) rest (by simp)
  rwa [nesting_append, hfront, Int.zero_add] at this

theorem WellNested.head {t : Token} {ts : List Token} (h : WellNested (t :: ts)) :
    t.kind ≠ .blockClose := by
  intro ht
  have := h [t] ts rfl
  simp [weight, ht] at this

/-- **Recovery gets on by itself.** It stops further on than the declaration started, so that no
token has to be skipped to get away from there. -/
theorem length_synchronize_lt {t : Token} {ts : List Token} {f : Failure (List Token)}
    (h : declaration (t :: ts) = .error f) (hn : WellNested (t :: ts)) :
    (synchronize f.depth f.rest).length < (t :: ts).length := by
  have hlen := (exits_synchronize f.depth f.rest).length_le
  cases hk : startsDeclaration t.kind with
  | true =>
    have hc := counted_keyword ts hk
    rw [h] at hc
    have := Reaches.length_le hc
    simp only [List.length_cons]
    omega
  | false =>
    have hc := balanced_declaration (t :: ts)
    rw [h] at hc
    obtain ⟨front, hfront, hdepth⟩ := hc
    cases front with
    | nil =>
      -- Nothing was read, and the token that stands here is skipped.
      have hzero : f.depth = 0 := by simpa using hdepth.symm
      rw [hzero, ← show t :: ts = f.rest from hfront]
      exact Nat.lt_succ_of_le (length_synchronize_zero_le hn.head hk)
    | cons u front =>
      have := congrArg List.length hfront
      simp only [List.cons_append, List.length_cons, List.length_append] at this ⊢
      omega

/-- The next step starts at the end, or outside of all blocks that the step has met. -/
theorem reaches_step {t : Token} {ts : List Token} (hn : WellNested (t :: ts)) :
    (step (t :: ts)).2 = [] ∨ Reaches 0 (t :: ts) (step (t :: ts)).2 := by
  have hc := balanced_declaration (t :: ts)
  rw [step]
  cases hd : declaration (t :: ts) with
  | ok r =>
    rw [hd] at hc
    exact .inr hc
  | error f =>
    rw [hd] at hc
    have hlt := length_synchronize_lt hd hn
    simp only [recover_eq, if_neg (Nat.ne_of_gt hlt)]
    refine (exits_synchronize f.depth f.rest).imp_right fun h => ?_
    have := Reaches.trans hc h
    rwa [Int.add_right_neg] at this

/-- By induction on the number of steps: each starts where none of the blocks before is open. -/
theorem reaches_stepsWithin : ∀ (bound : Nat) (ts : List Token), WellNested ts →
    ∀ s ∈ stepsWithin bound ts, Reaches 0 ts s.start ∧ s.start ≠ []
  | 0, _, _, s, hs | _ + 1, [], _, s, hs => by cases hs
  | bound + 1, t :: ts, hn, s, hs => by
    rw [stepsWithin_cons] at hs
    rcases List.mem_cons.mp hs with rfl | hs
    · rw [start_step]
      exact ⟨.refl _, List.cons_ne_nil t ts⟩
    · rcases reaches_step hn with hend | hnext
      · rw [hend, stepsWithin_nil] at hs
        cases hs
      · obtain ⟨hreach, hne⟩ := reaches_stepsWithin bound _ (hn.rest hnext) s hs
        exact ⟨hnext.of_zero hreach, hne⟩

end BlockScript.Parser
