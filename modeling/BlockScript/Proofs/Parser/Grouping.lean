import BlockScript.Parser.Expression

/-!
# How operators group

The rule by which a chain of operands is one tree: the operators stand on six levels, of which a
higher one binds tighter, and operators of the same level group to the left.

* `levels`: the binary operators. `level_eq_precedence`: the parser has them on the same levels.
* `Groups`: the rule. `Groups floor first chain e` says that `e` is a tree of the operand `first`
  and the chain behind it, in which every operator outside of operands binds tighter than `floor`.
* `exists_groups`: every chain of operators has such a tree.
* **`groups_iff_assemble`**: it is the tree that `assemble` builds, and no other.
-/

namespace BlockScript.Grammar

open BlockScript.Parser

/-! ## Levels -/

/-- The binary operators, level by level. Those of the last level bind tightest. -/
def levels : List (List Token.Kind) :=
  [[.or],
   [.and],
   [.equal, .notEqual],
   [.less, .greater, .lessEqual, .greaterEqual],
   [.plus, .minus],
   [.times, .divide]]

/-- The level of an operator, counted from one; zero for what is no operator. -/
def level (k : Token.Kind) : Nat :=
  ((levels.findIdx? (k ∈ ·)).map (· + 1)).getD 0

theorem level_eq_precedence (k : Token.Kind) : level k = k.precedence := by
  cases k <;> rfl

theorem mem_levels_iff {k : Token.Kind} : k ∈ levels.flatten ↔ 0 < k.precedence := by
  cases k <;> simp [levels, Token.Kind.precedence]

/-- The trees of an operand and a chain. The left side of an operator may hold operators of the same
level, the right side only tighter ones. -/
inductive Groups : Nat → Expr → List (Token × Expr) → Expr → Prop
  | operand {floor : Nat} {first : Expr} : Groups floor first [] first
  | binary {floor : Nat} {first second left right : Expr} {before after : List (Token × Expr)}
      {op : Token} :
      floor < level op.kind →
      Groups (level op.kind - 1) first before left →
      Groups (level op.kind) second after right →
      Groups floor first (before ++ (op, second) :: after)
        (.binary op.line (Operator.ofSpelling op.text) left right)

/-! ## Assembling builds the tree -/

/-- Nothing pending binds as tightly as `precedence`. -/
def Looser (precedence : Nat) (pending : List (Expr × Token)) : Prop :=
  ∀ x ∈ pending, x.2.kind.precedence < precedence

/-- The chain is at its end, or goes on with an operator that binds at most as tightly as
`precedence`. -/
def Leaves (precedence : Nat) (chain : List (Token × Expr)) : Prop :=
  ∀ x ∈ chain.head?, x.1.kind.precedence ≤ precedence

theorem complete_looser {precedence : Nat} {pending : List (Expr × Token)} (e : Expr)
    (h : Looser precedence pending) : complete precedence pending e = (pending, e) := by
  cases pending with
  | nil => rfl
  | cons x pending =>
    have hx : ¬ precedence ≤ x.2.kind.precedence := Nat.not_le.mpr (h x List.mem_cons_self)
    rw [complete, if_neg hx]

theorem assembleFrom_pending {left e : Expr} {op : Token} {pending : List (Expr × Token)}
    {chain : List (Token × Expr)} (h : Leaves op.kind.precedence chain) :
    assembleFrom ((left, op) :: pending) e chain =
      assembleFrom pending (binaryOf op left e) chain := by
  cases chain with
  | nil => rw [assembleFrom, assembleFrom, complete, if_pos (Nat.zero_le _)]
  | cons x chain =>
    have hx : x.1.kind.precedence ≤ op.kind.precedence := h x rfl
    rw [assembleFrom, assembleFrom, complete, if_pos hx]

/-- A part of a chain that groups is one operand for what surrounds it. -/
theorem assembleFrom_groups {floor : Nat} {first e : Expr} {chain : List (Token × Expr)}
    (h : Groups floor first chain e) :
    ∀ (pending : List (Expr × Token)) (rest : List (Token × Expr)),
      Looser (floor + 1) pending → Leaves (floor + 1) rest →
      assembleFrom pending first (chain ++ rest) = assembleFrom pending e rest := by
  induction h with
  | operand => intro pending rest _ _; rfl
  | @binary floor first second left right before after op hop _ _ ihl ihr =>
    intro pending rest hp hr
    rw [level_eq_precedence] at hop ihl ihr
    have hp' : Looser op.kind.precedence pending := fun x hx => by
      have := hp x hx
      omega
    have hr' : Leaves op.kind.precedence rest := fun x hx => by
      have := hr x hx
      omega
    have hpush : Looser (op.kind.precedence + 1) ((left, op) :: pending) := by
      intro x hx
      rcases List.mem_cons.mp hx with rfl | hx
      · exact Nat.lt_succ_self _
      · exact Nat.lt_succ_of_lt (hp' x hx)
    have hone : op.kind.precedence - 1 + 1 = op.kind.precedence := by omega
    rw [List.append_assoc, List.cons_append, ihl pending ((op, second) :: (after ++ rest)) ?_ ?_]
    · rw [assembleFrom, complete_looser left hp']
      dsimp only
      rw [ihr _ _ hpush fun x hx => Nat.le_succ_of_le (hr' x hx), assembleFrom_pending hr']
      rfl
    · rw [hone]
      exact hp'
    · rw [hone]
      rintro x ⟨⟩
      exact Nat.le_refl _

theorem assemble_groups {first e : Expr} {chain : List (Token × Expr)}
    (h : Groups 0 first chain e) : assemble first chain = e := by
  have := assembleFrom_groups h [] [] (by simp [Looser]) (by simp [Leaves])
  rw [List.append_nil] at this
  rw [assemble, this, assembleFrom, complete]

/-! ## Every chain groups -/

/-- The last of the loosest operators of a chain splits it. -/
theorem exists_loosest (chain : List (Token × Expr)) (hne : chain ≠ []) :
    ∃ before op second after, chain = before ++ (op, second) :: after ∧
      (∀ x ∈ before, op.kind.precedence ≤ x.1.kind.precedence) ∧
      ∀ x ∈ after, op.kind.precedence < x.1.kind.precedence := by
  induction chain with
  | nil => exact absurd rfl hne
  | cons x chain ih =>
    obtain ⟨op, second⟩ := x
    by_cases hc : chain = []
    · subst hc
      exact ⟨[], op, second, [], rfl, by simp, by simp⟩
    · obtain ⟨before, op', second', after, rfl, hb, ha⟩ := ih hc
      by_cases hop : op'.kind.precedence ≤ op.kind.precedence
      · refine ⟨(op, second) :: before, op', second', after, rfl, ?_, ha⟩
        intro x hx
        rcases List.mem_cons.mp hx with rfl | hx
        · exact hop
        · exact hb x hx
      · refine ⟨[], op, second, before ++ (op', second') :: after, rfl, by simp, ?_⟩
        intro x hx
        rcases List.mem_append.mp hx with hx | hx
        · have := hb x hx
          omega
        · rcases List.mem_cons.mp hx with rfl | hx
          · exact Nat.lt_of_not_le hop
          · have := ha x hx
            omega

/-- **Every chain of operators has a tree.** -/
theorem exists_groups (floor : Nat) (first : Expr) (chain : List (Token × Expr))
    (h : ∀ x ∈ chain, floor < x.1.kind.precedence) : ∃ e, Groups floor first chain e := by
  by_cases hne : chain = []
  · subst hne
    exact ⟨first, .operand⟩
  · obtain ⟨before, op, second, after, hchain, hb, ha⟩ := exists_loosest chain hne
    have hop : floor < op.kind.precedence := h (op, second) (by simp [hchain])
    obtain ⟨left, hl⟩ := exists_groups (op.kind.precedence - 1) first before fun x hx => by
      have := hb x hx
      omega
    obtain ⟨right, hr⟩ := exists_groups op.kind.precedence second after ha
    rw [← level_eq_precedence] at hop hl hr
    rw [hchain]
    exact ⟨_, .binary hop hl hr⟩
termination_by chain.length
decreasing_by
  all_goals
    rw [hchain, List.length_append, List.length_cons]
    omega

/-- **Assembling builds the one tree that the rule allows.** -/
theorem groups_iff_assemble {first e : Expr} {chain : List (Token × Expr)}
    (h : ∀ x ∈ chain, 0 < x.1.kind.precedence) :
    Groups 0 first chain e ↔ assemble first chain = e := by
  refine ⟨assemble_groups, fun he => ?_⟩
  obtain ⟨e', he'⟩ := exists_groups 0 first chain h
  rw [assemble_groups he'] at he
  exact he ▸ he'

end BlockScript.Grammar
