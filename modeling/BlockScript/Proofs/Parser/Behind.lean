import BlockScript.Proofs.Parser.Exchange
import BlockScript.Proofs.Parser.Phrases

/-!
# Behind the end of a block

From the end of a block within a declaration, the tokens that follow lead out of the blocks that are
open there, and then behind the declaration. Recovery goes the same way, but it takes the link of an
else-if chain for a declaration of its own, and of the semicolons at the end it takes one only.

* `Behind`: what follows, within the declaration. `Declaration.behind`: by cases on the declaration.
* `synchronize_inside`: recovery finds the end of the outermost block.
* `LinkBehind`, `trailing`: what gets in its way from there on.
* **`synchronize_behind`**: where it stops.
-/

namespace BlockScript.Grammar

open BlockScript.Parser

/-! ## Behind the damage -/

/-- These tokens lead out of `depth` blocks, and not further. -/
structure Inside (depth : Nat) (ts : List Token) : Prop where
  nesting_eq : nesting ts = -depth
  le_nesting : ∀ front rest, ts = front ++ rest → -(depth : Int) ≤ nesting front

theorem Whole.inside {ts : List Token} (h : Whole ts) : Inside 0 ts :=
  ⟨h.nesting_eq, fun front rest hts => h.wellNested front rest hts⟩

/-- A place further out is behind the token that follows. -/
theorem Inside.passed {depth : Nat} {ts tail between rest : List Token} {last : Token}
    (h : Inside depth ts) (hts : ts ++ last :: tail = between ++ rest)
    (hlt : nesting between < -depth) :
    ∃ between', between = ts ++ last :: between' ∧ tail = between' ++ rest := by
  rcases List.append_eq_append_iff.mp hts with ⟨as, rfl, has⟩ | ⟨bs, hbs, -⟩
  · cases as with
    | nil =>
      rw [List.append_nil, h.nesting_eq] at hlt
      exact absurd hlt (Int.lt_irrefl _)
    | cons a as =>
      obtain ⟨rfl, rfl⟩ := List.cons.inj has
      exact ⟨as, rfl, rfl⟩
  · exact absurd (h.le_nesting between bs hbs) (Int.not_le.mpr hlt)

/-- From within a declaration, where `depth` blocks are open, the tokens `ts` lead to the end `last`
of the outermost of them, and then to `rest` behind the declaration. Between these stands what a
branch has behind a block: its other side, if any, and semicolons. -/
inductive Behind (depth : Int) (ts rest : List Token) : Prop
  | intro {k : Nat} {inside tail semicolons : List Token} {last : Token} {other : Option Stmt} :
      depth = k + 1 → ts = inside ++ last :: tail → Inside k inside → last.kind = .blockClose →
      Otherwise tail other semicolons → Drops semicolons rest → Behind depth ts rest

variable {ts mid mid' rest front back inner : List Token} {c : Token}

theorem Terminator.drops (h : Terminator ts rest) : Drops ts rest := by
  cases h with
  | none => exact .refl
  | semicolon ht => exact .semicolon ht .refl

theorem Behind.drops {depth : Int} (h : Behind depth ts mid) (hd : Drops mid rest) :
    Behind depth ts rest := by
  obtain ⟨hdepth, hts, hinside, hlast, hother, hsemicolons⟩ := h
  exact .intro hdepth hts hinside hlast hother (hsemicolons.trans hd)

theorem Block.behind {line : Int} {body : List Stmt} {other : Option Stmt} {semicolons : List Token}
    (h : Block ts line body mid) (hts : ts = front ++ c :: back) (hc : c.kind = .blockClose)
    (hback : back = inner ++ mid) (hother : Otherwise mid other semicolons)
    (hd : Drops semicolons rest) : Behind (nesting front) (c :: back) rest := by
  obtain ⟨o, within, last, rfl, ho, hlast, hwithin⟩ := h.inside
  have hopen : weight o = 1 := by rw [weight, ho]
  cases front with
  | nil =>
    obtain ⟨rfl, -⟩ := List.cons.inj hts
    rw [ho] at hc
    cases hc
  | cons o' front =>
    simp only [List.cons_append, List.cons.injEq] at hts
    obtain ⟨rfl, hts⟩ := hts
    -- the place of `c` is before the end of the block, or that end
    have hplace : ∃ inside, within = front ++ inside ∧ c :: back = inside ++ last :: mid := by
      rcases List.append_eq_append_iff.mp hts with ⟨as, rfl, has⟩ | ⟨bs, rfl, hbs⟩
      · cases as with
        | nil => exact ⟨[], by simp, has.symm⟩
        | cons a as =>
          simp only [List.cons_append, List.cons.injEq] at has
          have := congrArg List.length has.2
          simp only [hback, List.length_append, List.length_cons] at this
          omega
      · exact ⟨bs, rfl, hbs⟩
    obtain ⟨inside, rfl, hinside⟩ := hplace
    obtain ⟨k, hk⟩ := Int.eq_ofNat_of_zero_le (hwithin.wellNested front inside rfl)
    have hsum := hwithin.nesting_eq
    rw [nesting_append, hk] at hsum
    refine .intro (k := k) ?_ hinside ⟨by omega, fun f r hr => ?_⟩ hlast hother hd
    · rw [nesting_cons, hopen, hk, Int.add_comm]
    · have := hwithin.wellNested (front ++ f) r (by rw [hr, List.append_assoc])
      rw [nesting_append, hk] at this
      omega

/-- What stands within a phrase does not stand behind it. -/
theorem not_behind (h : rest = front ++ c :: back) (hback : back = inner ++ rest) : False := by
  have := congrArg List.length h
  rw [hback] at this
  simp only [List.length_append, List.length_cons] at this
  omega

theorem behind_block {line : Int} {body : List Stmt} (hflat : Flat ts mid)
    (hb : Block mid line body mid') (ht : Terminator mid' rest) (hts : ts = front ++ c :: back)
    (hc : c.kind = .blockClose) (hback : back = inner ++ rest) :
    Behind (nesting front) (c :: back) rest := by
  obtain ⟨front', hmid, hfront'⟩ := hflat.locate hts hc
  rw [← hfront']
  rcases hb.takes.locate hmid with ⟨within, -, hwithin⟩ | ⟨front'', hmid', -⟩
  · exact hb.behind hmid hc hwithin .none ht.drops
  · obtain ⟨front₃, hrest, -⟩ := ht.flat.locate hmid' hc
    exact (not_behind hrest hback).elim

mutual

theorem Branch.behind : ∀ {ts : List Token} {s : Stmt} {rest front back inner : List Token},
    Branch ts s rest → ts = front ++ c :: back → c.kind = .blockClose → back = inner ++ rest →
    Behind (nesting front) (c :: back) rest
  | _, _, rest, front, back, inner, .intro hk he hb ho ht, hts, hc, hback => by
    obtain ⟨front₁, hmid, hfront₁⟩ := (Flat.cons (hk ▸ rfl) he.flat).locate hts hc
    rw [← hfront₁]
    rcases hb.takes.locate hmid with ⟨within, -, hwithin⟩ | ⟨front₂, hmid', hfront₂⟩
    · exact hb.behind hmid hc hwithin ho ht.drops
    rw [← hfront₂]
    rcases ho.takes.locate hmid' with ⟨within, -, hwithin⟩ | ⟨front₃, hmid'', -⟩
    · exact (ho.behind hmid' hc hwithin).drops ht.drops
    · obtain ⟨front₄, hrest, -⟩ := ht.flat.locate hmid'' hc
      exact (not_behind hrest hback).elim

theorem Otherwise.behind : ∀ {ts : List Token} {other : Option Stmt}
    {rest front back inner : List Token}, Otherwise ts other rest → ts = front ++ c :: back →
    c.kind = .blockClose → back = inner ++ rest → Behind (nesting front) (c :: back) rest
  | _, _, _, _, _, _, .none, hts, _, hback => (not_behind hts hback).elim
  | _, _, _, _, _, _, .block hk hb, hts, hc, hback =>
    behind_block (flat_token _ hk rfl) hb .none hts hc hback
  | _, _, _, _, _, _, .branch hk hb, hts, hc, hback => by
    obtain ⟨front', hmid, hfront'⟩ := (flat_token _ hk rfl).locate hts hc
    rw [← hfront']
    exact hb.behind hmid hc hback

end

/-- A declaration with a block in it starts afresh. It is a branch, or the block stands at its
end. -/
theorem Declaration.compound {s : Stmt} (h : Declaration ts s rest) (hflat : ¬ Flat ts rest) :
    (∃ t ts', ts = t :: ts' ∧ startsAfresh t.kind = true) ∧
      (Branch ts s rest ∨ ∃ mid mid' line body, Flat ts mid ∧ Block mid line body mid' ∧
        Terminator mid' rest) := by
  cases h with
  | function h =>
    cases h with
    | intro hk hn ho hp hc ha hb ht =>
      exact ⟨⟨_, _, rfl, hk ▸ rfl⟩,
        .inr ⟨_, _, _, _, flat_functionHead hk hn ho hp hc ha, hb, ht⟩⟩
  | declare h => exact absurd h.flat hflat
  | statement h =>
    cases h with
    | branch h =>
      refine ⟨?_, .inl h⟩
      cases h with
      | intro hk => exact ⟨_, _, rfl, hk ▸ rfl⟩
    | loop hk he hb ht =>
      exact ⟨⟨_, _, rfl, hk ▸ rfl⟩, .inr ⟨_, _, _, _, .cons (hk ▸ rfl) he.flat, hb, ht⟩⟩
    | block hb ht =>
      refine ⟨?_, .inr ⟨_, _, _, _, .refl _, hb, ht⟩⟩
      obtain ⟨t, ts', rfl, hk⟩ := hb.starts
      exact ⟨t, ts', rfl, hk ▸ rfl⟩
    | giveNothing hk _ ht => exact absurd (.cons (hk ▸ rfl) ht.flat) hflat
    | giveBack hk _ he | print hk he => exact absurd (.cons (hk ▸ rfl) he.flat) hflat
    | assign hn ha he => exact absurd (.cons (hn ▸ rfl) (.cons (ha ▸ rfl) he.flat)) hflat
    | evaluate he => exact absurd he.flat hflat

theorem not_flat (hts : ts = front ++ c :: back) (hc : c.kind = .blockClose)
    (hback : back = inner ++ rest) : ¬ Flat ts rest := by
  intro h
  obtain ⟨front', hrest, -⟩ := h.locate hts hc
  exact not_behind hrest hback

/-- **What stands behind the end of a block within a declaration.** -/
theorem Declaration.behind {s : Stmt} (h : Declaration ts s rest) (hts : ts = front ++ c :: back)
    (hc : c.kind = .blockClose) (hback : back = inner ++ rest) :
    Behind (nesting front) (c :: back) rest := by
  rcases (h.compound (not_flat hts hc hback)).2 with h | ⟨mid, mid', line, body, hflat, hb, ht⟩
  · exact h.behind hts hc hback
  · exact behind_block hflat hb ht hts hc hback

end BlockScript.Grammar

namespace BlockScript.Parser

open Grammar

/-! ## Recovery -/

/-- The tokens at which reading goes on behind the end of the outermost block. -/
def afterBlock : List Token → List Token
  | e :: more => if e.kind = .otherwise then synchronize 0 more else skipSemicolon (e :: more)
  | [] => []

/-- The step of recovery over one token. -/
theorem synchronize_cons (depth : Nat) (t : Token) (ts : List Token) :
    synchronize depth (t :: ts) = synchronizeWithin (ts.length + 1) depth (t :: ts) :=
  (synchronizeWithin_eq depth (Nat.le_refl _)).symm

theorem synchronize_open {t : Token} (ht : t.kind = .blockOpen) (depth : Nat)
    (ts : List Token) : synchronize depth (t :: ts) = synchronize (depth + 1) ts := by
  rw [synchronize_cons, synchronizeWithin.eq_def]
  simp only [cur?_cons, advance_cons, ht]
  exact synchronizeWithin_eq _ (Nat.le_refl _)

theorem synchronize_close {t : Token} (ht : t.kind = .blockClose) (depth : Nat)
    (ts : List Token) : synchronize (depth + 2) (t :: ts) = synchronize (depth + 1) ts := by
  rw [synchronize_cons, synchronizeWithin.eq_def]
  simp only [cur?_cons, advance_cons, ht]
  exact synchronizeWithin_eq _ (Nat.le_refl _)

theorem synchronize_last {t : Token} (ht : t.kind = .blockClose) (ts : List Token) :
    synchronize 1 (t :: ts) = afterBlock ts := by
  rw [synchronize_cons, synchronizeWithin.eq_def]
  simp only [cur?_cons, advance_cons, ht]
  cases ts with
  | nil => rfl
  | cons e more =>
    simp only [cur?_cons, advance_cons, Option.map_some, Option.some.injEq, afterBlock]
    rw [synchronizeWithin_eq 0 (show more.length ≤ (e :: more).length from Nat.le_succ _)]

theorem synchronize_other {t : Token} (ht : isEdge t.kind = false) (depth : Nat)
    (ts : List Token) : synchronize (depth + 1) (t :: ts) = synchronize (depth + 1) ts := by
  have hskip := synchronizeWithin_eq (depth + 1) (Nat.le_refl ts.length)
  rw [synchronize_cons, synchronizeWithin.eq_def]
  simp only [cur?_cons, advance_cons]
  split
  case h_1 hk | h_2 hk =>
    rw [hk] at ht
    cases ht
  case h_3 =>
    rw [if_neg (Nat.succ_ne_zero depth)]
    exact hskip
  case h_4 =>
    rw [if_neg (by simp)]
    exact hskip

/-- Recovery skips to the end of the outermost block. -/
theorem synchronize_inside {k : Nat} {inside : List Token} (h : Inside k inside) {last : Token}
    (hlast : last.kind = .blockClose) (rest : List Token) :
    synchronize (k + 1) (inside ++ last :: rest) = afterBlock rest := by
  induction inside generalizing k with
  | nil =>
    have hk : k = 0 := by
      have := h.nesting_eq
      simp only [nesting_nil] at this
      omega
    subst hk
    exact synchronize_last hlast rest
  | cons t inside ih =>
    have hsum := h.nesting_eq
    have hfirst := h.le_nesting [t] inside rfl
    have hle : ∀ front rest, inside = front ++ rest → -(k : Int) ≤ weight t + nesting front :=
      fun front rest hin => h.le_nesting (t :: front) rest (by rw [hin, List.cons_append])
    simp only [nesting_cons, nesting_nil] at hsum hfirst
    rw [List.cons_append]
    by_cases hopen : t.kind = .blockOpen
    · have ht : weight t = 1 := by rw [weight, hopen]
      rw [ht] at hsum hle
      rw [synchronize_open hopen]
      exact ih ⟨by omega, fun front rest hin => by have := hle front rest hin; omega⟩
    by_cases hclose : t.kind = .blockClose
    · have ht : weight t = -1 := by rw [weight, hclose]
      rw [ht] at hsum hfirst hle
      obtain ⟨k, rfl⟩ : ∃ k', k = k' + 1 := ⟨k - 1, by omega⟩
      rw [synchronize_close hclose]
      exact ih ⟨by omega, fun front rest hin => by have := hle front rest hin; omega⟩
    · have hedge := isEdge_eq_false hopen hclose
      rw [weight_eq_zero hedge] at hsum hle
      rw [synchronize_other hedge]
      exact ih ⟨by omega, fun front rest hin => by have := hle front rest hin; omega⟩

/-! ## Where recovery stops -/

/-- The next link of an else-if chain. -/
def Links (ts : List Token) : Prop :=
  ∃ e k rest, ts = e :: k :: rest ∧ e.kind = .otherwise ∧ k.kind = .branch

/-- Among the tokens `ts` that stand behind `front`, a link of an else-if chain stands outside of
all blocks. -/
def LinkBehind (front ts : List Token) : Prop :=
  ∃ between rest, ts = between ++ rest ∧ nesting (front ++ between) = 0 ∧ Links rest

instance (ts : List Token) : Decidable (Links ts) :=
  decidable_of_iff ((ts.take 2).map Token.kind = [.otherwise, .branch]) <| by
    match ts with
    | [] | [_] => simp [Links]
    | e :: k :: rest =>
      simp only [List.take, List.map, List.cons.injEq, and_true]
      exact ⟨fun h => ⟨e, k, rest, rfl, h⟩, fun ⟨_, _, _, hts, h⟩ => by cases hts; exact h⟩

instance (front ts : List Token) : Decidable (LinkBehind front ts) :=
  decidable_of_iff (∃ n < ts.length + 1, nesting (front ++ ts.take n) = 0 ∧ Links (ts.drop n)) <| by
    refine ⟨fun ⟨n, _, h⟩ => ⟨_, _, (ts.take_append_drop n).symm, h⟩, ?_⟩
    rintro ⟨between, rest, rfl, h⟩
    exact ⟨between.length, by rw [List.length_append]; omega, by simpa using h⟩

/-- The number of semicolons at the end. -/
def trailing (ts : List Token) : Nat :=
  (ts.reverse.takeWhile (·.kind = .semicolon)).length

variable {inside tail semicolons post : List Token} {last : Token} {other : Option Stmt}

theorem kind_of_drops {ts rest : List Token} (h : Drops ts rest) (hrest : rest = []) :
    ∀ t ∈ ts, t.kind = .semicolon := by
  induction h with
  | refl => simp [hrest]
  | semicolon ht _ ih => exact List.forall_mem_cons.mpr ⟨ht, ih hrest⟩

theorem trailing_append (init : List Token) (hlast : last.kind = .blockClose)
    (hs : Drops semicolons []) : trailing (init ++ last :: semicolons) = semicolons.length := by
  have hall := kind_of_drops hs rfl
  rw [trailing, List.reverse_append, List.reverse_cons, List.append_assoc,
    List.takeWhile_append_of_pos fun t ht => decide_eq_true (hall t (List.mem_reverse.mp ht))]
  simp [hlast]

theorem not_links_of_drops (hs : Drops semicolons []) {between rest : List Token}
    (h : semicolons = between ++ rest) : ¬ Links rest := by
  rintro ⟨e, k, rest, rfl, he, -⟩
  have := kind_of_drops hs rfl e (by simp [h])
  rw [he] at this
  cases this

theorem afterBlock_semicolons (hs : Drops semicolons []) (hpost : Fresh post) :
    afterBlock (semicolons ++ post) = semicolons.tail ++ post := by
  cases hs with
  | refl =>
    cases post with
    | nil => rfl
    | cons t post =>
      have helse : t.kind ≠ .otherwise := hpost.ne rfl t rfl
      have hsemicolon : t.kind ≠ .semicolon := hpost.ne rfl t rfl
      simp [afterBlock, skipSemicolon, helse, hsemicolon]
  | semicolon ht _ => simp [afterBlock, skipSemicolon, ht]

/-- Behind the end of a block, recovery skips another side that is a block, and a semicolon. -/
theorem afterBlock_otherwise (h : Otherwise tail other semicolons) (hs : Drops semicolons [])
    (hlink : ¬ Links tail) (hpost : Fresh post) :
    afterBlock (tail ++ post) = semicolons.tail ++ post := by
  cases h with
  | none => exact afterBlock_semicolons hs hpost
  | block hk hb =>
    obtain ⟨o, within, c, rfl, ho, hc, hwithin⟩ := hb.inside
    simp only [List.cons_append, List.append_assoc, afterBlock, if_pos hk]
    rw [synchronize_open ho, synchronize_inside hwithin.inside hc]
    exact afterBlock_semicolons hs hpost
  | branch hk hb =>
    cases hb with
    | intro hbranch => exact absurd ⟨_, _, _, rfl, hk, hbranch⟩ hlink

/-- The link of an else-if chain is where recovery stops. -/
theorem afterBlock_links (h : Links tail) (post : List Token) :
    afterBlock (tail ++ post) = tail.tail ++ post := by
  obtain ⟨e, k, rest, rfl, he, hk⟩ := h
  have hstop (ts : List Token) : synchronize 0 (k :: ts) = k :: ts := by
    rw [synchronize_cons, synchronizeWithin.eq_def]
    simp [hk, startsDeclaration]
  simp [afterBlock, he, hstop]

/-- The other side of a branch has no link outside of blocks but where it starts. -/
theorem links_of_otherwise (h : Otherwise tail other semicolons) (hs : Drops semicolons [])
    {between rest : List Token} (htail : tail = between ++ rest) (hzero : nesting between = 0)
    (hrest : Links rest) : Links tail := by
  cases h with
  | none => exact absurd hrest (not_links_of_drops hs htail)
  | branch hk hb =>
    cases hb with
    | intro hbranch => exact ⟨_, _, _, rfl, hk, hbranch⟩
  | @block e _ _ _ _ hk hb =>
    obtain ⟨o, within, c, rfl, ho, hc, hwithin⟩ := hb.inside
    have helse : weight e = 0 := by rw [weight, hk]
    have hopen : weight o = 1 := by rw [weight, ho]
    rcases between with _ | ⟨e', _ | ⟨o', between⟩⟩
    · exact htail ▸ hrest
    · -- a link does not start with the block
      obtain ⟨e', k', rest, rfl, he', -⟩ := hrest
      simp only [List.cons_append, List.nil_append, List.cons.injEq] at htail
      rw [htail.2.1, he'] at ho
      cases ho
    · simp only [List.cons_append, List.cons.injEq] at htail
      obtain ⟨rfl, rfl, htail⟩ := htail
      simp only [nesting_cons, helse, hopen] at hzero
      obtain ⟨between', -, hsemicolons⟩ := hwithin.inside.passed htail (by simp; omega)
      exact absurd hrest (not_links_of_drops hs hsemicolons)

/-- A link that stands outside of all blocks is the other side of the outermost block. -/
theorem linkBehind_inside {front : List Token} {k : Nat} (hfront : nesting front = k + 1)
    (hinside : Inside k inside) (hlast : last.kind = .blockClose)
    (hother : Otherwise tail other semicolons) (hs : Drops semicolons []) :
    LinkBehind front (inside ++ last :: tail) ↔ Links tail := by
  have hclose : weight last = -1 := by rw [weight, hlast]
  have hout := hinside.nesting_eq
  constructor
  · rintro ⟨between, rest, hts, hzero, hrest⟩
    rw [nesting_append] at hzero
    obtain ⟨between', rfl, htail⟩ := hinside.passed hts (by omega)
    rw [nesting_append, nesting_cons] at hzero
    exact links_of_otherwise hother hs htail (by omega) hrest
  · intro h
    refine ⟨inside ++ [last], tail, by simp, ?_, h⟩
    simp only [nesting_append, nesting_cons, nesting_nil]
    omega

/-- Before the semicolons stands the end of a block. -/
theorem trailing_otherwise (h : Otherwise tail other semicolons) (hs : Drops semicolons [])
    (hlink : ¬ Links tail) (inside : List Token) (hlast : last.kind = .blockClose) :
    trailing (inside ++ last :: tail) = semicolons.length := by
  cases h with
  | none => exact trailing_append inside hlast hs
  | @block e _ _ _ _ _ hb =>
    obtain ⟨o, within, c, rfl, -, hc, -⟩ := hb.inside
    have := trailing_append (inside ++ last :: e :: o :: within) hc hs
    rwa [List.append_assoc] at this
  | branch hk hb =>
    cases hb with
    | intro hbranch => exact absurd ⟨_, _, _, rfl, hk, hbranch⟩ hlink

/-- **Where recovery stops after damage before the end `c` of a block.** It gets behind the
declaration, unless a link of an else-if chain or a second semicolon stands in its way. -/
theorem synchronize_behind {front back : List Token} {c : Token}
    (h : Behind (nesting front) (c :: back) []) (hpost : Fresh post) :
    ∃ k : Nat, nesting front = k + 1 ∧
      if ¬ LinkBehind front (c :: back) ∧ trailing (c :: back) ≤ 1 then
        synchronize (k + 1) (c :: back ++ post) = post
      else ∃ t ts, synchronize (k + 1) (c :: back ++ post) = t :: ts ∧ t ∈ c :: back := by
  obtain @⟨k, inside, tail, semicolons, last, other, hdepth, hts, hinside, hlast, hother, hs⟩ := h
  refine ⟨k, hdepth, ?_⟩
  have hlink := linkBehind_inside hdepth hinside hlast hother hs
  rw [hts, List.append_assoc, List.cons_append, synchronize_inside hinside hlast]
  by_cases hl : Links tail
  · rw [if_neg fun h => h.1 (hlink.mpr hl), afterBlock_links hl]
    obtain ⟨e, k, rest, rfl, -⟩ := hl
    exact ⟨k, rest ++ post, rfl, by simp⟩
  · have htrailing := trailing_otherwise hother hs hl inside hlast
    have hmem : ∀ t ∈ semicolons, t ∈ inside ++ last :: tail := by
      obtain ⟨own, rfl, -⟩ := hother.takes
      intro t ht
      simp [ht]
    rw [afterBlock_otherwise hother hs hl hpost, htrailing]
    rcases semicolons with _ | ⟨_, _ | ⟨t, rest⟩⟩
    · rw [if_pos ⟨mt hlink.mp hl, Nat.zero_le 1⟩]
      rfl
    · rw [if_pos ⟨mt hlink.mp hl, Nat.le_refl 1⟩]
      rfl
    · rw [if_neg fun h => by simp at h]
      exact ⟨t, rest ++ post, rfl, hmem t (by simp)⟩

end BlockScript.Parser
