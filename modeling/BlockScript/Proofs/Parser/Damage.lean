import BlockScript.Proofs.Parser.Behind
import BlockScript.Proofs.Parser.Diagnostics

/-!
# A damaged block

A `print` with nothing behind it, before the end of a block, spoils the declaration that the block
is part of. The declarations before it and behind it are on lines of their own.

* `steps_cons`: the first step of a token sequence, and the others.
* `steps_append`: declarations on earlier lines are read as if they were alone.
* `declaration_damaged`: where the spoiled declaration fails.
* **`ofTokens_damaged`**: when the damage costs one diagnostic and one declaration.
-/

namespace BlockScript.Parser

open Grammar

/-! ## Steps -/

/-- A bound that is large enough does not matter. -/
theorem stepsWithin_eq {b b' : Nat} {ts : List Token} (hb : ts.length ≤ b) (hb' : ts.length ≤ b') :
    stepsWithin b ts = stepsWithin b' ts := by
  have hself : View.self.Shows [] ts ts := rfl
  have hsteps := (runWithin_follows hself hb hb').1
  rwa [map_left_self] at hsteps

theorem steps_cons (t : Token) (ts : List Token) :
    steps (t :: ts) = (step (t :: ts)).1 :: steps (step (t :: ts)).2 := by
  rw [steps, steps, List.length_cons, stepsWithin_cons,
    stepsWithin_eq (length_step t ts) (Nat.le_refl _)]

variable {t : Token} {ts rest : List Token} {s : Stmt} {f : Failure (List Token)}

theorem stmts_of_ok (h : declaration (t :: ts) = .ok (s, rest)) :
    (steps (t :: ts)).filterMap Step.stmt? = s :: (steps rest).filterMap Step.stmt? := by
  rw [steps_cons, step_ok h]
  rfl

theorem failures_of_ok (h : declaration (t :: ts) = .ok (s, rest)) :
    (steps (t :: ts)).filterMap Step.failure? = (steps rest).filterMap Step.failure? := by
  rw [steps_cons, step_ok h]
  rfl

theorem stmts_of_error (h : declaration (t :: ts) = .error f) :
    (steps (t :: ts)).filterMap Step.stmt? =
      (steps (recover (t :: ts) f)).filterMap Step.stmt? := by
  rw [steps_cons, step, h]
  rfl

theorem failures_of_error (h : declaration (t :: ts) = .error f) :
    (steps (t :: ts)).filterMap Step.failure? =
      f :: (steps (recover (t :: ts) f)).filterMap Step.failure? := by
  rw [steps_cons, step, h]
  rfl

/-! ## Declarations before -/

/-- Tokens behind a whole program. -/
def Exchange.beginning (new : List Token) (h : ∃ t ts, new = t :: ts ∧ startsAfresh t.kind = true) :
    Exchange where
  old := []
  new := new
  Fails := fun _ => False
  length_le := Nat.zero_le _
  old_head := by rintro t ⟨⟩
  new_head := h
  body := fun hold => absurd rfl hold

/-- **Declarations on earlier lines are read as if they were alone.** By induction on their number
of tokens: what the first of them is read as does not change. -/
theorem steps_append {new : List Token}
    (hnew : ∃ t ts, new = t :: ts ∧ startsAfresh t.kind = true) :
    ∀ (n : Nat) {ts : List Token}, ts.length ≤ n → (∀ k ∈ ts, Bare k new) →
      (steps ts).filterMap Step.failure? = [] →
      (steps (ts ++ new)).filterMap Step.stmt? =
        (steps ts).filterMap Step.stmt? ++ (steps new).filterMap Step.stmt? ∧
      (steps (ts ++ new)).filterMap Step.failure? = (steps new).filterMap Step.failure?
  | _, [], _, _, _ => ⟨rfl, rfl⟩
  | n + 1, t :: ts, hlen, hbare, hnone => by
    cases hd : declaration (t :: ts) with
    | error f => rw [failures_of_error hd] at hnone; cases hnone
    | ok r =>
      obtain ⟨s, rest⟩ := r
      have hlt := (declaration_sound hd).length_lt
      rw [failures_of_ok hd] at hnone
      have hshort : (Exchange.beginning new hnew).Short (t :: ts) := fun k hk => .inl (hbare k hk)
      rcases Exchange.declaration _ hshort (by rwa [← List.append_nil (t :: ts)] at hd) with
        ⟨us, hus, hrest, hnext⟩ | ⟨f, -, hf⟩
      · obtain rfl : rest = us := hrest.trans (List.append_nil us)
        have hnext : declaration (t :: (ts ++ new)) = .ok (s, rest ++ new) := hnext
        obtain ⟨hstmts, hfailures⟩ := steps_append hnew n
          (by simp only [List.length_cons] at hlen hlt; omega)
          (fun k hk => (hus k hk).resolve_right id) hnone
        rw [List.cons_append, stmts_of_ok hnext, failures_of_ok hnext, stmts_of_ok hd, hstmts]
        exact ⟨rfl, hfailures⟩
      · exact hf.elim

/-! ## The damage -/

/-- A `print` at the end of a block fails at the end, or at once if the bound is used up. -/
theorem statements_print {p c : Token} (hp : p.kind = .print) (hc : c.kind = .blockClose)
    (ts : List Token) (bound : Nat) : ∃ f, statements bound (p :: c :: ts) = .error f ∧
      (f.rest = p :: c :: ts ∨ f.rest = c :: ts) := by
  have hexpr : expression (c :: ts) = .error ⟨.unexpected (some c), c :: ts, 0⟩ :=
    Exchange.expression_of_head (by rw [hc]; rfl)
  match bound with
  | 0 => exact ⟨_, rfl, .inl rfl⟩
  | 1 =>
    rw [statements_statement (by rw [hp]; rfl)]
    exact ⟨_, bind_of_error rfl, .inl rfl⟩
  | bound + 2 =>
    have hprint : statement (bound + 1) (p :: c :: ts) =
        .error ⟨.unexpected (some c), c :: ts, 0⟩ := by
      simp only [statement, cur?_cons, advance_cons, hp]
      exact bind_of_error hexpr
    rw [statements_statement (by rw [hp]; rfl)]
    exact ⟨_, bind_of_error hprint, .inr rfl⟩

/-- The end `c` of a block, and what follows, with a `print` in front. -/
def Exchange.damage (p c : Token) (back post : List Token) (hp : p.kind = .print)
    (hc : c.kind = .blockClose) : Exchange where
  old := c :: back
  new := p :: c :: (back ++ post)
  Fails := fun rest => rest = p :: c :: (back ++ post) ∨ rest = c :: (back ++ post)
  length_le := by simp only [List.length_cons, List.length_append]; omega
  old_head := by rintro t ⟨⟩; exact hc
  new_head := ⟨p, c :: (back ++ post), rfl, by rw [hp]; rfl⟩
  body := fun _ bound => statements_print hp hc (back ++ post) bound

/-- The only way to read a whole declaration leaves nothing. -/
theorem declaration_whole {ts : List Token} (h : Declaration ts s []) :
    ∃ s', declaration ts = .ok (s', []) := by
  have hK : Continues fun ts _ => ts = [] := by
    constructor
    · rintro _ _ rfl t ⟨⟩
    · rintro _ _ rfl hcall
      exact absurd (by rintro t ⟨⟩) hcall
  obtain ⟨s', _, _, hs', rfl⟩ := h.readsTo hK (n := 0) rfl
  exact ⟨s', hs'⟩

variable {p c : Token} {front back post : List Token}

/-- **Where the declaration fails**: at the `print` or behind it. -/
theorem declaration_damaged (h : Declaration (front ++ c :: back) s []) (hp : p.kind = .print)
    (hc : c.kind = .blockClose) (hfront : front ≠ []) (post : List Token) :
    ∃ f, declaration (front ++ p :: c :: (back ++ post)) = .error f ∧ f.depth = nesting front ∧
      (f.rest = p :: c :: (back ++ post) ∨ f.rest = c :: (back ++ post)) := by
  obtain ⟨s', hs'⟩ := declaration_whole h
  obtain ⟨t, ts, rfl⟩ := List.exists_cons_of_ne_nil hfront
  have hshort : (Exchange.damage p c back post hp hc).Short (t :: ts) := fun _ _ => .inr (.inl rfl)
  rcases Exchange.declaration _ hshort hs' with ⟨us, -, hrest, -⟩ | ⟨f, hf, hfails⟩
  · exact absurd hrest.symm (List.append_ne_nil_of_right_ne_nil us (List.cons_ne_nil c back))
  · have hcount := balanced_declaration (t :: ts ++ p :: c :: (back ++ post))
    have hf : declaration (t :: ts ++ p :: c :: (back ++ post)) = .error f := hf
    rw [hf] at hcount
    obtain ⟨own, hown, hdepth⟩ := hcount
    refine ⟨f, hf, ?_, hfails⟩
    rcases hfails with hrest | hrest
    · rw [hrest] at hown
      rw [← hdepth, List.append_cancel_right hown]
    · have hprint : nesting [p] = 0 := by simp [weight, hp]
      have hown : (t :: ts ++ [p]) ++ c :: (back ++ post) = own ++ c :: (back ++ post) := by
        rw [← hrest, ← hown, List.append_assoc, hrest]
        rfl
      rw [← hdepth, ← List.append_cancel_right hown, nesting_append, hprint, Int.add_zero]

/-- What stands inside of a block stands behind the start of one. -/
theorem ne_nil_of_behind {ts rest : List Token} (h : Behind (nesting front) ts rest) :
    front ≠ [] := by
  rintro rfl
  obtain ⟨hdepth⟩ := h
  simp only [nesting_nil] at hdepth
  omega

/-- Recovery goes on from the end of the block. -/
theorem recover_damaged {k : Nat} (hf : f.rest = p :: c :: (back ++ post) ∨
    f.rest = c :: (back ++ post)) (hdepth : f.depth = k + 1) (hp : p.kind = .print)
    (front : List Token) : recover (front ++ p :: c :: (back ++ post)) f =
      synchronize (k + 1) (c :: (back ++ post)) := by
  have hrest : synchronize f.depth f.rest = synchronize (k + 1) (c :: (back ++ post)) := by
    rcases hf with hf | hf
    · rw [hf, hdepth, synchronize_other (by rw [hp]; rfl)]
    · rw [hf, hdepth]
  have hlen := (exits_synchronize (k + 1) (c :: (back ++ post))).length_le
  rw [recover_eq, hrest, if_neg]
  simp only [List.length_append, List.length_cons] at hlen ⊢
  omega

/-! ## Lines and diagnostics -/

/-- A declaration has the line of its first token. -/
theorem line_of_declaration (h : Declaration (t :: ts) s rest) : s.line = t.line := by
  cases h with
  | function h => cases h; rfl
  | declare h => cases h <;> rfl
  | statement h =>
    cases h with
    | branch h => cases h; rfl
    | block hb => cases hb; rfl
    | _ => rfl

/-- Without failures, what is read first has the line of the first token. -/
theorem line_of_steps (h : (steps (t :: ts)).filterMap Step.failure? = []) :
    ∃ s ss, (steps (t :: ts)).filterMap Step.stmt? = s :: ss ∧ s.line = t.line := by
  cases hd : declaration (t :: ts) with
  | error f => rw [failures_of_error hd] at h; cases h
  | ok r => exact ⟨_, _, stmts_of_ok hd, line_of_declaration (declaration_sound hd)⟩

/-- What is read from tokens on an earlier line is something else. -/
theorem stmts_ne_of_line_lt (h : (steps (t :: ts)).filterMap Step.failure? = [])
    (h' : (steps rest).filterMap Step.failure? = []) (hlt : ∀ u ∈ rest, t.line < u.line) :
    (steps (t :: ts)).filterMap Step.stmt? ≠ (steps rest).filterMap Step.stmt? := by
  intro hsame
  obtain ⟨s, ss, hs, hline⟩ := line_of_steps h
  cases rest with
  | nil =>
    rw [hs] at hsame
    cases hsame
  | cons u us =>
    obtain ⟨s', ss', hs', hline'⟩ := line_of_steps h'
    rw [hs, hs'] at hsame
    obtain ⟨rfl, -⟩ := List.cons.inj hsame
    have := hlt u List.mem_cons_self
    omega

theorem errorTokens_eq_nil_iff {ts : List Token} :
    errorTokens ts = [] ↔ ∀ t ∈ beforeEnd ts, t.kind ≠ .error := by
  rw [errorTokens, List.filter_eq_nil_iff]
  simp

theorem beforeEnd_append_of_ne {ts : List Token} (h : ∀ t ∈ ts, t.kind ≠ .endOfInput)
    (us : List Token) : beforeEnd (ts ++ us) = ts ++ beforeEnd us := by
  rw [beforeEnd, List.takeWhile_append_of_pos fun t ht => decide_eq_true (h t ht), beforeEnd]

theorem usable_append_of_proper {ts : List Token} (h : ∀ t ∈ ts, Proper t) (us : List Token) :
    usable (ts ++ us) = ts ++ usable us := by
  rw [usable, beforeEnd_append_of_ne fun t ht => (h t ht).2, List.filter_append,
    List.filter_eq_self.mpr fun t ht => decide_eq_true (h t ht).1, usable]

theorem proper_of_diagnostics {ts : List Token} (h : (Program.ofTokens ts).diagnostics = [])
    (hend : ∀ t ∈ ts, t.kind ≠ .endOfInput) : ∀ t ∈ ts, Proper t := by
  have hlexical := (diagnostics_eq_nil_iff.mp h).1
  rw [← List.append_nil ts, errorTokens_eq_nil_iff, beforeEnd_append_of_ne hend] at hlexical
  simp only [beforeEnd, List.takeWhile_nil, List.append_nil] at hlexical
  exact fun t ht => ⟨hlexical t ht, hend t ht⟩

theorem usable_eq_self {ts : List Token} (h : ∀ t ∈ ts, Proper t) : usable ts = ts := by
  have := usable_append_of_proper h []
  rw [List.append_nil] at this
  exact this.trans (List.append_nil ts)

theorem errorTokens_append_of_proper {ts : List Token} (hts : ∀ t ∈ ts, Proper t)
    (hpost : (Program.ofTokens post).diagnostics = []) : errorTokens (ts ++ post) = [] := by
  have hrest := errorTokens_eq_nil_iff.mp (diagnostics_eq_nil_iff.mp hpost).1
  rw [errorTokens_eq_nil_iff, beforeEnd_append_of_ne fun t ht => (hts t ht).2]
  exact List.forall_mem_append.mpr ⟨fun t ht => (hts t ht).1, hrest⟩

/-- Without error tokens there is one diagnostic for each failure. -/
theorem single_diagnostic_iff {ts : List Token} (h : errorTokens ts = []) :
    (∃ d, (Program.ofTokens ts).diagnostics = [d] ∧ d.category = .syntactic) ↔
      ((steps (usable ts)).filterMap Step.failure?).length = 1 := by
  have hself := ofCategory_syntactic_eq_self h
  have hlen : (Program.ofTokens ts).diagnostics.length =
      ((steps (usable ts)).filterMap Step.failure?).length := by
    rw [← hself, ofCategory_syntactic, List.length_mergeSort, List.length_map, errors_eq_map,
      List.length_map]
  rw [← hlen, List.length_eq_one_iff]
  constructor
  · rintro ⟨d, hd, -⟩
    exact ⟨d, hd⟩
  · rintro ⟨d, hd⟩
    have hmem : d ∈ (Program.ofTokens ts).diagnostics := hd ▸ List.mem_singleton_self d
    rw [← hself] at hmem
    exact ⟨d, hd, of_decide_eq_true (List.mem_filter.mp hmem).2⟩

/-! ## The whole program -/

/-- The declaration that is spoiled gives a failure, and reading goes on where recovery stops. -/
theorem steps_damaged (h : Declaration (front ++ c :: back) s []) (hp : p.kind = .print)
    (hc : c.kind = .blockClose) (hpost : Fresh post) :
    ∃ f rest, (steps (front ++ p :: c :: (back ++ post))).filterMap Step.stmt? =
        (steps rest).filterMap Step.stmt? ∧
      (steps (front ++ p :: c :: (back ++ post))).filterMap Step.failure? =
        f :: (steps rest).filterMap Step.failure? ∧
      if ¬ LinkBehind front (c :: back) ∧ trailing (c :: back) ≤ 1 then rest = post
      else ∃ t ts, rest = t :: ts ∧ t ∈ c :: back := by
  have hbehind := h.behind rfl hc (List.append_nil back).symm
  have hfront := ne_nil_of_behind hbehind
  obtain ⟨k, hk, hstop⟩ := synchronize_behind hbehind hpost
  obtain ⟨f, hf, hdepth, hrest⟩ := declaration_damaged h hp hc hfront post
  have hrecover := recover_damaged (k := k) hrest (by omega) hp front
  obtain ⟨t, ts, rfl⟩ := List.exists_cons_of_ne_nil hfront
  simp only [List.cons_append] at hf hrecover hstop ⊢
  have hstmts := stmts_of_error hf
  have hfailures := failures_of_error hf
  rw [hrecover] at hstmts hfailures
  exact ⟨f, _, hstmts, hfailures, hstop⟩

theorem proper_damaged (h : Declaration (front ++ c :: back) s []) (hp : p.kind = .print) :
    ∀ t ∈ front ++ p :: c :: back, Proper t := by
  obtain ⟨own, hown, hwhole⟩ := h.takes
  rw [List.append_nil] at hown
  intro t ht
  simp only [List.mem_append, List.mem_cons] at ht
  rcases ht with ht | rfl | ht
  · exact hwhole.proper t (hown ▸ by simp [ht])
  · exact ⟨by rw [hp]; decide, by rw [hp]; decide⟩
  · exact hwhole.proper t (hown ▸ by simp [ht])

/-- The declarations before the damage are read as if they were alone, whatever follows. -/
theorem steps_before {pre : List Token} (hpre : (Program.ofTokens pre).diagnostics = [])
    (hproper : ∀ t ∈ pre, Proper t) (hbad : Declaration (front ++ c :: back) s [])
    (hc : c.kind = .blockClose) (hbefore : ∀ t ∈ pre, ∀ u ∈ front, t.line < u.line)
    (rest : List Token) :
    (steps (pre ++ (front ++ rest))).filterMap Step.stmt? =
        (Program.ofTokens pre).program.declarations ++
          (steps (front ++ rest)).filterMap Step.stmt? ∧
      (steps (pre ++ (front ++ rest))).filterMap Step.failure? =
        (steps (front ++ rest)).filterMap Step.failure? := by
  obtain ⟨first, front, rfl⟩ := List.exists_cons_of_ne_nil
    (ne_nil_of_behind (hbad.behind rfl hc (List.append_nil back).symm))
  obtain ⟨_, _, hts, hafresh⟩ := (hbad.compound (not_flat rfl hc (List.append_nil back).symm)).1
  obtain ⟨rfl, -⟩ := List.cons.inj hts
  have hbare : ∀ k ∈ pre, Bare k (first :: front ++ rest) := by
    rintro k hk t ⟨⟩
    exact .inr (.inr (hbefore k hk first List.mem_cons_self))
  have hnone := (diagnostics_eq_nil_iff.mp hpre).2
  have hread : (Program.ofTokens pre).program.declarations = (steps pre).filterMap Step.stmt? := by
    rw [program_ofTokens, usable_eq_self hproper]
  rw [usable_eq_self hproper] at hnone
  rw [hread]
  exact steps_append ⟨first, front ++ rest, rfl, hafresh⟩ pre.length (Nat.le_refl _) hbare hnone

/-- Between the programs `pre` and `post`, the tokens `bad` cost one diagnostic, and what is read is
what the programs have. -/
def CostsOne (pre bad post : List Token) : Prop :=
  (∃ d, (Program.ofTokens (pre ++ bad ++ post)).diagnostics = [d] ∧ d.category = .syntactic) ∧
    (Program.ofTokens (pre ++ bad ++ post)).program.declarations =
      (Program.ofTokens pre).program.declarations ++ (Program.ofTokens post).program.declarations

/-- **When a `print` with nothing behind it costs one diagnostic and one declaration.** The tokens
`front ++ c :: back` are a declaration, and the `print` is put before the end `c` of one of its
blocks. The tokens `pre`, which do not end the input, and `post` are programs on earlier and on
later lines. They are read as if the declaration were not there, exactly if two things do not stand
behind the damage: a link of an else-if chain that is not inside of a block, and a second
semicolon at the end of the declaration. -/
theorem ofTokens_damaged {pre post front back : List Token} {p c : Token} {s : Stmt}
    (hpre : (Program.ofTokens pre).diagnostics = []) (hend : ∀ t ∈ pre, t.kind ≠ .endOfInput)
    (hpost : (Program.ofTokens post).diagnostics = [])
    (hbad : Declaration (front ++ c :: back) s []) (hc : c.kind = .blockClose)
    (hp : p.kind = .print) (hbefore : ∀ t ∈ pre, ∀ u ∈ front ++ p :: c :: back, t.line < u.line)
    (hbehind : ∀ t ∈ front ++ p :: c :: back, ∀ u ∈ post, t.line < u.line) :
    CostsOne pre (front ++ p :: c :: back) post ↔
      ¬ LinkBehind front (c :: back) ∧ trailing (c :: back) ≤ 1 := by
  have hproper := proper_of_diagnostics hpre hend
  have hall := List.forall_mem_append.mpr ⟨hproper, proper_damaged hbad hp⟩
  have husable : usable (pre ++ (front ++ p :: c :: back) ++ post) =
      pre ++ (front ++ p :: c :: (back ++ usable post)) := by
    rw [usable_append_of_proper hall]
    simp
  have hfresh : Fresh (usable post) :=
    continues_declarations.fresh ⟨_, rfl, (derives_of_diagnostics hpost).2⟩
  have hnone := (diagnostics_eq_nil_iff.mp hpost).2
  obtain ⟨hstmts, hfailures⟩ := steps_before hpre hproper hbad hc
    (fun t ht u hu => hbefore t ht u (List.mem_append_left _ hu)) (p :: c :: (back ++ usable post))
  obtain ⟨f, rest, hstmts', hfailures', hstop⟩ := steps_damaged hbad hp hc hfresh
  rw [CostsOne, single_diagnostic_iff (errorTokens_append_of_proper hall hpost)]
  simp only [program_ofTokens] at hstmts ⊢
  rw [husable, hstmts, hfailures, hstmts', hfailures', List.append_cancel_left_eq,
    List.length_cons, Nat.add_eq_right, List.length_eq_zero_iff]
  split at hstop
  case isTrue hcond =>
    rw [hstop]
    exact ⟨fun _ => hcond, fun _ => ⟨hnone, rfl⟩⟩
  case isFalse hcond =>
    -- what is read where recovery stops starts on a line of the damage
    obtain ⟨t, ts, rfl, ht⟩ := hstop
    refine ⟨fun ⟨hrest, hsame⟩ => ?_, fun h => absurd h hcond⟩
    refine absurd hsame (stmts_ne_of_line_lt hrest hnone fun u hu => ?_)
    exact hbehind t (List.mem_append_right _ (List.mem_cons_of_mem p ht)) u
      ((List.takeWhile_sublist _).mem (List.mem_filter.mp hu).1)

/-- The first link of an else-if chain, up to the end of its block. -/
def firstLink : List Token :=
  [⟨.branch, "redstone_if", none, 2⟩, ⟨.torchOn, "torch_on", none, 2⟩,
   ⟨.blockOpen, "crafting_table", none, 2⟩]

/-- The second link of that chain. -/
def secondLink : List Token :=
  [⟨.otherwise, "slime_else", none, 3⟩, ⟨.branch, "redstone_if", none, 3⟩,
   ⟨.torchOff, "torch_off", none, 3⟩, ⟨.blockOpen, "crafting_table", none, 3⟩]

/-- The start of a loop around the chain. -/
def loopHead : List Token :=
  [⟨.loop, "piston_loop", none, 2⟩, ⟨.torchOn, "torch_on", none, 2⟩,
   ⟨.blockOpen, "crafting_table", none, 2⟩]

/-- A return, whose value would stand on the same line. -/
def returnAbove : List Token := [⟨.giveBack, "nether_return", none, 1⟩]

/-- What stands on the lines below. -/
def printBelow : List Token :=
  [⟨.print, "print", none, 4⟩, ⟨.torchOn, "torch_on", none, 4⟩, .endOfInput 4]

/-- The end of a block, on the last line of the chain. -/
def blockEnd : Token := ⟨.blockClose, "end_portal", none, 3⟩

/-- The damage: a `print` with nothing behind it. -/
def lonePrint : Token := ⟨.print, "print", none, 3⟩

/-- The semicolons that end the declaration. -/
def semicolons (n : Nat) : List Token := List.replicate n ⟨.semicolon, ";", none, 3⟩

/-- Inside of a loop, the rest of the chain is skipped with the loop. -/
theorem costsOne_insideLoop :
    (∃ s, Declaration (loopHead ++ firstLink ++
      blockEnd :: (secondLink ++ blockEnd :: blockEnd :: semicolons 1)) s []) ∧
    CostsOne returnAbove (loopHead ++ firstLink ++
      lonePrint :: blockEnd :: (secondLink ++ blockEnd :: blockEnd :: semicolons 1))
      printBelow := by
  have hbad : Declaration (loopHead ++ firstLink ++
      blockEnd :: (secondLink ++ blockEnd :: blockEnd :: semicolons 1)) _ [] :=
    declaration_sound rfl
  refine ⟨⟨_, hbad⟩, (ofTokens_damaged ?_ ?_ ?_ hbad rfl rfl ?_ ?_).mpr ?_⟩
  all_goals decide +kernel

/-- Outside of all blocks, the second link is read as a declaration of its own, and after damage in
the last link the second of two semicolons is reported as well. -/
theorem not_costsOne_chain :
    (Program.ofTokens returnAbove).diagnostics = [] ∧
    (Program.ofTokens printBelow).diagnostics = [] ∧
    (∃ s, Declaration (firstLink ++ blockEnd :: (secondLink ++ [blockEnd])) s []) ∧
    ¬ CostsOne returnAbove (firstLink ++ lonePrint :: blockEnd :: (secondLink ++ [blockEnd]))
      printBelow ∧
    (∃ s, Declaration (firstLink ++ blockEnd :: secondLink ++
      blockEnd :: semicolons 2) s []) ∧
    ¬ CostsOne returnAbove (firstLink ++ blockEnd :: secondLink ++
      lonePrint :: blockEnd :: semicolons 2) printBelow := by
  refine ⟨by decide +kernel, by decide +kernel, ⟨_, declaration_sound rfl⟩, fun h => ?_,
    ⟨_, declaration_sound rfl⟩, fun h => ?_⟩
  · have hlen := congrArg List.length h.2
    revert hlen
    decide +kernel
  · have hlen := (single_diagnostic_iff (by decide +kernel)).mp h.1
    revert hlen
    decide +kernel

end BlockScript.Parser
