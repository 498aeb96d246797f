import BlockScript.Text.Utf8

/-!
# Characters and their bytes

What is read from bytes that encode a text is that text. Bytes that encode nothing are read as well,
and even then no line break is lost or made up.

* `two?_iff`, `three?_iff`, `four?_iff`: the well-formed sequences, by the numbers in them.
* `lead_cases`: how the first character of a byte sequence is read.
* **`count_decode`**: the line breaks are the bytes that stand for one.
* **`decode_toUTF8`**: reading undoes encoding.
-/

namespace BlockScript.Text.Utf8

/-! ## Well-formed sequences -/

theorem continuation?_iff {b : UInt8} {y : Nat} :
    continuation? b = some y ↔ (128 ≤ b.toNat ∧ b.toNat < 192) ∧ b.toNat - 128 = y := by
  unfold continuation?
  simp only [Option.ite_none_right_eq_some, Bool.and_eq_true, decide_eq_true_eq,
    UInt8.le_iff_toNat_le, UInt8.lt_iff_toNat_lt, UInt8.reduceToNat, Option.some.injEq]

theorem two?_iff {a b₁ : UInt8} {c : Char} : two? a b₁ = some c ↔
    ∃ y, continuation? b₁ = some y ∧ (194 ≤ a.toNat ∧ a.toNat < 224) ∧
      Char.ofNat ((a.toNat - 192) * 64 + y) = c := by
  unfold two?
  simp only [bind, Option.bind_eq_some_iff, Option.ite_none_right_eq_some, Bool.and_eq_true,
    decide_eq_true_eq, UInt8.le_iff_toNat_le, UInt8.lt_iff_toNat_lt, UInt8.reduceToNat,
    Option.some.injEq]

theorem three?_iff {a b₁ b₂ : UInt8} {c : Char} : three? a b₁ b₂ = some c ↔
    ∃ y, continuation? b₁ = some y ∧ ∃ z, continuation? b₂ = some z ∧ ∃ n,
      n = (a.toNat - 224) * 4096 + y * 64 + z ∧ (224 ≤ a.toNat ∧ a.toNat < 240) ∧
      (2048 ≤ n ∧ ¬ (55296 ≤ n ∧ n < 57344)) ∧ Char.ofNat n = c := by
  unfold three?
  simp only [bind, Option.bind_eq_some_iff, Option.ite_none_right_eq_some, Bool.and_eq_true,
    decide_eq_true_eq, UInt8.le_iff_toNat_le, UInt8.lt_iff_toNat_lt, UInt8.reduceToNat,
    Option.some.injEq, exists_eq_left, and_assoc, Bool.not_eq_true', Bool.and_eq_false_iff,
    decide_eq_false_iff_not, Decidable.not_and_iff_not_or_not]

theorem four?_iff {a b₁ b₂ b₃ : UInt8} {c : Char} : four? a b₁ b₂ b₃ = some c ↔
    ∃ y, continuation? b₁ = some y ∧ ∃ z, continuation? b₂ = some z ∧
      ∃ w, continuation? b₃ = some w ∧ ∃ n,
      n = (a.toNat - 240) * 262144 + y * 4096 + z * 64 + w ∧ (240 ≤ a.toNat ∧ a.toNat < 245) ∧
      (65536 ≤ n ∧ n < 1114112) ∧ Char.ofNat n = c := by
  unfold four?
  simp only [bind, Option.bind_eq_some_iff, Option.ite_none_right_eq_some, Bool.and_eq_true,
    decide_eq_true_eq, UInt8.le_iff_toNat_le, UInt8.lt_iff_toNat_lt, UInt8.reduceToNat,
    Option.some.injEq, exists_eq_left, and_assoc]

/-! ## One character -/

theorem lead_of_lt {a : UInt8} (h : a.toNat < 128) (rest : List UInt8) :
    lead a rest = (Char.ofNat a.toNat, 0) := by
  have ha : a < 0x80 := UInt8.lt_iff_toNat_lt.mpr h
  unfold lead
  rw [if_pos ha]

theorem not_ascii {a : UInt8} (h : 128 ≤ a.toNat) : ¬ a < 0x80 := by
  rw [UInt8.lt_iff_toNat_lt]
  exact Nat.not_lt.mpr h

theorem lead_two {a b₁ : UInt8} {c : Char} (ha : 128 ≤ a.toNat) (h : two? a b₁ = some c)
    (rest : List UInt8) : lead a (b₁ :: rest) = (c, 1) := by
  unfold lead
  rw [if_neg (not_ascii ha)]
  dsimp only [List.getElem?_cons_zero, Option.bind_some]
  rw [h]

theorem lead_three {a b₁ b₂ : UInt8} {c : Char} (ha : 128 ≤ a.toNat) (hnone : two? a b₁ = none)
    (h : three? a b₁ b₂ = some c) (rest : List UInt8) : lead a (b₁ :: b₂ :: rest) = (c, 2) := by
  unfold lead
  rw [if_neg (not_ascii ha)]
  dsimp only [List.getElem?_cons_zero, List.getElem?_cons_succ, Option.bind_some]
  rw [hnone, h]

theorem lead_four {a b₁ b₂ b₃ : UInt8} {c : Char} (ha : 128 ≤ a.toNat) (hnone : two? a b₁ = none)
    (hnone' : three? a b₁ b₂ = none) (h : four? a b₁ b₂ b₃ = some c) (rest : List UInt8) :
    lead a (b₁ :: b₂ :: b₃ :: rest) = (c, 3) := by
  unfold lead
  rw [if_neg (not_ascii ha)]
  dsimp only [List.getElem?_cons_zero, List.getElem?_cons_succ, Option.bind_some]
  rw [hnone, hnone', h]

theorem eq_cons_of_getElem? {rest : List UInt8} {b : UInt8} (h : rest[0]? = some b) :
    ∃ more, rest = b :: more := by
  cases rest with
  | nil => cases h
  | cons b' more =>
    cases h
    exact ⟨more, rfl⟩

/-- A character of more than one byte, or a byte that starts none. -/
theorem lead_cases {a : UInt8} (ha : 128 ≤ a.toNat) (rest : List UInt8) :
    (∃ b₁ more c, rest = b₁ :: more ∧ two? a b₁ = some c ∧ lead a rest = (c, 1)) ∨
    (∃ b₁ b₂ more c, rest = b₁ :: b₂ :: more ∧ three? a b₁ b₂ = some c ∧ lead a rest = (c, 2)) ∨
    (∃ b₁ b₂ b₃ more c, rest = b₁ :: b₂ :: b₃ :: more ∧ four? a b₁ b₂ b₃ = some c ∧
      lead a rest = (c, 3)) ∨
    lead a rest = (replacement, 0) := by
  unfold lead
  rw [if_neg (not_ascii ha)]
  dsimp only
  cases htwo : rest[0]?.bind (two? a) with
  | some c =>
    obtain ⟨b₁, h₁, h⟩ := Option.bind_eq_some_iff.mp htwo
    obtain ⟨more, rfl⟩ := eq_cons_of_getElem? h₁
    exact .inl ⟨b₁, more, c, rfl, h, rfl⟩
  | none =>
    cases hthree : rest[0]?.bind fun b => rest[1]?.bind (three? a b) with
    | some c =>
      obtain ⟨b₁, h₁, h⟩ := Option.bind_eq_some_iff.mp hthree
      obtain ⟨b₂, h₂, h⟩ := Option.bind_eq_some_iff.mp h
      obtain ⟨more, rfl⟩ := eq_cons_of_getElem? h₁
      obtain ⟨more, rfl⟩ := eq_cons_of_getElem? h₂
      exact .inr (.inl ⟨b₁, b₂, more, c, rfl, h, rfl⟩)
    | none =>
      cases hfour : rest[0]?.bind fun b => rest[1]?.bind fun c => rest[2]?.bind (four? a b c) with
      | some c =>
        obtain ⟨b₁, h₁, h⟩ := Option.bind_eq_some_iff.mp hfour
        obtain ⟨b₂, h₂, h⟩ := Option.bind_eq_some_iff.mp h
        obtain ⟨b₃, h₃, h⟩ := Option.bind_eq_some_iff.mp h
        obtain ⟨more, rfl⟩ := eq_cons_of_getElem? h₁
        obtain ⟨more, rfl⟩ := eq_cons_of_getElem? h₂
        obtain ⟨more, rfl⟩ := eq_cons_of_getElem? h₃
        exact .inr (.inr (.inl ⟨b₁, b₂, b₃, more, c, rfl, h, rfl⟩))
      | none => exact .inr (.inr (.inr rfl))

/-! ## Line breaks -/

/-- The byte that stands for a line break. -/
def newline : UInt8 := 10

theorem ofNat_eq_newline {n : Nat} (h : Char.ofNat n = '\n') : n = 10 := by
  unfold Char.ofNat at h
  by_cases hn : n.isValidChar
  · rw [dif_pos hn] at h
    exact congrArg Char.toNat h
  · rw [dif_neg hn] at h
    cases h

theorem ne_newline_of_continuation {b : UInt8} {y : Nat} (h : continuation? b = some y) :
    b ≠ newline := by
  rintro rfl
  cases h

theorem ofNat_ne_newline {n : Nat} (h : 128 ≤ n) : Char.ofNat n ≠ '\n' := by
  intro hn
  have := ofNat_eq_newline hn
  omega

/-- Only the byte for it is read as a line break, and no such byte is read as a part of another
character. -/
theorem lead_newline (a : UInt8) (rest : List UInt8) : ((lead a rest).1 = '\n' ↔ a = newline) ∧
    newline ∉ rest.take (lead a rest).2 := by
  by_cases ha : a.toNat < 128
  · rw [lead_of_lt ha]
    refine ⟨⟨fun h => ?_, fun h => by rw [h]; rfl⟩, List.not_mem_nil⟩
    exact UInt8.toNat_inj.mp (ofNat_eq_newline h)
  · have hge : 128 ≤ a.toNat := Nat.le_of_not_lt ha
    have hne : a ≠ newline := by
      rintro rfl
      exact ha (by decide)
    -- no character of more than one byte has a number as small as that of a line break
    rcases lead_cases hge rest with ⟨b₁, more, c, rfl, h, hlead⟩ |
      ⟨b₁, b₂, more, c, rfl, h, hlead⟩ | ⟨b₁, b₂, b₃, more, c, rfl, h, hlead⟩ | hlead
    · obtain ⟨y, hy, hbounds, rfl⟩ := two?_iff.mp h
      rw [hlead]
      have hc := ofNat_ne_newline (n := (a.toNat - 192) * 64 + y) (by omega)
      refine ⟨iff_of_false hc hne, ?_⟩
      simpa using (ne_newline_of_continuation hy).symm
    · obtain ⟨y, hy, z, hz, n, -, -, hbounds, rfl⟩ := three?_iff.mp h
      rw [hlead]
      refine ⟨iff_of_false (ofNat_ne_newline (by omega)) hne, ?_⟩
      simpa using ⟨(ne_newline_of_continuation hy).symm, (ne_newline_of_continuation hz).symm⟩
    · obtain ⟨y, hy, z, hz, v, hv, n, -, -, hbounds, rfl⟩ := four?_iff.mp h
      rw [hlead]
      refine ⟨iff_of_false (ofNat_ne_newline (by omega)) hne, ?_⟩
      simpa using ⟨(ne_newline_of_continuation hy).symm, (ne_newline_of_continuation hz).symm,
        (ne_newline_of_continuation hv).symm⟩
    · rw [hlead]
      exact ⟨iff_of_false (by decide) hne, List.not_mem_nil⟩

theorem count_decodeFrom (skip : Nat) (bytes : List UInt8) :
    (decodeFrom skip bytes).count '\n' = (bytes.drop skip).count newline := by
  induction bytes generalizing skip with
  | nil => simp [decodeFrom]
  | cons a rest ih =>
    cases skip with
    | succ skip => exact ih skip
    | zero =>
      obtain ⟨hlead, hskipped⟩ := lead_newline a rest
      have hrest : rest.count newline = (rest.drop (lead a rest).2).count newline := by
        conv => lhs; rw [← List.take_append_drop (lead a rest).2 rest]
        rw [List.count_append, List.count_eq_zero.mpr hskipped, Nat.zero_add]
      rw [decodeFrom, List.drop_zero, List.count_cons, List.count_cons, ih, hrest]
      simp only [beq_iff_eq, hlead]

/-- **The line breaks in a text are the bytes for them.** -/
theorem count_decode (bytes : List UInt8) :
    (decode bytes).toList.count '\n' = bytes.count newline := by
  unfold decode
  rw [String.toList_ofList, count_decodeFrom, List.drop_zero]

/-! ## Encoded texts -/

-- the bound is a numeral here, since `omega` does not look into `UInt8.size`
theorem toNat_ofNat {n : Nat} (h : n < 256) : (UInt8.ofNat n).toNat = n :=
  UInt8.toNat_ofNat_of_lt' h

theorem continuation?_ofNat {n : Nat} (h : n < 64) :
    continuation? (UInt8.ofNat (n + 128)) = some n := by
  rw [continuation?_iff, toNat_ofNat (by omega)]
  omega

/-- The lead byte of a longer sequence starts none of two bytes. -/
theorem two?_eq_none {a b₁ : UInt8} (h : 224 ≤ a.toNat) : two? a b₁ = none := by
  rw [Option.eq_none_iff_forall_ne_some]
  intro c hc
  obtain ⟨y, -, hbounds, -⟩ := two?_iff.mp hc
  omega

theorem three?_eq_none {a b₁ b₂ : UInt8} (h : 240 ≤ a.toNat) : three? a b₁ b₂ = none := by
  rw [Option.eq_none_iff_forall_ne_some]
  intro c hc
  obtain ⟨y, -, z, -, n, -, hbounds, -⟩ := three?_iff.mp hc
  omega

theorem two?_ofNat {v : Nat} (hlow : 128 ≤ v) (hhigh : v < 2048) :
    two? (UInt8.ofNat (v / 64 % 32 + 192)) (UInt8.ofNat (v % 64 + 128)) = some (Char.ofNat v) := by
  have hv : (v / 64 % 32 + 192 - 192) * 64 + v % 64 = v := by omega
  rw [two?_iff, toNat_ofNat (by omega)]
  refine ⟨v % 64, continuation?_ofNat (by omega), by omega, ?_⟩
  rw [hv]

theorem three?_ofNat {v : Nat} (hlow : 2048 ≤ v) (hhigh : v < 65536) (hvalid : v.isValidChar) :
    three? (UInt8.ofNat (v / 4096 % 16 + 224)) (UInt8.ofNat (v / 64 % 64 + 128))
      (UInt8.ofNat (v % 64 + 128)) = some (Char.ofNat v) := by
  have hv : v = (v / 4096 % 16 + 224 - 224) * 4096 + v / 64 % 64 * 64 + v % 64 := by omega
  rw [three?_iff, toNat_ofNat (by omega)]
  exact ⟨v / 64 % 64, continuation?_ofNat (by omega), v % 64, continuation?_ofNat (by omega), v, hv,
    by omega, by omega, rfl⟩

theorem four?_ofNat {v : Nat} (hlow : 65536 ≤ v) (hvalid : v.isValidChar) :
    four? (UInt8.ofNat (v / 262144 % 8 + 240)) (UInt8.ofNat (v / 4096 % 64 + 128))
      (UInt8.ofNat (v / 64 % 64 + 128)) (UInt8.ofNat (v % 64 + 128)) = some (Char.ofNat v) := by
  have hv : v = (v / 262144 % 8 + 240 - 240) * 262144 + v / 4096 % 64 * 4096 +
      v / 64 % 64 * 64 + v % 64 := by omega
  rw [four?_iff, toNat_ofNat (by omega)]
  exact ⟨v / 4096 % 64, continuation?_ofNat (by omega), v / 64 % 64, continuation?_ofNat (by omega),
    v % 64, continuation?_ofNat (by omega), v, hv, by omega, by omega, rfl⟩

/-- **The bytes of a character are read as that character**, whatever follows them. -/
theorem decodeFrom_utf8EncodeChar (c : Char) (rest : List UInt8) :
    decodeFrom 0 (String.utf8EncodeChar c ++ rest) = c :: decodeFrom 0 rest := by
  have hvalid : c.toNat.isValidChar := c.valid
  have hc : Char.ofNat c.toNat = c := c.ofNat_toNat
  unfold String.utf8EncodeChar
  dsimp only
  rw [Char.toNat_val]
  generalize c.toNat = v at hvalid hc
  subst hc
  by_cases h₁ : v ≤ 127
  · have hv : (UInt8.ofNat v).toNat = v := toNat_ofNat (by omega)
    rw [if_pos h₁, List.singleton_append, decodeFrom, lead_of_lt (by omega), hv]
  rw [if_neg h₁]
  by_cases h₂ : v ≤ 2047
  · have ha : (UInt8.ofNat (v / 64 % 32 + 192)).toNat = v / 64 % 32 + 192 := toNat_ofNat (by omega)
    rw [if_pos h₂, List.cons_append, decodeFrom, List.cons_append,
      lead_two (by omega) (two?_ofNat (by omega) (by omega))]
    rfl
  rw [if_neg h₂]
  by_cases h₃ : v ≤ 65535
  · have ha : (UInt8.ofNat (v / 4096 % 16 + 224)).toNat = v / 4096 % 16 + 224 :=
      toNat_ofNat (by omega)
    rw [if_pos h₃, List.cons_append, decodeFrom, List.cons_append, List.cons_append,
      lead_three (by omega) (two?_eq_none (by omega)) (three?_ofNat (by omega) (by omega) hvalid)]
    rfl
  · have ha : (UInt8.ofNat (v / 262144 % 8 + 240)).toNat = v / 262144 % 8 + 240 :=
      toNat_ofNat (by omega)
    rw [if_neg h₃, List.cons_append, decodeFrom, List.cons_append, List.cons_append,
      List.cons_append, lead_four (by omega) (two?_eq_none (by omega))
        (three?_eq_none (by omega)) (four?_ofNat (by omega) hvalid)]
    rfl

/-- **Reading undoes encoding.** -/
theorem decode_toUTF8 (text : String) : decode text.toUTF8.data.toList = text := by
  have hbytes : text.toUTF8.data.toList = text.toList.flatMap String.utf8EncodeChar := by
    change text.toByteArray.data.toList = _
    rw [← String.utf8Encode_toList]
    unfold List.utf8Encode
    rw [List.data_toByteArray]
  have hall (cs : List Char) : decodeFrom 0 (cs.flatMap String.utf8EncodeChar) = cs := by
    induction cs with
    | nil => rfl
    | cons c cs ih => rw [List.flatMap_cons, decodeFrom_utf8EncodeChar, ih]
  unfold decode
  rw [hbytes, hall, String.ofList_toList]

end BlockScript.Text.Utf8
