import AdminPanel.Proofs.Json.Grammar

/-! # Strings against the grammar

What the string reader takes off the front of a text is a spelling of what it returns (`_sound`),
and a spelling in front of any text is taken off whole (`_append`), escapes and surrogate pairs
included. -/
namespace AdminPanel.Json

/-! ## Code units -/

theorem readUnit?_append {digits : List Char} {unit : Nat} (h : UnitSpelling digits unit)
    (rest : List Char) : readUnit? (digits ++ rest) = some (unit, rest) := by
  cases h with
  | digits ha hb hc hd => simp [readUnit?, ha, hb, hc, hd]

theorem readUnit?_sound {cs rest : List Char} {unit : Nat} (h : readUnit? cs = some (unit, rest)) :
    ∃ digits, UnitSpelling digits unit ∧ cs = digits ++ rest := by
  unfold readUnit? at h
  split at h
  · simp only [Option.bind_eq_bind, Option.bind_eq_some_iff, Option.pure_def, Option.some.injEq,
      Prod.mk.injEq] at h
    obtain ⟨x, ha, y, hb, z, hc, w, hd, rfl, rfl⟩ := h
    exact ⟨_, .digits ha hb hc hd, rfl⟩
  · cases h

theorem UnitSpelling.lt {digits : List Char} {unit : Nat} (h : UnitSpelling digits unit) :
    unit < 0x10000 := by
  cases h with
  | digits ha hb hc hd =>
    have := Text.hexDigit?_lt ha
    have := Text.hexDigit?_lt hb
    have := Text.hexDigit?_lt hc
    have := Text.hexDigit?_lt hd
    omega

theorem toNat_ofNat {n : Nat} (h : n < 0xD800 ∨ 0xDFFF < n ∧ n < 0x110000) :
    (Char.ofNat n).toNat = n := by
  have hv : n.isValidChar := h
  rw [Char.ofNat, dif_pos hv]
  rfl

theorem toNat_not_surrogate (c : Char) : c.toNat < 0xD800 ∨ 0xDFFF < c.toNat ∧ c.toNat < 0x110000 :=
  c.valid

theorem isHighSurrogate_iff {unit : Nat} :
    isHighSurrogate unit = true ↔ 0xD800 ≤ unit ∧ unit ≤ 0xDBFF := by simp [isHighSurrogate]

theorem isLowSurrogate_iff {unit : Nat} :
    isLowSurrogate unit = true ↔ 0xDC00 ≤ unit ∧ unit ≤ 0xDFFF := by simp [isLowSurrogate]

theorem mem_shortEscapes {name c : Char} :
    (name, c) ∈ shortEscapes ↔ shortEscape? name = some c := by
  constructor
  · intro h
    simp only [shortEscapes, List.mem_cons, Prod.mk.injEq, List.not_mem_nil, or_false] at h
    rcases h with ⟨rfl, rfl⟩ | ⟨rfl, rfl⟩ | ⟨rfl, rfl⟩ | ⟨rfl, rfl⟩ | ⟨rfl, rfl⟩ | ⟨rfl, rfl⟩ |
      ⟨rfl, rfl⟩ | ⟨rfl, rfl⟩ <;> rfl
  · intro h
    unfold shortEscape? at h
    split at h <;> cases h <;> simp [shortEscapes]

/-- What a hexadecimal escape may be: one code unit, or the two halves of a surrogate pair. -/
theorem readHexEscape?_sound {cs rest : List Char} {c : Char}
    (h : readHexEscape? cs = some (c, rest)) :
    ∃ first, CharSpelling c ('\\' :: 'u' :: first) ∧ cs = first ++ rest := by
  simp only [readHexEscape?, Option.bind_eq_bind, Option.bind_eq_some_iff, Prod.exists] at h
  obtain ⟨unit, middle, hu, h⟩ := h
  obtain ⟨digits, hd, rfl⟩ := readUnit?_sound hu
  split at h
  · rename_i hhigh
    split at h
    · rename_i more
      simp only [Option.bind_eq_some_iff, Prod.exists] at h
      obtain ⟨low, last, hl, h⟩ := h
      obtain ⟨lowDigits, hld, rfl⟩ := readUnit?_sound hl
      split at h
      · rename_i hlow
        simp only [Option.pure_def, Option.some.injEq, Prod.mk.injEq] at h
        obtain ⟨rfl, rfl⟩ := h
        obtain ⟨h1, h2⟩ := isHighSurrogate_iff.mp hhigh
        obtain ⟨h3, h4⟩ := isLowSurrogate_iff.mp hlow
        refine ⟨digits ++ '\\' :: 'u' :: lowDigits, .pair hd hld h1 h2 h3 h4 ?_, by simp⟩
        exact toNat_ofNat (by omega)
      · cases h
    · cases h
  · rename_i hhigh
    split at h
    · cases h
    · rename_i hlow
      simp only [Option.pure_def, Option.some.injEq, Prod.mk.injEq] at h
      obtain ⟨rfl, rfl⟩ := h
      rw [isHighSurrogate_iff] at hhigh
      rw [isLowSurrogate_iff] at hlow
      have hlt := hd.lt
      have hc : (Char.ofNat unit).toNat = unit := toNat_ofNat (by omega)
      exact ⟨digits, .unit (by rw [hc]; exact hd), rfl⟩

theorem readHexEscape?_unit {c : Char} {digits : List Char} (h : UnitSpelling digits c.toNat)
    (rest : List Char) : readHexEscape? (digits ++ rest) = some (c, rest) := by
  have hu := readUnit?_append h rest
  have hs := toNat_not_surrogate c
  have hh : isHighSurrogate c.toNat = false := by simp [isHighSurrogate]; omega
  have hl : isLowSurrogate c.toNat = false := by simp [isLowSurrogate]; omega
  simp [readHexEscape?, hu, hh, hl, Char.ofNat_toNat]

theorem readHexEscape?_pair {c : Char} {highDigits lowDigits : List Char} {high low : Nat}
    (hh : UnitSpelling highDigits high) (hl : UnitSpelling lowDigits low)
    (h1 : 0xD800 ≤ high) (h2 : high ≤ 0xDBFF) (h3 : 0xDC00 ≤ low) (h4 : low ≤ 0xDFFF)
    (hc : c.toNat = 0x10000 + 1024 * (high - 0xD800) + (low - 0xDC00)) (rest : List Char) :
    readHexEscape? (highDigits ++ '\\' :: 'u' :: (lowDigits ++ rest)) = some (c, rest) := by
  have hu := readUnit?_append hh ('\\' :: 'u' :: (lowDigits ++ rest))
  have hv := readUnit?_append hl rest
  have hs : ofSurrogates high low = c := by
    rw [ofSurrogates, ← hc, Char.ofNat_toNat]
  simp [readHexEscape?, hu, hv, isHighSurrogate_iff.mpr ⟨h1, h2⟩, isLowSurrogate_iff.mpr ⟨h3, h4⟩,
    hs]

/-! ## Characters and strings -/

theorem readChar?_sound {cs rest : List Char} {c : Char} (h : readChar? cs = some (c, rest)) :
    ∃ first, CharSpelling c first ∧ cs = first ++ rest := by
  unfold readChar? at h
  split at h
  · obtain ⟨first, hf, rfl⟩ := readHexEscape?_sound h
    exact ⟨_, hf, rfl⟩
  · rename_i name rest' _
    obtain ⟨named, hn, he⟩ := Option.map_eq_some_iff.mp h
    simp only [Prod.mk.injEq] at he
    obtain ⟨rfl, rfl⟩ := he
    exact ⟨['\\', name], .short (mem_shortEscapes.mpr hn), rfl⟩
  · split at h
    · cases h
    · rename_i hc
      simp only [Option.some.injEq, Prod.mk.injEq] at h
      obtain ⟨rfl, rfl⟩ := h
      simp only [not_or, Nat.not_lt] at hc
      exact ⟨[_], .raw hc.1 hc.2.1 hc.2.2, rfl⟩
  · cases h

/-- A backslash is read by the letter behind it. -/
theorem readChar?_escape {name c : Char} (h : shortEscape? name = some c) (rest : List Char) :
    readChar? ('\\' :: name :: rest) = some (c, rest) := by
  unfold readChar?
  split
  · rename_i he
    injection he with _ he
    injection he with he _
    subst he
    cases h
  · rename_i he
    injection he with _ he
    injection he with hn hr
    subst hn hr
    rw [h]
    rfl
  · rename_i hne he
    injection he with h1 h2
    exact (hne _ _ h1.symm h2.symm).elim
  · rename_i he
    cases he

theorem readChar?_raw {c : Char} (hq : c ≠ '"') (hb : c ≠ '\\') (hc : 0x20 ≤ c.toNat)
    (rest : List Char) : readChar? (c :: rest) = some (c, rest) := by
  have hn : ¬ (c = '"' ∨ c = '\\' ∨ c.toNat < 0x20) := by
    rintro (h | h | h)
    · exact hq h
    · exact hb h
    · omega
  unfold readChar?
  split
  · rename_i he
    injection he with he _
    exact absurd he hb
  · rename_i he
    injection he with he _
    exact absurd he hb
  · rename_i he
    injection he with h1 h2
    subst h1 h2
    rw [if_neg hn]
  · rename_i he
    cases he

theorem readChar?_append {c : Char} {first : List Char} (h : CharSpelling c first)
    (rest : List Char) : readChar? (first ++ rest) = some (c, rest) := by
  cases h with
  | raw hq hb hc => exact readChar?_raw hq hb hc rest
  | short h => exact readChar?_escape (mem_shortEscapes.mp h) rest
  | unit h => simpa [readChar?] using readHexEscape?_unit h rest
  | pair hh hl h1 h2 h3 h4 hc =>
    simpa [readChar?] using readHexEscape?_pair hh hl h1 h2 h3 h4 hc rest

/-- A spelled character starts with neither a quote nor nothing. -/
theorem CharSpelling.head {c : Char} {first : List Char} (h : CharSpelling c first) :
    ∃ d tail, first = d :: tail ∧ d ≠ '"' := by
  cases h with
  | raw hq hb hc => exact ⟨c, [], rfl, hq⟩
  | short h => exact ⟨'\\', _, rfl, by decide⟩
  | unit h => exact ⟨'\\', _, rfl, by decide⟩
  | pair => exact ⟨'\\', _, rfl, by decide⟩

theorem readString?_sound {cs read rest : List Char} (h : readString? cs = some (read, rest)) :
    ∃ body, BodySpelling read body ∧ cs = body ++ '"' :: rest := by
  generalize hn : cs.length = n
  induction n using Nat.strongRecOn generalizing cs read with
  | ind n ih =>
    rw [readString?.eq_def] at h
    split at h
    · cases h
    · simp only [Option.some.injEq, Prod.mk.injEq] at h
      obtain ⟨rfl, rfl⟩ := h
      exact ⟨[], .nil, rfl⟩
    · split at h
      · cases h
      · rename_i hc
        obtain ⟨⟨chars, last⟩, hr, he⟩ := Option.map_eq_some_iff.mp h
        simp only [Prod.mk.injEq] at he
        obtain ⟨rfl, rfl⟩ := he
        obtain ⟨body, hb, hm⟩ := ih _ (hn ▸ readChar?_length hc) hr rfl
        obtain ⟨first, hf, he⟩ := readChar?_sound hc
        exact ⟨first ++ body, .cons hf hb, by rw [he, hm, List.append_assoc]⟩

theorem readString?_append {cs body : List Char} (h : BodySpelling cs body) (rest : List Char) :
    readString? (body ++ '"' :: rest) = some (cs, rest) := by
  induction h with
  | nil => simp [readString?]
  | @cons c cs first body hc _ ih =>
    obtain ⟨d, tail, rfl, hd⟩ := hc.head
    have hr := readChar?_append hc (body ++ '"' :: rest)
    rw [List.append_assoc]
    simp only [List.cons_append] at hr ⊢
    rw [readString?.eq_3 _ _ hd]
    split
    · simp_all
    · simp_all

/-! ## What is written -/

theorem hexDigit?_hexDigit : ∀ n < 16, Text.hexDigit? (hexDigit n) = some n := by decide

theorem charSpelling_escaped (c : Char) : CharSpelling c (escaped c) := by
  unfold escaped
  split
  iterate 7 exact .short (by decide)
  rename_i hq hb _ _ _ _ _
  split
  · rename_i hc
    have hh := hexDigit?_hexDigit (c.toNat / 16) (by omega)
    have hl := hexDigit?_hexDigit (c.toNat % 16) (by omega)
    have hu : UnitSpelling ['0', '0', hexDigit (c.toNat / 16), hexDigit (c.toNat % 16)]
        (4096 * 0 + 256 * 0 + 16 * (c.toNat / 16) + c.toNat % 16) := .digits rfl rfl hh hl
    have hn : 4096 * 0 + 256 * 0 + 16 * (c.toNat / 16) + c.toNat % 16 = c.toNat := by omega
    rw [hn] at hu
    exact .unit hu
  · rename_i hc
    exact .raw hq hb (Nat.not_lt.mp hc)

theorem bodySpelling_escaped (cs : List Char) : BodySpelling cs (cs.flatMap escaped) := by
  induction cs with
  | nil => exact .nil
  | cons c cs ih => exact .cons (charSpelling_escaped c) ih

theorem tokenSpelling_quoted (s : String) : TokenSpelling (.string s) (quoted s).toList := by
  have h := TokenSpelling.string (bodySpelling_escaped s.toList)
  simpa [quoted] using h

end AdminPanel.Json
