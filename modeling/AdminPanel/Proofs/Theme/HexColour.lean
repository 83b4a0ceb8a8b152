import AdminPanel.Theme.Colour

/-! # Which texts write a colour

A colour is meant to be written with a number sign and three or six hexadecimal digits. The reader
of a channel takes any number in base sixteen, though, and a plus sign in front of a number is part
of it: where a channel has two characters, the first one may be such a sign. These are all the texts
that write a colour (`fade_accepts`). -/
namespace AdminPanel

open Text (hexDigit? hexDigit?_lt slice? byteLength)

/-- The digits of base sixteen: 0 to 9, and a to f in either letter case. -/
def IsHexDigit (c : Char) : Prop :=
  ('0' ≤ c ∧ c ≤ '9') ∨ ('a' ≤ c ∧ c ≤ 'f') ∨ ('A' ≤ c ∧ c ≤ 'F')

instance : DecidablePred IsHexDigit := fun _ => inferInstanceAs (Decidable (_ ∨ _))

theorem isHexDigit_iff_toNat {c : Char} : IsHexDigit c ↔ (0x30 ≤ c.toNat ∧ c.toNat ≤ 0x39) ∨
    (0x61 ≤ c.toNat ∧ c.toNat ≤ 0x66) ∨ (0x41 ≤ c.toNat ∧ c.toNat ≤ 0x46) := by
  simp only [IsHexDigit, Char.le_def, UInt32.le_iff_toNat_le]
  exact Iff.rfl

theorem hexDigit?_isSome_iff {c : Char} : (hexDigit? c).isSome ↔ IsHexDigit c := by
  rw [isHexDigit_iff_toNat, hexDigit?]
  split
  · simp_all
  · split
    · simp_all
    · split <;> simp_all

namespace Colour

/-! ## Channels -/

/-- The value of the first of two digits. A plus sign in its place counts as zero. -/
def leading? (c : Char) : Option Nat := if c = '+' then some 0 else hexDigit? c

theorem leading?_isSome_iff {c : Char} : (leading? c).isSome ↔ c = '+' ∨ IsHexDigit c := by
  rw [leading?, ← hexDigit?_isSome_iff]
  split <;> simp_all

theorem readByte?_single (c : Char) : readByte? [c] = (hexDigit? c).map UInt8.ofNat := by
  cases h : hexDigit? c with
  | none => simp [readByte?, readDigits?, h]
  | some x =>
    have hless : x < 256 := Nat.lt_trans (hexDigit?_lt h) (by decide)
    simp [readByte?, readDigits?, h, hless]

theorem readByte?_pair (a b : Char) :
    readByte? [a, b] = do return UInt8.ofNat (16 * (← leading? a) + (← hexDigit? b)) := by
  by_cases ha : a = '+'
  · have hsign : readByte? [a, b] = readByte? [b] := by
      have hb : ¬ (b = '+' ∧ ([] : List Char) ≠ []) := fun h => h.2 rfl
      rw [readByte?, if_pos ⟨ha, List.cons_ne_nil _ _⟩, readByte?, if_neg hb]
    rw [hsign, readByte?_single, leading?, if_pos ha]
    cases hexDigit? b <;> simp
  · cases hx : hexDigit? a with
    | none => simp [readByte?, readDigits?, leading?, ha, hx]
    | some x =>
      cases hy : hexDigit? b with
      | none => simp [readByte?, readDigits?, leading?, ha, hx, hy]
      | some y =>
        have hfirst := hexDigit?_lt hx
        have hsecond := hexDigit?_lt hy
        have hless : x < 256 ∧ 16 * x + y < 256 := by omega
        simp [readByte?, readDigits?, leading?, ha, hx, hy, hless]

theorem readByte?_pair_isSome_iff {a b : Char} :
    (readByte? [a, b]).isSome ↔ (a = '+' ∨ IsHexDigit a) ∧ IsHexDigit b := by
  rw [readByte?_pair, ← leading?_isSome_iff, ← hexDigit?_isSome_iff]
  cases leading? a <;> cases hexDigit? b <;> simp

/-! ## Rows of digits -/

/-- Six digits are the first and the second ones of three channels. -/
theorem forall_mem_six {p : Char → Prop} {a b c d e f : Char} :
    (∀ x ∈ [a, b, c, d, e, f], p x) ↔ (∀ x ∈ [b, d, f], p x) ∧ ∀ x ∈ [a, c, e], p x := by
  simp only [List.forall_mem_cons, List.not_mem_nil, false_implies, implies_true, and_true]
  constructor
  · rintro ⟨ha, hb, hc, hd, he, hf⟩
    exact ⟨⟨hb, hd, hf⟩, ha, hc, he⟩
  · rintro ⟨⟨hb, hd, hf⟩, ha, hc, he⟩
    exact ⟨ha, hb, hc, hd, he, hf⟩

/-- A digit that stands for its double. -/
def double? (c : Char) : Option UInt8 := (hexDigit? c).map fun x => UInt8.ofNat (17 * x)

/-- The colour of a row of digits, two for each channel or one that stands for its double. -/
def ofDigits? : List Char → Option Colour
  | [a, b, c, d, e, f] => ofChannels (readByte? [a, b]) (readByte? [c, d]) (readByte? [e, f])
  | [a, b, c] => ofChannels (double? a) (double? b) (double? c)
  | _ => none

theorem ofChannels_isSome_iff {red green blue : Option UInt8} :
    (ofChannels red green blue).isSome ↔ red.isSome ∧ green.isSome ∧ blue.isSome := by
  cases red <;> cases green <;> cases blue <;> simp [ofChannels]

theorem ofDigits?_six_isSome_iff {a b c d e f : Char} : (ofDigits? [a, b, c, d, e, f]).isSome ↔
    (∀ x ∈ [b, d, f], IsHexDigit x) ∧ ∀ x ∈ [a, c, e], x = '+' ∨ IsHexDigit x := by
  simp only [ofDigits?, ofChannels_isSome_iff, readByte?_pair_isSome_iff, List.forall_mem_cons,
    List.not_mem_nil, false_implies, implies_true, and_true]
  constructor
  · rintro ⟨⟨ha, hb⟩, ⟨hc, hd⟩, he, hf⟩
    exact ⟨⟨hb, hd, hf⟩, ha, hc, he⟩
  · rintro ⟨⟨hb, hd, hf⟩, ha, hc, he⟩
    exact ⟨⟨ha, hb⟩, ⟨hc, hd⟩, he, hf⟩

theorem ofDigits?_three_isSome_iff {a b c : Char} :
    (ofDigits? [a, b, c]).isSome ↔ ∀ x ∈ [a, b, c], IsHexDigit x := by
  simp [ofDigits?, ofChannels_isSome_iff, double?, hexDigit?_isSome_iff]

/-- Whatever the digits are, a colour needs three or six of them. -/
theorem length_of_ofDigits? {digits : List Char} (h : (ofDigits? digits).isSome) :
    digits.length = 3 ∨ digits.length = 6 := by
  rw [ofDigits?.eq_def] at h
  split at h
  · exact .inr rfl
  · exact .inl rfl
  · cases h

theorem ascii_of_ofDigits? {digits : List Char} (h : (ofDigits? digits).isSome) :
    ∀ c ∈ digits, c.toNat < 128 := by
  have hsign : ∀ c, c = '+' ∨ IsHexDigit c → c.toNat < 128 := by
    rintro c (rfl | hc)
    · decide
    · rw [isHexDigit_iff_toNat] at hc
      omega
  rcases length_of_ofDigits? h with hl | hl
  · match digits, hl with
    | [a, b, c], _ => exact fun x hx => hsign x (.inr (ofDigits?_three_isSome_iff.mp h x hx))
  · match digits, hl with
    | [a, b, c, d, e, f], _ =>
      obtain ⟨hsecond, hfirst⟩ := ofDigits?_six_isSome_iff.mp h
      exact forall_mem_six.mpr
        ⟨fun x hx => hsign x (.inr (hsecond x hx)), fun x hx => hsign x (hfirst x hx)⟩

/-! ## Slices are rows of digits -/

theorem all_ascii_iff {digits : List Char} :
    (digits.all fun c => decide (c.toNat < 128)) = true ↔ ∀ c ∈ digits, c.toNat < 128 := by
  simp only [List.all_eq_true, decide_eq_true_eq]

theorem channel?_of_ascii {a b c : List Char} (h : ∀ d ∈ a ++ (b ++ c), d.toNat < 128) :
    channel? (a ++ (b ++ c)) a.length (a.length + b.length) = some (readByte? b) := by
  rw [channel?, slice?_of_ascii h, Option.map_some]

theorem doubled?_eq_double? {a c : List Char} {d : Char}
    (h : ∀ e ∈ a ++ ([d] ++ c), e.toNat < 128) :
    doubled? (a ++ ([d] ++ c)) a.length = some (double? d) := by
  have hchannel : channel? (a ++ ([d] ++ c)) a.length (a.length + 1) = some (readByte? [d]) :=
    channel?_of_ascii h
  rw [doubled?, hchannel, readByte?_single, double?]
  cases hx : hexDigit? d with
  | none => rfl
  | some x =>
    have hless := hexDigit?_lt hx
    have hvalue : (UInt8.ofNat x).toNat = x := UInt8.toNat_ofNat_of_lt' (by show x < 256; omega)
    have hfits : x * 17 < 256 := by omega
    have hproduct : UInt8.ofNat x * 17 = UInt8.ofNat (17 * x) := by
      rw [Nat.mul_comm, UInt8.ofNat_mul]
      rfl
    simp [multiply?, hvalue, hfits, hproduct]

/-- On ASCII characters byte offsets count characters, so the slices are the digits in turn. -/
theorem read?_of_ascii {digits : List Char} (h : ∀ c ∈ digits, c.toNat < 128) :
    read? ('#' :: digits) = some (ofDigits? digits) := by
  rw [read?, if_pos (all_ascii_iff.mpr h), byteLength_of_ascii h]
  split
  · rename_i hl
    match digits, hl with
    | [a, b, c, d, e, f], _ =>
      have h1 : channel? [a, b, c, d, e, f] 0 2 = some (readByte? [a, b]) :=
        channel?_of_ascii (a := []) (b := [a, b]) (c := [c, d, e, f]) h
      have h2 : channel? [a, b, c, d, e, f] 2 4 = some (readByte? [c, d]) :=
        channel?_of_ascii (a := [a, b]) (b := [c, d]) (c := [e, f]) h
      have h3 : channel? [a, b, c, d, e, f] 4 6 = some (readByte? [e, f]) :=
        channel?_of_ascii (a := [a, b, c, d]) (b := [e, f]) (c := []) h
      rw [h1, h2, h3]
      rfl
  · split
    · rename_i hl
      match digits, hl with
      | [a, b, c], _ =>
        have h1 : doubled? [a, b, c] 0 = some (double? a) :=
          doubled?_eq_double? (a := []) (d := a) (c := [b, c]) h
        have h2 : doubled? [a, b, c] 1 = some (double? b) :=
          doubled?_eq_double? (a := [a]) (d := b) (c := [c]) h
        have h3 : doubled? [a, b, c] 2 = some (double? c) :=
          doubled?_eq_double? (a := [a, b]) (d := c) (c := []) h
        rw [h1, h2, h3]
        rfl
    · rename_i hsix hthree
      have hnone : ¬ (ofDigits? digits).isSome := fun hs =>
        (length_of_ofDigits? hs).elim hthree hsix
      rw [Option.not_isSome_iff_eq_none.mp hnone]

/-- A number sign comes first, and then the digits alone decide. -/
theorem read?_hash (digits : List Char) : read? ('#' :: digits) = some (ofDigits? digits) := by
  by_cases h : ∀ c ∈ digits, c.toNat < 128
  · exact read?_of_ascii h
  · -- A character outside of ASCII is neither a digit nor a sign, so there is no colour either way.
    rw [read?, if_neg (mt all_ascii_iff.mp h),
      Option.not_isSome_iff_eq_none.mp (mt ascii_of_ofDigits? h)]

theorem ofText?_eq_some_iff {text : String} {colour : Colour} : ofText? text = some colour ↔
    ∃ digits, text.toList = '#' :: digits ∧ ofDigits? digits = some colour := by
  have hread : read? text.toList = some (ofText? text) := (Option.some_get _).symm
  constructor
  · intro h
    rw [h] at hread
    obtain ⟨digits, htext⟩ : ∃ digits, text.toList = '#' :: digits := by
      rw [read?.eq_def] at hread
      split at hread
      · exact ⟨_, ‹_›⟩
      · cases hread
    rw [htext, read?_hash, Option.some.injEq] at hread
    exact ⟨digits, htext, hread⟩
  · rintro ⟨digits, htext, h⟩
    rw [htext, read?_hash, h, Option.some.injEq] at hread
    exact hread.symm

theorem ofText?_isSome_iff_exists {text : String} : (ofText? text).isSome ↔
    ∃ digits, text.toList = '#' :: digits ∧ (ofDigits? digits).isSome := by
  simp only [Option.isSome_iff_exists, ofText?_eq_some_iff]
  constructor
  · rintro ⟨colour, digits, htext, hcolour⟩
    exact ⟨digits, htext, colour, hcolour⟩
  · rintro ⟨digits, htext, colour, hcolour⟩
    exact ⟨colour, digits, htext, hcolour⟩

/-! ## The texts that are read -/

/-- A text of the form `#RGB` or `#RRGGBB`: a number sign, three or six hexadecimal digits, and
nothing else. -/
def IsHex (text : String) : Prop := ∃ digits, text.toList = '#' :: digits ∧
  (digits.length = 3 ∨ digits.length = 6) ∧ ∀ x ∈ digits, IsHexDigit x

/-- A text of the form `#RRGGBB` but for plus signs, at least one, each in the place of the first
digit of a channel. -/
def IsSigned (text : String) : Prop := ∃ a b c d e f, text.toList = ['#', a, b, c, d, e, f] ∧
  (∀ x ∈ [b, d, f], IsHexDigit x) ∧ (∀ x ∈ [a, c, e], x = '+' ∨ IsHexDigit x) ∧ '+' ∈ [a, c, e]

theorem IsSigned.not_isHex {text : String} (h : IsSigned text) : ¬ IsHex text := by
  obtain ⟨a, b, c, d, e, f, htext, -, -, hsign⟩ := h
  rintro ⟨digits, htext', -, hdigits⟩
  rw [htext, List.cons.injEq] at htext'
  rw [← htext'.2, forall_mem_six] at hdigits
  exact absurd (hdigits.2 '+' hsign) (by decide)

/-- Six characters that are read are all digits, or there is a sign among them. -/
theorem ofDigits?_six_isSome_iff_digits_or_sign {a b c d e f : Char} :
    (ofDigits? [a, b, c, d, e, f]).isSome ↔ (∀ x ∈ [a, b, c, d, e, f], IsHexDigit x) ∨
      ((∀ x ∈ [b, d, f], IsHexDigit x) ∧ (∀ x ∈ [a, c, e], x = '+' ∨ IsHexDigit x) ∧
        '+' ∈ [a, c, e]) := by
  rw [ofDigits?_six_isSome_iff, forall_mem_six]
  constructor
  · rintro ⟨hsecond, hfirst⟩
    by_cases hsign : '+' ∈ [a, c, e]
    · exact .inr ⟨hsecond, hfirst, hsign⟩
    · exact .inl ⟨hsecond, fun x hx => (hfirst x hx).resolve_left fun h => hsign (h ▸ hx)⟩
  · rintro (⟨hsecond, hfirst⟩ | ⟨hsecond, hfirst, -⟩)
    · exact ⟨hsecond, fun x hx => .inr (hfirst x hx)⟩
    · exact ⟨hsecond, hfirst⟩

theorem ofText?_isSome_iff {text : String} :
    (ofText? text).isSome ↔ IsHex text ∨ IsSigned text := by
  rw [ofText?_isSome_iff_exists]
  constructor
  · rintro ⟨digits, htext, hread⟩
    rcases length_of_ofDigits? hread with hl | hl
    · match digits, hl with
      | [a, b, c], hl => exact .inl ⟨_, htext, .inl hl, ofDigits?_three_isSome_iff.mp hread⟩
    · match digits, hl with
      | [a, b, c, d, e, f], hl =>
        rcases ofDigits?_six_isSome_iff_digits_or_sign.mp hread with hdigits | hsigned
        · exact .inl ⟨_, htext, .inr hl, hdigits⟩
        · exact .inr ⟨a, b, c, d, e, f, htext, hsigned⟩
  · rintro (⟨digits, htext, hl, hdigits⟩ | ⟨a, b, c, d, e, f, htext, hsigned⟩)
    · refine ⟨digits, htext, ?_⟩
      rcases hl with hl | hl
      · match digits, hl with
        | [a, b, c], _ => exact ofDigits?_three_isSome_iff.mpr hdigits
      · match digits, hl with
        | [a, b, c, d, e, f], _ =>
          exact ofDigits?_six_isSome_iff_digits_or_sign.mpr (.inl hdigits)
    · exact ⟨_, htext, ofDigits?_six_isSome_iff_digits_or_sign.mpr (.inr hsigned)⟩

end Colour

theorem exists_fade_iff {hex : String} {alpha : Binary32} :
    (∃ css, fade hex alpha = .ok css) ↔ (Colour.ofText? hex).isSome := by
  rw [fade]
  cases Colour.ofText? hex <;> simp

theorem fade_eq_error_iff {hex : String} {alpha : Binary32} :
    fade hex alpha = .error (.invalidHex hex) ↔ ¬ (Colour.ofText? hex).isSome := by
  rw [fade]
  cases Colour.ofText? hex <;> simp

/-- **The texts that are colours to be faded**, at every opacity: those of the form `#RGB` or
`#RRGGBB`, and those with plus signs in the place of first digits of a channel. Every other text is
refused by its name. So a text is judged as it is meant to be exactly when it has no such sign. -/
theorem fade_accepts (hex : String) (alpha : Binary32) :
    ((∃ css, fade hex alpha = .ok css) ↔ Colour.IsHex hex ∨ Colour.IsSigned hex) ∧
      (fade hex alpha = .error (.invalidHex hex) ↔
        ¬ (Colour.IsHex hex ∨ Colour.IsSigned hex)) ∧
      (((∃ css, fade hex alpha = .ok css) ↔ Colour.IsHex hex) ↔ ¬ Colour.IsSigned hex) := by
  rw [exists_fade_iff, fade_eq_error_iff, Colour.ofText?_isSome_iff]
  refine ⟨Iff.rfl, Iff.rfl, fun h hsigned => ?_, fun h => or_iff_left h⟩
  exact hsigned.not_isHex (h.mp (.inr hsigned))

/-- Three signed digits are taken for a colour, though the text has the form of none. -/
theorem not_only_hex_faded : ¬ ∀ (hex : String) (alpha : Binary32),
    ((∃ css, fade hex alpha = .ok css) ↔ Colour.IsHex hex) := by
  intro h
  have hsigned : Colour.IsSigned "#+1+2+3" :=
    ⟨'+', '1', '+', '2', '+', '3', rfl, by simp [IsHexDigit], by simp, by simp⟩
  have hfaded : ∃ css, fade "#+1+2+3" Binary.one = .ok css :=
    exists_fade_iff.mpr (Colour.ofText?_isSome_iff.mpr (.inr hsigned))
  exact hsigned.not_isHex ((h "#+1+2+3" Binary.one).mp hfaded)

end AdminPanel
