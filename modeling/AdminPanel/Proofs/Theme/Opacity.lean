import AdminPanel.Proofs.Number.Nearest
import AdminPanel.Proofs.Theme.HexColour

/-! # Faded colours are read back exactly

The channels of a faded colour are the numbers that the digits of its text spell. Its opacity is
brought into the range from zero to one and printed plainly, and what is printed rounds to this
opacity and to no other; so greater opacities are never printed as smaller ones
(`fade_reads_back`). -/
namespace AdminPanel
open Text (hexDigit? hexDigit?_lt)

/-! ## The range of opacities -/

namespace Binary
variable {x : Binary32}

theorem toRat_one : (one : Binary32).toRat = 1 := by
  have hindex : (one : Binary32).index = (0x3F800000 : ℕ) := by decide +kernel
  have hunits : Format.binary32.units 0x3F800000 = 2 ^ Format.binary32.scale := by decide +kernel
  rw [toRat_eq_point, hindex, Format.point_natCast, hunits]
  push_cast
  exact div_self (by positivity)

/-- The index of an opacity in range is between those of zero and one. -/
theorem index_clampUnit (hx : x.isNaN = false) :
    x.clampUnit.index = max 0 (min (one : Binary32).index x.index) := by
  have hone : (one : Binary32).index = (one : Binary32).pattern := by decide +kernel
  have hzero : (ofPattern false 0 : Binary32).index = 0 := by decide
  rw [clampUnit, if_neg (by simp [hx])]
  split
  · rename_i hz
    rw [isZero_iff] at hz
    omega
  · split
    · rename_i hn
      have hindex : x.index = -x.pattern := if_pos hn
      omega
    · rename_i hn
      have hindex : x.index = x.pattern := if_neg hn
      split <;> omega

/-- A number brought into the range from zero to one; what is no number counts as zero. -/
def unitValue (x : Binary32) : ℚ := if x.isNaN then 0 else max 0 (min 1 x.toRat)

theorem toRat_clampUnit (x : Binary32) : x.clampUnit.toRat = x.unitValue := by
  rw [unitValue]
  cases hx : x.isNaN
  · have hmono : Monotone Format.binary32.point := fun _ _ => (Format.point_le_iff _).mpr
    rw [toRat_eq_point, index_clampUnit hx, hmono.map_max, hmono.map_min, Format.point_zero,
      ← toRat_eq_point, ← toRat_eq_point, toRat_one]
    rfl
  · have hzero : (ofPattern false 0 : Binary32).index = 0 := by decide
    rw [clampUnit, if_pos hx, toRat_eq_point, hzero, Format.point_zero, if_pos rfl]

theorem index_clampUnit_mem (x : Binary32) :
    0 ≤ x.clampUnit.index ∧ x.clampUnit.index ≤ (one : Binary32).index := by
  have hone : 0 ≤ (one : Binary32).index := by decide +kernel
  cases hx : x.isNaN
  · rw [index_clampUnit hx]
    omega
  · have hzero : (ofPattern false 0 : Binary32).index = 0 := by decide
    rw [clampUnit, if_pos hx, hzero]
    exact ⟨le_rfl, hone⟩

theorem isFinite_clampUnit (x : Binary32) : x.clampUnit.isFinite = true := by
  have hone : (one : Binary32).index < Format.binary32.infinity := by decide +kernel
  have hmem := x.index_clampUnit_mem
  rw [isFinite, decide_eq_true_eq, ← natAbs_index]
  omega

/-- Only a negative zero keeps a sign. -/
theorem negative_clampUnit (x : Binary32) : x.clampUnit.negative = (x.isZero && x.negative) := by
  have hzero : (ofPattern false 0 : Binary32).negative = false := by decide
  have hone : (one : Binary32).negative = false := by decide +kernel
  rw [clampUnit]
  split
  · rename_i hx
    cases hz : x.isZero
    · exact hzero
    · rw [isNaN_eq_false_of_isZero hz] at hx
      cases hx
  · split
    · rename_i hz
      rw [hz, Bool.true_and]
    · rename_i hz
      rw [Bool.eq_false_of_not_eq_true hz, Bool.false_and]
      split
      · exact hzero
      · split
        · exact hone
        · exact Bool.eq_false_of_not_eq_true ‹_›

end Binary

/-! ## The text of an opacity -/

section Text
variable {x : Binary32}

/-- The rational that the text of an opacity spells. -/
def opacityValue (x : Binary32) : ℚ :=
  if x.isZero then 0 else (Shortest.decimal .binary32 x.pattern).value

theorem opacityText_spec (x : Binary32) : ∃ body : String,
    opacityText x = (if x.negative then "-" else "") ++ body ∧ Decimal.IsPlain body.toList ∧
      ∃ d, Decimal.read? body.toList = some d ∧ d.value = opacityValue x := by
  rw [opacityValue]
  cases hz : x.isZero
  · refine ⟨(Shortest.decimal .binary32 x.pattern).plain, ?_, Decimal.isPlain_plain _,
      Decimal.read?_plain _⟩
    rw [opacityText, hz]
    rfl
  · refine ⟨"0", ?_, ⟨['0'], [], List.cons_ne_nil _ _, by simp, rfl⟩, ⟨0, 0⟩, rfl, ?_⟩
    · rw [opacityText, hz]
      rfl
    · simp [Decimal.value]

theorem around_opacityValue (hx : 0 ≤ x.index) : Format.binary32.Around (opacityValue x) x.index := by
  rw [opacityValue]
  cases hz : x.isZero
  · have hindex : x.index = x.pattern := by
      rw [← Binary.natAbs_index]
      omega
    rw [hindex]
    exact Shortest.around_decimal .binary32 (Binary.pattern_pos hz)
  · rw [Binary.isZero_iff.mp hz]
    exact .zero _

theorem rational?_opacityText (hx : 0 ≤ x.index) :
    Decimal.rational? (opacityText x) = some (opacityValue x) := by
  obtain ⟨body, htext, -, d, hread, hvalue⟩ := opacityText_spec x
  rw [htext, Decimal.rational?_signed hread, hvalue]
  cases hn : x.negative
  · rw [if_neg Bool.false_ne_true]
  · -- The only number here with a sign is zero, and its sign does not count.
    rw [opacityValue, if_pos (Binary.isZero_of_negative hx hn), if_pos rfl, neg_zero]

/-- Reading rounds to the number itself, a negative zero included. -/
theorem rounded?_opacityText (hx : x.isFinite = true) (hi : 0 ≤ x.index) :
    Decimal.rounded? .binary32 (opacityText x) = some x := by
  cases hz : x.isZero
  · obtain ⟨y, hy, hnear⟩ :=
      @Decimal.exists_rounded? .binary32 (by decide) _ _ (rational?_opacityText hi)
    rw [Binary.isNearest_iff_of_around (Binary.isNaN_eq_false_of_isFinite hx)
      (around_opacityValue hi), Binary.toRat_eq_iff] at hnear
    obtain rfl : y = x := by simpa [hz] using hnear
    exact hy
  · rw [Binary.eq_zero_of_isZero hz]
    cases x.negative <;> decide +kernel

/-- Printing keeps the order. Equal numbers have the same digits. -/
theorem opacityValue_le {y : Binary32} (hx : 0 ≤ x.index) (h : x.index ≤ y.index) :
    opacityValue x ≤ opacityValue y := by
  rcases Int.lt_or_eq_of_le h with hlt | heq
  · exact ((around_opacityValue hx).lt_of_index_lt (around_opacityValue (hx.trans h)) hlt).le
  · have hpattern : x.pattern = y.pattern := by
      rw [← Binary.natAbs_index, ← Binary.natAbs_index, heq]
    rw [opacityValue, opacityValue, Binary.isZero, Binary.isZero, hpattern]

end Text

/-- **How the text of an opacity reads.** It is a plain numeral, with a minus sign for a negative
zero alone. The rational it spells rounds to the opacity brought into range and to nothing else, so
that rounding the text gives this opacity back. -/
structure ReadsBack (alpha : Binary32) (text : String) (q : ℚ) : Prop where
  plain : ∃ body, Decimal.IsPlain body ∧
    text.toList = (if alpha.isZero && alpha.negative then ['-'] else []) ++ body
  spells : Decimal.rational? text = some q
  nearest : ∀ y : Binary32, y.IsNearest q ↔ y.toRat = alpha.unitValue
  rounded : Decimal.rounded? .binary32 text = some alpha.clampUnit

theorem readsBack_opacityText (alpha : Binary32) :
    ReadsBack alpha (opacityText alpha.clampUnit) (opacityValue alpha.clampUnit) := by
  have hfinite := alpha.isFinite_clampUnit
  have hindex := alpha.index_clampUnit_mem.1
  refine ⟨?_, rational?_opacityText hindex, fun y => ?_, rounded?_opacityText hfinite hindex⟩
  · obtain ⟨body, htext, hplain, -⟩ := opacityText_spec alpha.clampUnit
    refine ⟨body.toList, hplain, ?_⟩
    rw [htext, Binary.negative_clampUnit, String.toList_append]
    split <;> rfl
  · rw [Binary.isNearest_iff_of_around (Binary.isNaN_eq_false_of_isFinite hfinite)
      (around_opacityValue hindex), Binary.toRat_clampUnit]

theorem opacityValue_clampUnit_le {alpha beta : Binary32} (ha : alpha.isNaN = false)
    (hb : beta.isNaN = false) (h : alpha.toRat ≤ beta.toRat) :
    opacityValue alpha.clampUnit ≤ opacityValue beta.clampUnit := by
  refine opacityValue_le alpha.index_clampUnit_mem.1 ?_
  rw [Binary.toRat_eq_point, Binary.toRat_eq_point, Format.point_le_iff] at h
  rw [Binary.index_clampUnit ha, Binary.index_clampUnit hb]
  omega

/-! ## The channels of a colour -/

namespace Colour

/-- The three numbers in base sixteen that six digits spell. Three digits stand for the doubles of
each. -/
inductive Channels : List Char → ℕ → ℕ → ℕ → Prop
  | six {a b c d e f : Char} {x y z u v w : ℕ} (ha : hexDigit? a = some x)
      (hb : hexDigit? b = some y) (hc : hexDigit? c = some z) (hd : hexDigit? d = some u)
      (he : hexDigit? e = some v) (hf : hexDigit? f = some w) :
      Channels [a, b, c, d, e, f] (16 * x + y) (16 * z + u) (16 * v + w)
  | three {a b c : Char} {red green blue : ℕ}
      (h : Channels [a, a, b, b, c, c] red green blue) : Channels [a, b, c] red green blue

theorem exists_channels {digits : List Char} (hl : digits.length = 3 ∨ digits.length = 6)
    (h : ∀ x ∈ digits, IsHexDigit x) : ∃ red green blue, Channels digits red green blue := by
  have hvalue : ∀ c ∈ digits, ∃ x, hexDigit? c = some x := fun c hc =>
    Option.isSome_iff_exists.mp (hexDigit?_isSome_iff.mpr (h c hc))
  rcases hl with hl | hl
  · match digits, hl with
    | [a, b, c], _ =>
      obtain ⟨x, hx⟩ := hvalue a (by simp)
      obtain ⟨y, hy⟩ := hvalue b (by simp)
      obtain ⟨z, hz⟩ := hvalue c (by simp)
      exact ⟨_, _, _, .three (.six hx hx hy hy hz hz)⟩
  · match digits, hl with
    | [a, b, c, d, e, f], _ =>
      obtain ⟨x, hx⟩ := hvalue a (by simp)
      obtain ⟨y, hy⟩ := hvalue b (by simp)
      obtain ⟨z, hz⟩ := hvalue c (by simp)
      obtain ⟨u, hu⟩ := hvalue d (by simp)
      obtain ⟨v, hv⟩ := hvalue e (by simp)
      obtain ⟨w, hw⟩ := hvalue f (by simp)
      exact ⟨_, _, _, .six hx hy hz hu hv hw⟩

section Channels
variable {digits : List Char} {red green blue : ℕ}

theorem Channels.lt (h : Channels digits red green blue) :
    red < 256 ∧ green < 256 ∧ blue < 256 := by
  induction h with
  | six ha hb hc hd he hf =>
    have := hexDigit?_lt ha
    have := hexDigit?_lt hb
    have := hexDigit?_lt hc
    have := hexDigit?_lt hd
    have := hexDigit?_lt he
    have := hexDigit?_lt hf
    omega
  | three _ ih => exact ih

theorem readByte?_of_hexDigit? {a b : Char} {x y : ℕ} (ha : hexDigit? a = some x)
    (hb : hexDigit? b = some y) : readByte? [a, b] = some (UInt8.ofNat (16 * x + y)) := by
  have hsign : a ≠ '+' := by
    rintro rfl
    cases ha
  rw [readByte?_pair, leading?, if_neg hsign, ha, hb]
  rfl

/-- A digit that stands for its double is worth as much as the two. -/
theorem double?_eq_readByte? (c : Char) : double? c = readByte? [c, c] := by
  cases h : hexDigit? c with
  | none =>
    have hnot : ¬ (readByte? [c, c]).isSome := fun hs => by
      have := hexDigit?_isSome_iff.mpr (readByte?_pair_isSome_iff.mp hs).2
      simp [h] at this
    rw [Option.not_isSome_iff_eq_none.mp hnot, double?, h, Option.map_none]
  | some x =>
    have hvalue : 17 * x = 16 * x + x := by omega
    rw [readByte?_of_hexDigit? h h, double?, h, Option.map_some, hvalue]

theorem ofDigits?_doubled (a b c : Char) :
    ofDigits? [a, b, c] = ofDigits? [a, a, b, b, c, c] := by
  rw [ofDigits?, ofDigits?, double?_eq_readByte?, double?_eq_readByte?, double?_eq_readByte?]

theorem Channels.ofDigits? (h : Channels digits red green blue) :
    Colour.ofDigits? digits =
      some ⟨UInt8.ofNat red, UInt8.ofNat green, UInt8.ofNat blue⟩ := by
  induction h with
  | six ha hb hc hd he hf =>
    rw [Colour.ofDigits?, readByte?_of_hexDigit? ha hb, readByte?_of_hexDigit? hc hd,
      readByte?_of_hexDigit? he hf]
    rfl
  | three _ ih => rw [ofDigits?_doubled, ih]

theorem Channels.withOpacity (h : Channels digits red green blue) (alpha : Binary32) :
    (⟨UInt8.ofNat red, UInt8.ofNat green, UInt8.ofNat blue⟩ : Colour).withOpacity alpha =
      "rgba(" ++ Nat.repr red ++ ", " ++ Nat.repr green ++ ", " ++ Nat.repr blue ++ ", " ++
        opacityText alpha ++ ")" := by
  obtain ⟨hr, hg, hb⟩ := h.lt
  have hred : (UInt8.ofNat red).toNat = red := UInt8.toNat_ofNat_of_lt' hr
  have hgreen : (UInt8.ofNat green).toNat = green := UInt8.toNat_ofNat_of_lt' hg
  have hblue : (UInt8.ofNat blue).toNat = blue := UInt8.toNat_ofNat_of_lt' hb
  simp only [Colour.withOpacity, hred, hgreen, hblue]

end Channels

end Colour

/-! ## Faded colours -/

theorem fade_of_ofDigits? {hex : String} {digits : List Char} {colour : Colour}
    (hhex : hex.toList = '#' :: digits) (h : Colour.ofDigits? digits = some colour)
    (alpha : Binary32) : fade hex alpha = .ok (colour.withOpacity alpha.clampUnit) := by
  rw [fade, Colour.ofText?_eq_some_iff.mpr ⟨digits, hhex, h⟩]

/-- **Faded colours are read back exactly.** For every text of a colour, the channels are printed as
the numbers that its digits spell, so that three digits give what their doubles give. Every opacity
is printed so that it reads back, and the numbers printed for two opacities are in the order of
these. -/
theorem fade_reads_back {hex : String} (h : Colour.IsHex hex) :
    ∃ digits red green blue, hex.toList = '#' :: digits ∧
      Colour.Channels digits red green blue ∧
      (∀ a b c, digits = [a, b, c] → ∀ alpha,
        fade (String.ofList ['#', a, a, b, b, c, c]) alpha = fade hex alpha) ∧
      ∃ (text : Binary32 → String) (value : Binary32 → ℚ),
        (∀ alpha, fade hex alpha = .ok ("rgba(" ++ Nat.repr red ++ ", " ++ Nat.repr green ++ ", " ++
            Nat.repr blue ++ ", " ++ text alpha ++ ")") ∧
          ReadsBack alpha (text alpha) (value alpha)) ∧
        ∀ alpha beta : Binary32, alpha.isNaN = false → beta.isNaN = false →
          alpha.toRat ≤ beta.toRat → value alpha ≤ value beta := by
  obtain ⟨digits, hhex, hl, hdigits⟩ := h
  obtain ⟨red, green, blue, hchannels⟩ := Colour.exists_channels hl hdigits
  have hfade := fade_of_ofDigits? hhex hchannels.ofDigits?
  refine ⟨digits, red, green, blue, hhex, hchannels, ?_, fun alpha => opacityText alpha.clampUnit,
    fun alpha => opacityValue alpha.clampUnit, fun alpha => ⟨?_, readsBack_opacityText alpha⟩,
    fun alpha beta => opacityValue_clampUnit_le⟩
  · rintro a b c rfl alpha
    have hdoubled := Colour.ofDigits?_doubled a b c ▸ hchannels.ofDigits?
    rw [hfade, fade_of_ofDigits? String.toList_ofList hdoubled]
  · rw [hfade, hchannels.withOpacity]

/-- The least opacity that is not zero takes forty-five digits, and they read back. -/
theorem fade_reads_back_least :
    let alpha : Binary32 := Binary.ofBits 1
    let digits := "0.000000000000000000000000000000000000000000001"
    Colour.IsHex "#fA0" ∧ fade "#fA0" alpha = .ok ("rgba(255, 170, 0, " ++ digits ++ ")") ∧
      fade "#ffAA00" alpha = fade "#fA0" alpha ∧ ∃ q, ReadsBack alpha digits q := by
  intro alpha digits
  have hhex : Colour.IsHex "#fA0" := ⟨['f', 'A', '0'], rfl, .inl rfl, by simp [IsHexDigit]⟩
  have hfade : fade "#fA0" alpha = .ok ("rgba(255, 170, 0, " ++ digits ++ ")") := by
    decide +kernel
  obtain ⟨_, red, green, blue, htext, hchannels, hdoubled, text, value, hread, -⟩ :=
    fade_reads_back hhex
  obtain ⟨-, rfl⟩ := List.cons.inj htext
  refine ⟨hhex, hfade, hdoubled _ _ _ rfl alpha, value alpha, ?_⟩
  obtain ⟨hshown, hback⟩ := hread alpha
  obtain ⟨rfl, rfl, rfl⟩ : red = 255 ∧ green = 170 ∧ blue = 0 := by
    cases hchannels with
    | three h =>
      cases h with
      | six hf hf' ha ha' hz hz' =>
        cases hf; cases hf'; cases ha; cases ha'; cases hz; cases hz'
        decide
  have htext : "rgba(255, 170, 0, " ++ text alpha ++ ")" = "rgba(255, 170, 0, " ++ digits ++ ")" :=
    Except.ok.inj (hshown.symm.trans hfade)
  rw [String.append_left_inj, String.append_right_inj] at htext
  exact htext ▸ hback

end AdminPanel
