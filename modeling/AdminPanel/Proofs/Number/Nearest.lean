import AdminPanel.Proofs.Number.Numeral

/-! # Quotients are rounded to the nearest number

The pattern of a quotient is found by dropping low bits, rounding what is left to a whole number and
counting the dropped bits into the exponent. The quotient lies around the number with this pattern,
also where rounding carries into the exponent, so rounding is right (`isNearest_ofQuotient`). -/
namespace AdminPanel
open scoped Format

namespace Format

/-! ## Whole numbers -/

/-- What a quotient rounds to is at most a half away from it, and less when it is odd. -/
theorem roundQuotient_near {a b : ℕ} (hb : 0 < b) :
    2 * (roundQuotient a b * b) ≤ 2 * a + b ∧ 2 * a ≤ 2 * (roundQuotient a b * b) + b ∧
      (roundQuotient a b % 2 = 1 →
        2 * (roundQuotient a b * b) < 2 * a + b ∧ 2 * a < 2 * (roundQuotient a b * b) + b) := by
  have hdiv := Nat.div_add_mod' a b
  have hmod := Nat.mod_lt a hb
  rw [roundQuotient]
  split
  · omega
  · split
    · rw [Nat.add_mul, Nat.one_mul]
      omega
    · rcases Nat.mod_two_eq_zero_or_one (a / b) with h | h
      · rw [h, Nat.add_zero]
        omega
      · rw [h, Nat.add_mul, Nat.one_mul]
        omega

/-! ## Patterns of whole multiples -/

section Units
variable {f : Format} {m d : ℕ}

/-- A multiple of a power of two has the pattern in which the power counts into the exponent. The
significand may be one too long: it is then the next power of two. -/
theorem units_add (hm : m ≤ 2 * 2 ^ f.fractionBits) (hd : d ≠ 0 → 2 ^ f.fractionBits ≤ m) :
    f.units (m + d * 2 ^ f.fractionBits) = m * 2 ^ d := by
  rcases Nat.lt_or_ge m (2 ^ f.fractionBits) with hlt | hge
  · -- Only without dropped bits can the leading one be missing.
    obtain rfl : d = 0 := by
      by_contra hne
      exact absurd (hd hne) (Nat.not_le.mpr hlt)
    have hk : m + 0 * 2 ^ f.fractionBits = 2 ^ f.fractionBits * 0 + m := by omega
    rw [hk, units_eq f 0 hlt, if_pos rfl, Nat.pow_zero, Nat.mul_one]
  · obtain ⟨r, rfl⟩ := Nat.exists_eq_add_of_le hge
    rcases Nat.lt_or_ge r (2 ^ f.fractionBits) with hr | hr
    · have hk : 2 ^ f.fractionBits + r + d * 2 ^ f.fractionBits =
          2 ^ f.fractionBits * (d + 1) + r := by ring
      rw [hk, units_eq f (d + 1) hr, if_neg (Nat.succ_ne_zero d), Nat.add_sub_cancel]
    · obtain rfl : r = 2 ^ f.fractionBits := by omega
      have hk : 2 ^ f.fractionBits + 2 ^ f.fractionBits + d * 2 ^ f.fractionBits =
          2 ^ f.fractionBits * (d + 2) + 0 := by ring
      rw [hk, units_eq f (d + 2) (Nat.two_pow_pos _), if_neg (Nat.succ_ne_zero _)]
      show (2 ^ f.fractionBits + 0) * 2 ^ (d + 1) = _
      ring

/-- The magnitude above a multiple is at least the next multiple. -/
theorem units_add_succ (hf : 1 < f.significantBits) (hm : m ≤ 2 * 2 ^ f.fractionBits)
    (hd : d ≠ 0 → 2 ^ f.fractionBits ≤ m) :
    (m + 1) * 2 ^ d ≤ f.units (m + d * 2 ^ f.fractionBits + 1) := by
  rcases Nat.lt_or_eq_of_le hm with hlt | rfl
  · have hk : m + d * 2 ^ f.fractionBits + 1 = m + 1 + d * 2 ^ f.fractionBits := by omega
    rw [hk, units_add hlt fun hne => (hd hne).trans (Nat.le_succ m)]
  · have hone : 1 < 2 ^ f.fractionBits := Nat.one_lt_two_pow (by rw [fractionBits]; omega)
    have hk : 2 * 2 ^ f.fractionBits + d * 2 ^ f.fractionBits + 1 =
        2 ^ f.fractionBits * (d + 2) + 1 := by ring
    have hstep : (2 ^ f.fractionBits + 1) * 2 ^ (d + 1) = (2 * 2 ^ f.fractionBits + 2) * 2 ^ d := by
      ring
    rw [hk, units_eq f (d + 2) hone, if_neg (Nat.succ_ne_zero _)]
    show _ ≤ (2 ^ f.fractionBits + 1) * 2 ^ (d + 1)
    rw [hstep]
    exact Nat.mul_le_mul_right _ (Nat.le_succ _)

end Units

/-! ## Quotients -/

/-- The middle below a multiple is half a step away from it. Below the first multiple of an exponent
it is nearer, and below zero it counts as zero. -/
theorem middle_below {f : Format} {b m d : ℕ} (hb : 0 < b) (hm : m ≤ 2 * 2 ^ f.fractionBits)
    (hd : d ≠ 0 → 2 ^ f.fractionBits ≤ m) {k : ℕ} (hk : k = m + d * 2 ^ f.fractionBits) :
    (f.units (k - 1) + f.units k) * b + b * 2 ^ d ≤ 2 * (m * (b * 2 ^ d)) ∨
      (d ≠ 0 ∧ (f.units (k - 1) + f.units k) * b < 2 * (2 ^ f.fractionBits * (b * 2 ^ d))) ∨
        k = 0 := by
  have hunits : f.units k = m * 2 ^ d := hk ▸ units_add hm hd
  by_cases hfirst : d ≠ 0 ∧ m = 2 ^ f.fractionBits
  · obtain ⟨hne, rfl⟩ := hfirst
    have hpos : 0 < k := by
      have := Nat.two_pow_pos f.fractionBits
      omega
    have hless : f.units (k - 1) < f.units k := f.units_strictMono (by omega)
    refine .inr (.inl ⟨hne, ?_⟩)
    calc (f.units (k - 1) + f.units k) * b
        < (2 ^ f.fractionBits * 2 ^ d + 2 ^ f.fractionBits * 2 ^ d) * b :=
          Nat.mul_lt_mul_of_pos_right (by omega) hb
      _ = 2 * (2 ^ f.fractionBits * (b * 2 ^ d)) := by ring
  · rcases Nat.eq_zero_or_pos m with rfl | hpos
    · have hzero : d = 0 := by
        by_contra hne
        exact absurd (hd hne) (Nat.not_le.mpr (Nat.two_pow_pos _))
      exact .inr (.inr (by rw [hk, hzero, Nat.zero_mul]))
    · obtain ⟨n, rfl⟩ := Nat.exists_eq_add_one.mpr hpos
      have hpred : k - 1 = n + d * 2 ^ f.fractionBits := by omega
      have hn : d ≠ 0 → 2 ^ f.fractionBits ≤ n := fun hne => by
        have := hd hne
        omega
      refine .inl (le_of_eq ?_)
      rw [hunits, hpred, units_add (Nat.le_of_succ_le hm) hn]
      ring

section Quotient
variable {f : Format} {a b d : ℕ}

/-- A quotient lies around what rounding it makes, if the bits left are as many as the format
has. -/
theorem around_roundQuotient (hf : 1 < f.significantBits) (hb : 0 < b)
    (hlow : d ≠ 0 → 2 ^ f.fractionBits * (b * 2 ^ d) ≤ a * 2 ^ f.scale)
    (hhigh : a * 2 ^ f.scale < 2 * 2 ^ f.fractionBits * (b * 2 ^ d)) :
    f.Around (a / b)
      (roundQuotient (a * 2 ^ f.scale) (b * 2 ^ d) + d * 2 ^ f.fractionBits : ℕ) := by
  have hpos : 0 < b * 2 ^ d := Nat.mul_pos hb (Nat.two_pow_pos d)
  obtain ⟨hl, hh, hodd⟩ := @roundQuotient_near (a * 2 ^ f.scale) (b * 2 ^ d) hpos
  generalize roundQuotient (a * 2 ^ f.scale) (b * 2 ^ d) = m at hl hh hodd ⊢
  have hm : m ≤ 2 * 2 ^ f.fractionBits := by
    have hless : m * (b * 2 ^ d) < (2 * 2 ^ f.fractionBits + 1) * (b * 2 ^ d) := by
      rw [Nat.add_mul, Nat.one_mul]
      omega
    exact Nat.le_of_lt_succ (Nat.lt_of_mul_lt_mul_right hless)
  have hd : d ≠ 0 → 2 ^ f.fractionBits ≤ m := by
    intro hne
    have hfull := hlow hne
    have hless : 2 ^ f.fractionBits * (b * 2 ^ d) < (m + 1) * (b * 2 ^ d) := by
      rw [Nat.add_mul, Nat.one_mul]
      omega
    exact Nat.le_of_lt_succ (Nat.lt_of_mul_lt_mul_right hless)
  have hparity : (m + d * 2 ^ f.fractionBits) % 2 = m % 2 := by
    have htwo : 2 ^ f.fractionBits = 2 * 2 ^ (f.significantBits - 2) := by
      rw [← Nat.pow_succ', fractionBits]
      congr 1
      omega
    rw [htwo, Nat.mul_left_comm, Nat.add_mul_mod_self_left]
  have habove : 2 * (m * (b * 2 ^ d)) + b * 2 ^ d ≤
      (f.units (m + d * 2 ^ f.fractionBits) + f.units (m + d * 2 ^ f.fractionBits + 1)) * b := by
    calc 2 * (m * (b * 2 ^ d)) + b * 2 ^ d
        = (m * 2 ^ d + (m + 1) * 2 ^ d) * b := by ring
      _ ≤ _ := Nat.mul_le_mul_right b
          (Nat.add_le_add (units_add hm hd).ge (units_add_succ hf hm hd))
  have hbelow := @middle_below f b m d hb hm hd _ rfl
  refine around_div hb ?_ (hh.trans habove) fun h => ⟨?_, ?_⟩
  · rcases hbelow with hmiddle | ⟨hne, hmiddle⟩ | hzero
    · omega
    · exact (hmiddle.trans_le (Nat.mul_le_mul_left 2 (hlow hne))).le
    · simp [hzero, units_zero]
  · rcases hbelow with hmiddle | ⟨hne, hmiddle⟩ | hzero
    · have hstrict := (hodd (hparity ▸ h)).1
      omega
    · exact hmiddle.trans_le (Nat.mul_le_mul_left 2 (hlow hne))
    · rw [hzero] at h
      cases h
  · exact (hodd (hparity ▸ h)).2.trans_le habove

/-- **The quotient lies around the number that it is rounded to**, as long as that is one of the
format. -/
theorem exists_around_nearest (hf : 1 < f.significantBits) (a : ℕ) (hb : 0 < b) :
    ∃ k : ℕ, f.Around (a / b) k ∧ f.nearest a b = min k f.infinity := by
  refine ⟨_, around_roundQuotient hf hb (fun hne => ?_) ?_, rfl⟩
  · have hfull : (a * 2 ^ f.scale / b).log2 =
        f.fractionBits + ((a * 2 ^ f.scale / b).log2 + 1 - f.significantBits) := by
      rw [fractionBits]
      omega
    have hnonzero : a * 2 ^ f.scale / b ≠ 0 := by
      intro hz
      rw [hz, Nat.log2_zero] at hne
      omega
    have hpower := Nat.log2_self_le hnonzero
    rw [hfull, Nat.pow_add, Nat.le_div_iff_mul_le hb] at hpower
    rwa [Nat.mul_comm b, ← Nat.mul_assoc]
  · have hbits : (a * 2 ^ f.scale / b).log2 + 1 ≤
        1 + f.fractionBits + ((a * 2 ^ f.scale / b).log2 + 1 - f.significantBits) := by
      rw [fractionBits]
      omega
    have hpower : a * 2 ^ f.scale / b < 2 ^ ((a * 2 ^ f.scale / b).log2 + 1) := Nat.lt_log2_self
    have hless := hpower.trans_le (Nat.pow_le_pow_right (by decide) hbits)
    rwa [Nat.pow_add, Nat.pow_add, Nat.pow_one, Nat.div_lt_iff_lt_mul hb, Nat.mul_assoc _ _ b,
      Nat.mul_comm _ b] at hless

end Quotient

end Format

namespace Binary
variable {f : Format}

/-! ## Numbers -/

/-- What lies beyond all numbers rounds to the last of them. -/
theorem isNearest_of_forall_le {x : Binary f} {q : ℚ} (hx : x.isNaN = false)
    (hlast : ∀ y : Binary f, y.isNaN = false → y.toRat ≤ x.toRat) (hq : x.toRat ≤ q) :
    x.IsNearest q := by
  have hdist : ∀ y : Binary f, y.isNaN = false → |q - y.toRat| = q - y.toRat := fun y hy =>
    abs_of_nonneg (sub_nonneg.mpr ((hlast y hy).trans hq))
  refine ⟨hx, fun y hy => ?_, fun y hy he hne => absurd ?_ hne⟩
  · rw [hdist x hx, hdist y hy]
    linarith [hlast y hy]
  · rw [hdist x hx, hdist y hy] at he
    linarith

theorem toRat_of_index_neg {x y : Binary f} (h : y.index = -x.index) : y.toRat = -x.toRat := by
  rw [toRat_eq_point, toRat_eq_point, h, Format.point_neg]

theorem isNaN_of_index_neg {x y : Binary f} (hx : x.isNaN = false) (h : y.index = -x.index) :
    y.isNaN = false := by
  rw [isNaN_eq_false_iff] at hx ⊢
  rwa [h, Int.natAbs_neg]

theorem exists_index_neg {x : Binary f} (hx : x.isNaN = false) :
    ∃ y : Binary f, y.index = -x.index := by
  rw [isNaN_eq_false_iff] at hx
  exact exists_index (by rwa [Int.natAbs_neg])

theorem dist_neg (q r : ℚ) : |-q - r| = |q - -r| := by
  rw [sub_neg_eq_add, ← abs_neg, neg_sub, sub_neg_eq_add, add_comm]

/-- Rounding keeps to the sign. -/
theorem IsNearest.neg {x y : Binary f} {q : ℚ} (h : x.IsNearest q) (hy : y.index = -x.index) :
    y.IsNearest (-q) := by
  have hvalue := toRat_of_index_neg hy
  have hpattern : y.pattern = x.pattern := by
    rw [← natAbs_index, ← natAbs_index, hy, Int.natAbs_neg]
  refine ⟨isNaN_of_index_neg h.number hy, fun z hz => ?_, fun z hz he hne => ?_⟩
  · obtain ⟨o, ho⟩ := exists_index_neg hz
    rw [dist_neg, dist_neg, hvalue, neg_neg, ← toRat_of_index_neg ho]
    exact h.nearest o (isNaN_of_index_neg hz ho)
  · obtain ⟨o, ho⟩ := exists_index_neg hz
    rw [dist_neg, dist_neg, hvalue, neg_neg, ← toRat_of_index_neg ho] at he
    rw [hpattern]
    refine h.even o (isNaN_of_index_neg hz ho) he fun heq => hne ?_
    rw [hvalue, ← heq, toRat_of_index_neg ho, neg_neg]

theorem index_ofPattern (negative : Bool) {k : ℕ} (h : k ≤ f.infinity) :
    (ofPattern negative k : Binary f).index = if negative then -(k : ℤ) else k := by
  have hlt := Nat.lt_of_le_of_lt h f.infinity_lt
  rw [index, negative_ofPattern _ hlt, pattern_ofPattern _ hlt]

/-- What lies around a magnitude rounds to it, and to infinity if the format has no such number. -/
theorem isNearest_of_around_pattern {q : ℚ} {k : ℕ} (h : f.Around q k) :
    (ofPattern false (min k f.infinity) : Binary f).IsNearest q := by
  have hindex : (ofPattern false (min k f.infinity) : Binary f).index = (min k f.infinity : ℕ) :=
    index_ofPattern false (Nat.min_le_right _ _)
  have hnumber : (ofPattern false (min k f.infinity) : Binary f).isNaN = false :=
    isNaN_eq_false_iff.mpr (by rw [hindex, Int.natAbs_natCast]; exact Nat.min_le_right _ _)
  rcases Nat.lt_or_ge f.infinity k with hk | hk
  · rw [Nat.min_eq_right hk.le] at hindex hnumber ⊢
    refine isNearest_of_forall_le hnumber (fun y hy => ?_) ?_
    · have hbound := isNaN_eq_false_iff.mp hy
      rw [toRat_eq_point, toRat_eq_point, hindex, f.point_le_iff]
      omega
    · have hbelow : f.point f.infinity ≤ f.point (k - 1) := f.point_le_iff.mpr (by omega)
      have habove : f.point f.infinity ≤ f.point k := f.point_le_iff.mpr (by omega)
      rw [toRat_eq_point, hindex]
      linarith [h.low]
  · rw [Nat.min_eq_left hk] at hindex hnumber ⊢
    exact isNearest_of_around hnumber (hindex ▸ h)

/-- **A quotient is rounded to the nearest number**, halfway between two to the even one, and beyond
the numbers to infinity. -/
theorem isNearest_ofQuotient (hf : 1 < f.significantBits) (negative : Bool) (a : ℕ) {b : ℕ}
    (hb : 0 < b) : (ofQuotient negative a b : Binary f).IsNearest
      (if negative then -(a / b) else a / b) := by
  obtain ⟨k, haround, hnearest⟩ := Format.exists_around_nearest hf a hb
  have hplain := isNearest_of_around_pattern haround
  rw [← hnearest] at hplain
  cases negative
  · exact hplain
  · have hbound : f.nearest a b ≤ f.infinity := hnearest ▸ Nat.min_le_right _ _
    refine hplain.neg ?_
    rw [ofQuotient, index_ofPattern _ hbound, index_ofPattern _ hbound]
    rfl

end Binary

namespace Decimal

/-! ## Decimals -/

theorem value_eq_div (d : Decimal) : d.value =
    (d.coefficient * 10 ^ d.exponent.toNat : ℕ) / (10 ^ (-d.exponent).toNat : ℕ) := by
  have hpower : (10 : ℚ) ^ d.exponent = 10 ^ d.exponent.toNat / 10 ^ (-d.exponent).toNat := by
    rw [← zpow_natCast, ← zpow_natCast, ← zpow_sub₀ (by norm_num), Int.toNat_sub_toNat_neg]
  rw [value, hpower]
  push_cast
  ring

/-- The number of a format that a text is rounded to. -/
def rounded? (f : Format) (text : String) : Option (Binary f) :=
  (readSigned? text.toList).map fun read => read.2.toBinary f read.1

/-- Texts are rounded to the number nearest to what they spell. -/
theorem exists_rounded? {f : Format} (hf : 1 < f.significantBits) {text : String} {q : ℚ}
    (h : rational? text = some q) : ∃ x, rounded? f text = some x ∧ x.IsNearest q := by
  obtain ⟨⟨negative, d⟩, hread, rfl⟩ := Option.map_eq_some_iff.mp h
  refine ⟨d.toBinary f negative, by rw [rounded?, hread, Option.map_some], ?_⟩
  show (d.toBinary f negative).IsNearest (if negative then -d.value else d.value)
  rw [value_eq_div]
  exact Binary.isNearest_ofQuotient hf negative _ (Nat.pow_pos (by decide))

end Decimal

end AdminPanel
