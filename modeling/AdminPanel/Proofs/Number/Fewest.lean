import AdminPanel.Proofs.Number.Nearest
import Mathlib.Algebra.Order.Field.Power

/-! # The fewest digits

The digits of a number are said here without a search: of all decimals that round to the number they
are the fewest, of as many digits they are the nearest, and of two equally near decimals they are
those of the greater one. A number has one such decimal at most (`IsShortest.unique`).

The search looks for the coarsest grid of powers of ten with a point in the interval. That grid has
the fewest digits: a decimal with fewer of them would leave a power of ten between itself and the
point found, and that power lies on a coarser grid. Only where the interval reaches from nine tenths
of a power of ten up to this power could a decimal on a finer grid be as short and nearer. Such
intervals belong to the least magnitudes alone, and there they are looked through one by one
(`isShortest_decimal`). -/
namespace AdminPanel
open scoped Format

namespace Decimal

/-! ## Digits and powers of ten -/

theorem lt_pow_length (d : Decimal) : d.coefficient < 10 ^ d.digits.length :=
  (Nat.length_toDigits_le_iff (by decide) Nat.length_toDigits_pos).mp le_rfl

theorem pow_length_le {d : Decimal} (h : d.coefficient ≠ 0) :
    10 ^ (d.digits.length - 1) ≤ d.coefficient := by
  have hpos : 0 < d.digits.length := Nat.length_toDigits_pos
  rcases Nat.eq_zero_or_pos (d.digits.length - 1) with hone | hmore
  · rw [hone]
    exact Nat.one_le_iff_ne_zero.mpr h
  · by_contra hlt
    have hshort : d.digits.length ≤ d.digits.length - 1 :=
      (Nat.length_toDigits_le_iff (by decide) hmore).mpr (Nat.not_le.mp hlt)
    omega

theorem value_lt (d : Decimal) : d.value < 10 ^ d.point := by
  have hcoefficient : (d.coefficient : ℚ) < 10 ^ d.digits.length := by
    exact_mod_cast d.lt_pow_length
  rw [value, point, zpow_add₀ (by norm_num), zpow_natCast]
  gcongr

theorem pow_point_le {d : Decimal} (h : d.coefficient ≠ 0) : 10 ^ (d.point - 1) ≤ d.value := by
  have hpos : 0 < d.digits.length := Nat.length_toDigits_pos
  have hcoefficient : (10 : ℚ) ^ (d.digits.length - 1) ≤ d.coefficient := by
    exact_mod_cast pow_length_le h
  have hexponent : d.point - 1 = (d.digits.length - 1 : ℕ) + d.exponent := by
    rw [point]
    omega
  rw [value, hexponent, zpow_add₀ (by norm_num), zpow_natCast]
  gcongr

theorem pow_exponent_le {d : Decimal} (h : d.coefficient ≠ 0) : 10 ^ d.exponent ≤ d.value := by
  have hone : (1 : ℚ) ≤ d.coefficient := by exact_mod_cast Nat.one_le_iff_ne_zero.mpr h
  rw [value]
  exact le_mul_of_one_le_left (by positivity) hone

theorem value_pow (n : ℤ) : (⟨1, n⟩ : Decimal).value = 10 ^ n := by
  rw [value, Nat.cast_one, one_mul]

end Decimal

namespace Shortest
variable {f : Format} {pattern : ℕ}

/-! ## The grid of the decimal found -/

/-- No decimal around the magnitude lies on a coarser grid. -/
theorem exponent_le_of_around (h : 0 < pattern) {e : Decimal} (he : f.Around e.value pattern) :
    e.exponent ≤ (decimal f pattern).exponent := by
  by_contra hlt
  simp only [decimal, Int.not_le] at hlt
  obtain ⟨j, hj⟩ : ∃ j : ℕ, e.exponent = j - (f.scale : ℤ) :=
    ⟨(e.exponent + f.scale).toNat, by omega⟩
  have hgrid : e = ⟨e.coefficient, j - (f.scale : ℤ)⟩ := by rw [← hj]
  rw [hgrid, value_onGrid, ← contains_iff_around h,
    (best_of_pos f h).coarsest j (by omega) e.coefficient] at he
  cases he

theorem point_eq_value (f : Format) (pattern : ℕ) :
    f.point pattern = (interval f pattern).value / (10 ^ f.scale : ℕ) := by
  have hfive : ((5 : ℕ) ^ f.scale : ℚ) ≠ 0 := by positivity
  rw [Format.point_natCast, interval, div_eq_div_iff (by positivity) (by positivity)]
  push_cast
  rw [mul_assoc, ← mul_pow]
  norm_num

theorem abs_sub_point (f : Format) (pattern x : ℕ) :
    |(x / (10 ^ f.scale : ℕ) : ℚ) - f.point pattern| =
      (interval f pattern).distance x / (10 ^ f.scale : ℕ) := by
  rw [point_eq_value, ← sub_div, abs_div, Interval.distance, Nat.cast_natAbs, Int.cast_abs,
    abs_of_pos (by positivity : (0 : ℚ) < (10 ^ f.scale : ℕ))]
  push_cast
  rfl

/-- On its grid the decimal found is the nearest, and of two the greater. -/
theorem dist_le_of_around (h : 0 < pattern) {e : Decimal} (he : f.Around e.value pattern)
    (hexponent : e.exponent = (decimal f pattern).exponent) :
    |(decimal f pattern).value - f.point pattern| ≤ |e.value - f.point pattern| ∧
      (|e.value - f.point pattern| = |(decimal f pattern).value - f.point pattern| →
        e.value ≤ (decimal f pattern).value) := by
  have hten : (0 : ℚ) < (10 ^ f.scale : ℕ) := by positivity
  have hgrid : e = ⟨e.coefficient, (decimal f pattern).exponent⟩ := by rw [← hexponent]
  have hp := (best_of_pos f h).preferred
  rw [hgrid, decimal, value_onGrid] at he
  rw [hgrid, decimal, value_onGrid, value_onGrid, abs_sub_point, abs_sub_point,
    div_le_div_iff_of_pos_right hten, div_left_inj' hten.ne', div_le_div_iff_of_pos_right hten]
  have hin := (contains_iff_around h).mpr he
  refine ⟨by exact_mod_cast hp.nearest _ hin, fun heq => ?_⟩
  have hle := hp.greater _ hin (by exact_mod_cast heq)
  exact_mod_cast Nat.mul_le_mul_right _ hle

/-- The last digit is not a zero, which a coarser grid would have no need of. -/
theorem coefficient_mod_ten_ne (h : 0 < pattern) : (decimal f pattern).coefficient % 10 ≠ 0 := by
  intro hzero
  obtain ⟨n, hn⟩ : ∃ n, (decimal f pattern).coefficient = 10 * n := Nat.dvd_of_mod_eq_zero hzero
  have hvalue : (⟨n, (decimal f pattern).exponent + 1⟩ : Decimal).value =
      (decimal f pattern).value := by
    rw [Decimal.value, Decimal.value, hn, zpow_add_one₀ (by norm_num)]
    push_cast
    ring
  have hle := exponent_le_of_around h (hvalue ▸ around_decimal f h)
  exact absurd hle (by simp)

theorem coefficient_ne_zero (h : 0 < pattern) : (decimal f pattern).coefficient ≠ 0 := fun hz =>
  coefficient_mod_ten_ne h (by rw [hz])

/-- A decimal around the magnitude whose point is further left leaves a power of ten between. -/
theorem around_pow_of_point_lt (h : 0 < pattern) {e : Decimal} (he : f.Around e.value pattern)
    (hlt : e.point < (decimal f pattern).point) : (decimal f pattern).digits.length = 1 ∧
      f.Around (10 ^ (decimal f pattern).exponent) pattern ∧
        e.value < 10 ^ (decimal f pattern).exponent := by
  have hless : e.value < 10 ^ ((decimal f pattern).point - 1) :=
    e.value_lt.trans_le (zpow_le_zpow_right₀ (by norm_num) (by omega))
  have hpower : f.Around (10 ^ ((decimal f pattern).point - 1)) pattern :=
    he.of_between (around_decimal f h) hless.le (Decimal.pow_point_le (coefficient_ne_zero h))
  have hle := exponent_le_of_around h ((Decimal.value_pow _).symm ▸ hpower)
  have hpos : 0 < (decimal f pattern).digits.length := Nat.length_toDigits_pos
  have hone : (decimal f pattern).digits.length = 1 := by
    simp only [Decimal.point] at hle
    omega
  have hpoint : (decimal f pattern).point - 1 = (decimal f pattern).exponent := by
    rw [Decimal.point, hone]
    omega
  rw [hpoint] at hpower hless
  exact ⟨hone, hpower, hless⟩

/-- No decimal around the magnitude has fewer digits. -/
theorem length_le_of_around (h : 0 < pattern) {e : Decimal} (he : f.Around e.value pattern) :
    (decimal f pattern).digits.length ≤ e.digits.length := by
  by_contra hlt
  have hexponent := exponent_le_of_around h he
  have hpoint : e.point < (decimal f pattern).point := by
    rw [Decimal.point, Decimal.point]
    omega
  have hone := (around_pow_of_point_lt h he hpoint).1
  have hpos : 0 < e.digits.length := Nat.length_toDigits_pos
  omega

/-! ## Nine tenths of a power of ten -/

theorem gap_lt_of_ten_le (hf : 4 ≤ f.fractionBits) (h : 10 ≤ pattern) :
    19 * 2 ^ (pattern / 2 ^ f.fractionBits - 1) < 2 * f.units pattern := by
  have hk := Nat.div_add_mod pattern (2 ^ f.fractionBits)
  have hr := Nat.mod_lt pattern (Nat.two_pow_pos f.fractionBits)
  generalize pattern / 2 ^ f.fractionBits = e, pattern % 2 ^ f.fractionBits = r at hr hk
  subst hk
  rw [Format.units_eq f e hr]
  split
  · rename_i he
    subst he
    simp only [Nat.mul_zero, Nat.zero_add] at h ⊢
    omega
  · have hwide : 2 ^ 4 ≤ 2 ^ f.fractionBits := Nat.pow_le_pow_right (by decide) hf
    have hpos : 0 < 2 ^ (e - 1) := Nat.two_pow_pos _
    rw [← Nat.mul_assoc]
    exact Nat.mul_lt_mul_of_pos_right (by omega) hpos

/-- What lies around one of the greater magnitudes is more than nine tenths of all else that does. -/
theorem nine_tenths_lt (hf : 4 ≤ f.fractionBits) (h : 10 ≤ pattern) {p q : ℚ}
    (hp : f.Around p pattern) (hq : f.Around q pattern) : 9 * p < 10 * q := by
  obtain ⟨k, rfl⟩ : ∃ k, pattern = k + 1 := ⟨pattern - 1, by omega⟩
  have hgap := gap_lt_of_ten_le hf h
  have hbelow := f.units_succ k
  have habove : f.units (k + 2) = _ := f.units_succ (k + 1)
  have hmono : 2 ^ (k / 2 ^ f.fractionBits - 1) ≤ 2 ^ ((k + 1) / 2 ^ f.fractionBits - 1) :=
    Nat.pow_le_pow_right (by decide)
      (Nat.sub_le_sub_right (Nat.div_le_div_right (Nat.le_succ k)) 1)
  have hunits : 9 * (f.units (k + 1) + f.units (k + 2)) <
      10 * (f.units k + f.units (k + 1)) := by omega
  have hpoints : 9 * (f.point (k + 1 : ℕ) + f.point (k + 2 : ℕ)) <
      10 * (f.point k + f.point (k + 1 : ℕ)) := by
    have hscale : (0 : ℚ) < 2 ^ f.scale := by positivity
    simp only [Format.point_natCast, ← add_div, ← mul_div_assoc]
    rw [div_lt_div_iff_of_pos_right hscale]
    exact_mod_cast hunits
  have hhigh := hp.high
  have hlow := hq.low
  have hnext : ((k + 1 : ℕ) : ℤ) + 1 = (k + 2 : ℕ) := by omega
  have hprevious : ((k + 1 : ℕ) : ℤ) - 1 = k := by omega
  rw [hnext] at hhigh
  rw [hprevious] at hlow
  linarith

/-- The intervals of the least magnitudes, looked through. -/
theorem power_le_of_lt_ten : ∀ pattern < 10, 0 < pattern →
    19 * 10 ^ ((interval .binary64 pattern).search (interval .binary64 pattern).top).2 ≤
      20 * (interval .binary64 pattern).value := by
  decide +kernel

theorem power_le_point {pattern : ℕ} (h : 0 < pattern) (hlt : pattern < 10) :
    19 * 10 ^ (decimal .binary64 pattern).exponent ≤ 20 * Format.binary64.point pattern := by
  have hten : (0 : ℚ) < (10 ^ Format.binary64.scale : ℕ) := by positivity
  have hleast := power_le_of_lt_ten pattern hlt h
  rw [← Decimal.value_pow, decimal, value_onGrid, point_eq_value, ← mul_div_assoc, ← mul_div_assoc,
    div_le_div_iff_of_pos_right hten, Nat.one_mul]
  exact_mod_cast hleast

/-- On a finer grid a single digit stays below nine tenths of the next power of ten. -/
theorem value_le_nine_tenths {e : Decimal} (hlength : e.digits.length = 1) {exponent : ℤ}
    (h : e.exponent < exponent) : 10 * e.value ≤ 9 * 10 ^ exponent := by
  have hdigit : (e.coefficient : ℚ) ≤ 9 := by
    have hlt := e.lt_pow_length
    rw [hlength] at hlt
    exact_mod_cast Nat.le_of_lt_succ hlt
  have hpower : (10 : ℚ) ^ e.exponent ≤ 10 ^ (exponent - 1) :=
    zpow_le_zpow_right₀ (by norm_num) (by omega)
  calc 10 * e.value ≤ 10 * (9 * 10 ^ (exponent - 1)) := by
        rw [Decimal.value]
        gcongr
    _ = 9 * 10 ^ exponent := by
        rw [zpow_sub_one₀ (by norm_num)]
        ring

/-- Of the decimals with the fewest digits the one found is the nearest, and of two the greater. -/
theorem dist_le_of_length_eq {pattern : ℕ} (h : 0 < pattern) {e : Decimal}
    (he : Format.binary64.Around e.value pattern)
    (hlength : e.digits.length = (decimal .binary64 pattern).digits.length) :
    |(decimal .binary64 pattern).value - Format.binary64.point pattern| ≤
        |e.value - Format.binary64.point pattern| ∧
      (|e.value - Format.binary64.point pattern| =
          |(decimal .binary64 pattern).value - Format.binary64.point pattern| →
        e.value ≤ (decimal .binary64 pattern).value) := by
  rcases (exponent_le_of_around h he).eq_or_lt with hexponent | hexponent
  · exact dist_le_of_around h he hexponent
  · -- On a finer grid: a single digit, and the power of ten above it is around the magnitude too.
    obtain ⟨hone, hpower, hless⟩ := around_pow_of_point_lt h he (by
      rw [Decimal.point, Decimal.point]
      omega)
    have htenths := value_le_nine_tenths (hlength.trans hone) hexponent
    have hleast : pattern < 10 := by
      by_contra hge
      have hlt := nine_tenths_lt (by decide) (Nat.not_lt.mp hge) hpower he
      linarith
    have hnear := power_le_point h hleast
    have hbest := (dist_le_of_around h
      (e := ⟨1, (decimal .binary64 pattern).exponent⟩) ((Decimal.value_pow _).symm ▸ hpower) rfl).1
    rw [Decimal.value_pow] at hbest
    refine ⟨hbest.trans ?_, fun _ =>
      hless.le.trans (Decimal.pow_exponent_le (coefficient_ne_zero h))⟩
    rw [abs_of_nonpos (by linarith : e.value - Format.binary64.point pattern ≤ 0), abs_le]
    constructor <;> linarith

end Shortest

namespace Decimal

/-! ## Shortest decimals -/

/-- With the sign of the number a decimal rounds to it. -/
def Finds {f : Format} (d : Decimal) (x : Binary f) : Prop :=
  x.IsNearest (if x.negative then -d.value else d.value)

/-- How far a decimal is from the magnitude of a number. -/
def distance {f : Format} (d : Decimal) (x : Binary f) : ℚ := |d.value - abs x.toRat|

/-- The decimal that a number is shown by: without zeros at either end, it finds the number again;
it has the fewest digits of all that do, is the nearest of those, and the greater of two. -/
structure IsShortest {f : Format} (d : Decimal) (x : Binary f) : Prop where
  first : d.digits.head? ≠ some '0'
  last : d.digits.getLast? ≠ some '0'
  finds : d.Finds x
  fewest : ∀ e : Decimal, e.Finds x → d.digits.length ≤ e.digits.length
  nearest : ∀ e : Decimal, e.Finds x → e.digits.length = d.digits.length → d.distance x ≤ e.distance x
  greater : ∀ e : Decimal, e.Finds x → e.digits.length = d.digits.length →
    e.distance x = d.distance x → e.value ≤ d.value

/-- Equal values have equal digits when there are no zeros to drop. -/
theorem eq_of_value_eq {d e : Decimal} (hd : d.coefficient ≠ 0) (he : e.coefficient ≠ 0)
    (hlength : d.digits.length = e.digits.length) (hvalue : d.value = e.value) : d = e := by
  have hten : (1 : ℚ) < 10 := by norm_num
  have hde : d.point - 1 < e.point :=
    (zpow_lt_zpow_iff_right₀ hten).mp ((pow_point_le hd).trans_lt (hvalue ▸ e.value_lt))
  have hed : e.point - 1 < d.point :=
    (zpow_lt_zpow_iff_right₀ hten).mp ((pow_point_le he).trans_lt (hvalue ▸ d.value_lt))
  have hexponent : d.exponent = e.exponent := by
    simp only [point] at hde hed
    omega
  have hcoefficient : d.coefficient = e.coefficient := by
    rw [value, value, hexponent] at hvalue
    exact_mod_cast mul_right_cancel₀ (zpow_ne_zero _ (by norm_num)) hvalue
  cases d
  cases e
  simp_all

section Shortest
variable {f : Format} {x : Binary f} {d e : Decimal}

theorem IsShortest.coefficient_ne_zero (h : d.IsShortest x) : d.coefficient ≠ 0 := by
  intro hzero
  have hfirst := h.first
  rw [digits, hzero] at hfirst
  exact hfirst rfl

/-- **A number has one shortest decimal at most.** -/
theorem IsShortest.unique (hd : d.IsShortest x) (he : e.IsShortest x) : d = e := by
  have hlength : d.digits.length = e.digits.length :=
    le_antisymm (hd.fewest e he.finds) (he.fewest d hd.finds)
  have hdistance : d.distance x = e.distance x :=
    le_antisymm (hd.nearest e he.finds hlength.symm) (he.nearest d hd.finds hlength)
  exact eq_of_value_eq hd.coefficient_ne_zero he.coefficient_ne_zero hlength
    (le_antisymm (he.greater d hd.finds hlength hdistance)
      (hd.greater e he.finds hlength.symm hdistance.symm))

theorem finds_iff_around (hx : x.isFinite = true) : d.Finds x ↔ f.Around d.value x.pattern := by
  have hsigned : d.Finds x ↔ f.Around (if x.negative then -d.value else d.value) x.index :=
    ⟨Binary.around_of_isNearest hx,
      Binary.isNearest_of_around (Binary.isNaN_eq_false_of_isFinite hx)⟩
  rw [hsigned, Binary.index]
  cases x.negative
  · simp
  · refine ⟨fun h => ?_, fun h => h.neg⟩
    simpa using h.neg

theorem distance_eq (d : Decimal) (x : Binary f) :
    d.distance x = |d.value - f.point x.pattern| := by
  have hpoint : 0 ≤ f.point x.pattern := by
    rw [Format.point_natCast]
    positivity
  have habs : abs x.toRat = f.point x.pattern := by
    rw [Binary.toRat_eq_point, Binary.index]
    split
    · rw [Format.point_neg, abs_neg, abs_of_nonneg hpoint]
    · exact abs_of_nonneg hpoint
  rw [distance, habs]

end Shortest

/-- **The search finds the shortest decimal.** -/
theorem isShortest_decimal {x : Binary64} (hx : x.isFinite = true) (hz : x.isZero = false) :
    (Shortest.decimal .binary64 x.pattern).IsShortest x := by
  have hpos := Binary.pattern_pos hz
  have hfinds : ∀ e : Decimal, e.Finds x ↔ Format.binary64.Around e.value x.pattern :=
    fun e => finds_iff_around hx
  refine ⟨head?_digits_ne (Shortest.coefficient_ne_zero hpos),
    getLast?_digits_ne (Shortest.coefficient_mod_ten_ne hpos),
    (hfinds _).mpr (Shortest.around_decimal _ hpos), fun e he => ?_, fun e he hl => ?_,
    fun e he hl heq => ?_⟩
  · exact Shortest.length_le_of_around hpos ((hfinds e).mp he)
  · rw [distance_eq, distance_eq]
    exact (Shortest.dist_le_of_length_eq hpos ((hfinds e).mp he) hl).1
  · rw [distance_eq, distance_eq] at heq
    exact (Shortest.dist_le_of_length_eq hpos ((hfinds e).mp he) hl).2 heq

end Decimal

end AdminPanel
