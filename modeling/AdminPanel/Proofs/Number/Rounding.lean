import AdminPanel.Number.Binary
import Mathlib.Algebra.Order.Field.Rat
import Mathlib.Algebra.Order.Ring.Abs
import Mathlib.Order.Monotone.Basic
import Mathlib.Tactic.FieldSimp
import Mathlib.Tactic.Linarith
import Mathlib.Tactic.Positivity
import Mathlib.Tactic.Ring

/-! # Rounding

The numbers of a format as points on the line of rationals, and what it means to round to them: the
nearest point, and of two equally near ones the one with the even pattern. A rational rounds to the
points whose interval it lies in, from halfway to the point below up to halfway to the one above
(`isNearest_of_around`), and to one number only (`IsNearest.toRat_eq`). -/
namespace AdminPanel
open scoped Format

namespace Format

/-! ## Magnitudes grow with their patterns -/

theorem units_zero (f : Format) : f.units 0 = 0 := by simp [units]

theorem units_eq (f : Format) (exponent : Nat) {fraction : Nat} (h : fraction < 2 ^ f.fractionBits) :
    f.units (2 ^ f.fractionBits * exponent + fraction) =
      if exponent = 0 then fraction else (2 ^ f.fractionBits + fraction) * 2 ^ (exponent - 1) := by
  rw [units, Nat.mul_add_div (Nat.two_pow_pos _), Nat.mul_add_mod, Nat.div_eq_of_lt h,
    Nat.mod_eq_of_lt h, Nat.add_zero]

/-- The step from a magnitude to the next one is fixed by the exponent. -/
theorem units_succ (f : Format) (k : Nat) :
    f.units (k + 1) = f.units k + 2 ^ (k / 2 ^ f.fractionBits - 1) := by
  have hpos := Nat.two_pow_pos f.fractionBits
  have hr := Nat.mod_lt k hpos
  have hk := Nat.div_add_mod k (2 ^ f.fractionBits)
  generalize k / 2 ^ f.fractionBits = e, k % 2 ^ f.fractionBits = r at hr hk
  subst hk
  rw [units_eq f e hr]
  rcases Nat.lt_or_eq_of_le (Nat.succ_le_of_lt hr) with hlt | heq
  · rw [Nat.add_assoc, units_eq f e hlt]
    split
    · rename_i he
      rw [he, Nat.pow_zero]
    · rw [Nat.add_succ, Nat.succ_mul]
  · -- The next pattern is the first one with a greater exponent.
    have hnext : 2 ^ f.fractionBits * e + r + 1 = 2 ^ f.fractionBits * (e + 1) + 0 := by
      rw [Nat.mul_add]
      omega
    rw [hnext, units_eq f (e + 1) hpos, if_neg (Nat.succ_ne_zero e), Nat.add_zero,
      Nat.add_sub_cancel]
    cases e with
    | zero => simpa using heq.symm
    | succ e =>
      rw [if_neg (Nat.succ_ne_zero e), Nat.add_sub_cancel, ← Nat.succ_mul, ← Nat.add_succ, heq]
      ring

theorem units_lt_succ (f : Format) (k : Nat) : f.units k < f.units (k + 1) := by
  rw [units_succ]
  exact Nat.lt_add_of_pos_right (Nat.two_pow_pos _)

theorem units_strictMono (f : Format) : StrictMono f.units :=
  strictMono_nat_of_lt_succ f.units_lt_succ

/-! ## Points -/

/-- The point with an index: the magnitude with that pattern, or its negative for the pattern of a
negative index. -/
def point (f : Format) (i : ℤ) : ℚ := i.sign * (f.units i.natAbs / 2 ^ f.scale)

theorem point_neg (f : Format) (i : ℤ) : f.point (-i) = -f.point i := by
  rw [point, point, Int.sign_neg, Int.natAbs_neg, Int.cast_neg, neg_mul]

theorem point_natCast (f : Format) (k : ℕ) : f.point k = f.units k / 2 ^ f.scale := by
  rw [point, Int.natAbs_natCast]
  cases k with
  | zero => simp [units_zero]
  | succ k => simp

theorem point_zero (f : Format) : f.point 0 = 0 := by simp [point]

theorem point_lt_succ (f : Format) (i : ℤ) : f.point i < f.point (i + 1) := by
  have hup : ∀ k : ℕ, f.point k < f.point (k + 1 : ℕ) := by
    intro k
    rw [point_natCast, point_natCast]
    have hlt : (f.units k : ℚ) < f.units (k + 1) := by exact_mod_cast f.units_lt_succ k
    gcongr
  cases i with
  | ofNat k => exact hup k
  | negSucc k =>
    have hlow : Int.negSucc k = -((k + 1 : ℕ) : ℤ) := rfl
    have hhigh : Int.negSucc k + 1 = -(k : ℤ) := by omega
    rw [hhigh, hlow, point_neg, point_neg]
    exact neg_lt_neg (hup k)

theorem point_lt_iff (f : Format) {i j : ℤ} : f.point i < f.point j ↔ i < j :=
  (strictMono_int_of_lt_succ f.point_lt_succ).lt_iff_lt

theorem point_le_iff (f : Format) {i j : ℤ} : f.point i ≤ f.point j ↔ i ≤ j :=
  (strictMono_int_of_lt_succ f.point_lt_succ).le_iff_le

/-- A rational lies between the middles of a point and its neighbours. The middles belong to the
points with even patterns. -/
structure Around (f : Format) (q : ℚ) (i : ℤ) : Prop where
  low : f.point (i - 1) + f.point i ≤ 2 * q
  high : 2 * q ≤ f.point i + f.point (i + 1)
  inside : ¬ Even i → f.point (i - 1) + f.point i < 2 * q ∧ 2 * q < f.point i + f.point (i + 1)

/-! ## Quotients -/

section Quotient
variable {f : Format} {a b c k n : ℕ}

theorem middle_le_div_iff (hc : 0 < c) : f.point a + f.point b ≤ 2 * (n / c : ℚ) ↔
    (f.units a + f.units b) * c ≤ 2 * (n * 2 ^ f.scale) := by
  have hcast : (0 : ℚ) < c := by exact_mod_cast hc
  rw [point_natCast, point_natCast, ← add_div, ← mul_div_assoc,
    div_le_div_iff₀ (by positivity) hcast, mul_assoc]
  exact_mod_cast Iff.rfl

theorem div_le_middle_iff (hc : 0 < c) : 2 * (n / c : ℚ) ≤ f.point a + f.point b ↔
    2 * (n * 2 ^ f.scale) ≤ (f.units a + f.units b) * c := by
  have hcast : (0 : ℚ) < c := by exact_mod_cast hc
  rw [point_natCast, point_natCast, ← add_div, ← mul_div_assoc,
    div_le_div_iff₀ hcast (by positivity), mul_assoc]
  exact_mod_cast Iff.rfl

/-- A quotient lies around a magnitude if it does so in units. -/
theorem around_div (hc : 0 < c)
    (hlow : (f.units (k - 1) + f.units k) * c ≤ 2 * (n * 2 ^ f.scale))
    (hhigh : 2 * (n * 2 ^ f.scale) ≤ (f.units k + f.units (k + 1)) * c)
    (hinside : k % 2 = 1 → (f.units (k - 1) + f.units k) * c < 2 * (n * 2 ^ f.scale) ∧
      2 * (n * 2 ^ f.scale) < (f.units k + f.units (k + 1)) * c) : f.Around (n / c) k := by
  have hodd : ¬ Even (k : ℤ) → k % 2 = 1 := by
    rw [Int.even_coe_nat, Nat.even_iff]
    omega
  rcases Nat.eq_zero_or_pos k with rfl | hk
  · have hbelow : f.point (0 - 1) < f.point 0 := f.point_lt_iff.mpr (by omega)
    have hpos : (0 : ℚ) ≤ n / c := by positivity
    have hmiddle : f.point (0 - 1) + f.point 0 ≤ 2 * (n / c : ℚ) := by
      rw [f.point_zero] at hbelow ⊢
      rw [add_zero]
      exact hbelow.le.trans (mul_nonneg zero_le_two hpos)
    exact ⟨hmiddle, (div_le_middle_iff hc).mpr hhigh, fun h => absurd (hodd h) (by decide)⟩
  · have hprevious : (k : ℤ) - 1 = (k - 1 : ℕ) := by omega
    refine ⟨?_, (div_le_middle_iff hc).mpr hhigh, fun h => ?_⟩
    · rw [hprevious]
      exact (middle_le_div_iff hc).mpr hlow
    · obtain ⟨hl, hh⟩ := hinside (hodd h)
      rw [hprevious]
      exact ⟨lt_of_not_ge (mt (div_le_middle_iff hc).mp (Nat.not_le.mpr hl)),
        lt_of_not_ge (mt (middle_le_div_iff hc).mp (Nat.not_le.mpr hh))⟩

end Quotient

/-! ## Distances -/

theorem dist_le_iff {q a b : ℚ} : |q - a| ≤ |q - b| ↔ 0 ≤ (a - b) * (2 * q - (a + b)) := by
  rw [← sq_le_sq]
  constructor <;> intro h <;> linarith

theorem dist_lt_iff {q a b : ℚ} : |q - a| < |q - b| ↔ 0 < (a - b) * (2 * q - (a + b)) := by
  rw [← sq_lt_sq]
  constructor <;> intro h <;> linarith

namespace Around
variable {f : Format} {q : ℚ} {i : ℤ}

/-- Zero lies around itself. -/
theorem zero (f : Format) : f.Around 0 0 := by
  have hbelow : f.point (0 - 1) < f.point 0 := f.point_lt_iff.mpr (by omega)
  have habove : f.point 0 < f.point (0 + 1) := f.point_lt_succ 0
  rw [f.point_zero] at hbelow habove
  refine ⟨?_, ?_, fun hodd => absurd Even.zero hodd⟩
  · rw [f.point_zero]
    linarith
  · rw [f.point_zero]
    linarith

theorem neg (h : f.Around q i) : f.Around (-q) (-i) := by
  have hbelow : f.point (-i - 1) = -f.point (i + 1) := by rw [← point_neg]; congr 1; ring
  have habove : f.point (-i + 1) = -f.point (i - 1) := by rw [← point_neg]; congr 1; ring
  refine ⟨?_, ?_, fun hodd => ?_⟩
  · rw [hbelow, point_neg]
    linarith [h.high]
  · rw [habove, point_neg]
    linarith [h.low]
  · obtain ⟨hlow, hhigh⟩ := h.inside (mt even_neg.mpr hodd)
    rw [hbelow, habove, point_neg]
    exact ⟨by linarith, by linarith⟩

/-- What lies between two rationals around a point lies around it. -/
theorem of_between {p r : ℚ} (hp : f.Around p i) (hr : f.Around r i) (hpq : p ≤ q) (hqr : q ≤ r) :
    f.Around q i := by
  refine ⟨by linarith [hp.low], by linarith [hr.high], fun hodd => ⟨?_, ?_⟩⟩
  · linarith [(hp.inside hodd).1]
  · linarith [(hr.inside hodd).2]

/-- Intervals do not overlap: of two neighbouring points only one has the middle between them. -/
theorem lt_of_index_lt {p : ℚ} {j : ℤ} (hp : f.Around p i) (hq : f.Around q j) (h : i < j) :
    p < q := by
  have habove : f.point (i + 1) ≤ f.point j := f.point_le_iff.mpr (by omega)
  rcases Int.lt_or_eq_of_le (Int.add_one_le_of_lt h) with hfar | rfl
  · have hbelow : f.point i < f.point (j - 1) := f.point_lt_iff.mpr (by omega)
    linarith [hp.high, hq.low]
  · have hmiddle := hq.low
    rw [add_sub_cancel_right] at hmiddle
    by_cases heven : Even i
    · have hstrict := (hq.inside (Int.not_even_iff_odd.mpr heven.add_one)).1
      rw [add_sub_cancel_right] at hstrict
      linarith [hp.high]
    · linarith [(hp.inside heven).2]

theorem dist_le (h : f.Around q i) (j : ℤ) : |q - f.point i| ≤ |q - f.point j| := by
  rw [dist_le_iff]
  rcases lt_trichotomy j i with hj | rfl | hj
  · have hstep : f.point j ≤ f.point (i - 1) := f.point_le_iff.mpr (by omega)
    have hless : f.point j < f.point i := f.point_lt_iff.mpr hj
    exact mul_nonneg (by linarith) (by linarith [h.low])
  · simp
  · have hstep : f.point (i + 1) ≤ f.point j := f.point_le_iff.mpr (by omega)
    have hless : f.point i < f.point j := f.point_lt_iff.mpr hj
    exact mul_nonneg_of_nonpos_of_nonpos (by linarith) (by linarith [h.high])

theorem even_of_dist_eq (h : f.Around q i) {j : ℤ} (hne : j ≠ i)
    (he : |q - f.point j| = |q - f.point i|) : Even i := by
  by_contra hodd
  obtain ⟨hlow, hhigh⟩ := h.inside hodd
  refine absurd he (ne_of_gt ?_)
  rw [dist_lt_iff]
  rcases lt_or_gt_of_ne hne with hj | hj
  · have hstep : f.point j ≤ f.point (i - 1) := f.point_le_iff.mpr (by omega)
    have hless : f.point j < f.point i := f.point_lt_iff.mpr hj
    exact mul_pos (by linarith) (by linarith)
  · have hstep : f.point (i + 1) ≤ f.point j := f.point_le_iff.mpr (by omega)
    have hless : f.point i < f.point j := f.point_lt_iff.mpr hj
    exact mul_pos_of_neg_of_neg (by linarith) (by linarith)

end Around

theorem infinity_lt (f : Format) : f.infinity < 2 ^ f.magnitudeBits := by
  rw [infinity, magnitudeBits, Nat.pow_add]
  exact Nat.mul_lt_mul_of_pos_right (Nat.sub_lt (Nat.two_pow_pos _) Nat.one_pos)
    (Nat.two_pow_pos _)

end Format

namespace Binary
variable {f : Format}

/-! ## Numbers -/

/-- A number of the format as a rational. Infinity counts as the magnitude that one more exponent
would have. -/
def toRat (x : Binary f) : ℚ := (if x.negative then -1 else 1) * (f.units x.pattern / 2 ^ f.scale)

/-- **Rounding**: a number is nearest to a rational, and its pattern is even when another number is
equally near. Infinities are among the numbers, so that what lies far beyond the finite ones rounds
to none of them. -/
structure IsNearest (x : Binary f) (q : ℚ) : Prop where
  number : x.isNaN = false
  nearest : ∀ y : Binary f, y.isNaN = false → |q - x.toRat| ≤ |q - y.toRat|
  even : ∀ y : Binary f, y.isNaN = false → |q - y.toRat| = |q - x.toRat| → y.toRat ≠ x.toRat →
    x.pattern % 2 = 0

/-- The index of the point of a number. Both zeros have the same one. -/
def index (x : Binary f) : ℤ := if x.negative then -x.pattern else x.pattern

theorem toRat_eq_point (x : Binary f) : x.toRat = f.point x.index := by
  rw [toRat, index]
  cases x.negative
  · simp [Format.point_natCast]
  · simp [Format.point_neg, Format.point_natCast]

theorem even_index_iff {x : Binary f} : Even x.index ↔ x.pattern % 2 = 0 := by
  rw [← Nat.even_iff, index]
  split
  · rw [even_neg, Int.even_coe_nat]
  · rw [Int.even_coe_nat]

theorem natAbs_index (x : Binary f) : x.index.natAbs = x.pattern := by
  rw [index]
  split <;> simp

theorem isNaN_eq_false_iff {x : Binary f} : x.isNaN = false ↔ x.index.natAbs ≤ f.infinity := by
  rw [natAbs_index, isNaN, decide_eq_false_iff_not, Nat.not_lt]

theorem exists_index {i : ℤ} (h : i.natAbs ≤ f.infinity) : ∃ x : Binary f, x.index = i := by
  have hlt : i.natAbs < 2 ^ f.magnitudeBits := Nat.lt_of_le_of_lt h f.infinity_lt
  refine ⟨ofPattern (decide (i < 0)) i.natAbs, ?_⟩
  rw [index, negative_ofPattern _ hlt, pattern_ofPattern _ hlt]
  split <;> rename_i hi <;> simp at hi <;> omega

/-- **A rational rounds to the point it lies around.** -/
theorem isNearest_of_around {x : Binary f} {q : ℚ} (hx : x.isNaN = false)
    (h : f.Around q x.index) : x.IsNearest q := by
  refine ⟨hx, fun y _ => ?_, fun y _ he hne => ?_⟩
  · rw [toRat_eq_point, toRat_eq_point]
    exact h.dist_le y.index
  · rw [toRat_eq_point, toRat_eq_point] at he
    refine even_index_iff.mp (h.even_of_dist_eq (fun hi => hne ?_) he)
    rw [toRat_eq_point, toRat_eq_point, hi]

/-- A nearest number and one at a neighbouring point have the middle between them on the side of the
other, and the middle itself goes to an even pattern. -/
theorem middle_of_isNearest {x y : Binary f} {q : ℚ} (h : x.IsNearest q) (hy : y.isNaN = false)
    (hne : y.toRat ≠ x.toRat) : 0 ≤ (x.toRat - y.toRat) * (2 * q - (x.toRat + y.toRat)) ∧
      (¬ Even x.index → 2 * q ≠ x.toRat + y.toRat) := by
  refine ⟨Format.dist_le_iff.mp (h.nearest y hy), fun hodd he => ?_⟩
  have hdist : |q - y.toRat| = |q - x.toRat| := by
    rw [← neg_sub (x.toRat) q, abs_neg]
    congr 1
    linarith
  exact hodd (even_index_iff.mpr (h.even y hy hdist hne))

/-- **A rational that rounds to a finite number lies around its point.** -/
theorem around_of_isNearest {x : Binary f} {q : ℚ} (hx : x.isFinite = true) (h : x.IsNearest q) :
    f.Around q x.index := by
  rw [isFinite, decide_eq_true_eq, ← natAbs_index] at hx
  obtain ⟨y, hy⟩ : ∃ y : Binary f, y.index = x.index - 1 := exists_index (by omega)
  obtain ⟨z, hz⟩ : ∃ z : Binary f, z.index = x.index + 1 := exists_index (by omega)
  have hbelow : f.point (x.index - 1) < f.point x.index := f.point_lt_iff.mpr (by omega)
  have habove : f.point x.index < f.point (x.index + 1) := f.point_lt_succ _
  have hyn : y.isNaN = false := isNaN_eq_false_iff.mpr (by omega)
  have hzn : z.isNaN = false := isNaN_eq_false_iff.mpr (by omega)
  have hyx : y.toRat ≠ x.toRat := by
    rw [toRat_eq_point, toRat_eq_point, hy]
    exact hbelow.ne
  have hzx : z.toRat ≠ x.toRat := by
    rw [toRat_eq_point, toRat_eq_point, hz]
    exact habove.ne'
  obtain ⟨hlow, hlowne⟩ := middle_of_isNearest h hyn hyx
  obtain ⟨hhigh, hhighne⟩ := middle_of_isNearest h hzn hzx
  simp only [toRat_eq_point, hy, hz] at hlow hlowne hhigh hhighne
  have hl : f.point (x.index - 1) + f.point x.index ≤ 2 * q := by
    have := nonneg_of_mul_nonneg_right hlow (by linarith)
    linarith
  have hh : 2 * q ≤ f.point x.index + f.point (x.index + 1) := by
    have := nonpos_of_mul_nonneg_right hhigh (by linarith)
    linarith
  refine ⟨hl, hh, fun hodd => ⟨lt_of_le_of_ne hl fun he => ?_, lt_of_le_of_ne hh (hhighne hodd)⟩⟩
  exact hlowne hodd (by rw [← he, add_comm])

/-- Of two numbers with even patterns neither is the one next to the other. -/
theorem not_both_nearest_of_lt {x y : Binary f} {q : ℚ} (hx : x.IsNearest q) (hy : y.IsNearest q)
    (hlt : x.toRat < y.toRat) : False := by
  have hdist : |q - x.toRat| = |q - y.toRat| :=
    le_antisymm (hx.nearest y hy.number) (hy.nearest x hx.number)
  have hxe : Even x.index := even_index_iff.mpr (hx.even y hy.number hdist.symm hlt.ne')
  have hye : Even y.index := even_index_iff.mpr (hy.even x hx.number hdist hlt.ne)
  have hindex : x.index < y.index := by
    rwa [toRat_eq_point, toRat_eq_point, f.point_lt_iff] at hlt
  have hgap : x.index + 1 < y.index := by
    obtain ⟨a, ha⟩ := hxe
    obtain ⟨b, hb⟩ := hye
    omega
  have hxb := isNaN_eq_false_iff.mp hx.number
  have hyb := isNaN_eq_false_iff.mp hy.number
  obtain ⟨z, hz⟩ : ∃ z : Binary f, z.index = x.index + 1 := exists_index (by omega)
  have hzn : z.isNaN = false := isNaN_eq_false_iff.mpr (by rw [hz]; omega)
  have hxz : x.toRat < z.toRat := by
    rw [toRat_eq_point, toRat_eq_point, hz]
    exact f.point_lt_succ x.index
  have hzy : z.toRat < y.toRat := by
    rw [toRat_eq_point, toRat_eq_point, hz]
    exact f.point_lt_iff.mpr hgap
  -- The rational is in the middle, so the number between is nearer.
  have hmid : (x.toRat - y.toRat) * (2 * q - (x.toRat + y.toRat)) = 0 :=
    le_antisymm (by linarith [Format.dist_le_iff.mp hdist.ge]) (Format.dist_le_iff.mp hdist.le)
  have hq : 2 * q = x.toRat + y.toRat := by
    rcases mul_eq_zero.mp hmid with h | h <;> linarith
  have hnear := Format.dist_le_iff.mp (hx.nearest z hzn)
  have hneg : (x.toRat - z.toRat) * (2 * q - (x.toRat + z.toRat)) < 0 :=
    mul_neg_of_neg_of_pos (by linarith) (by linarith)
  linarith

/-- **A rational rounds to one number only**, the two zeros being one. -/
theorem IsNearest.toRat_eq {x y : Binary f} {q : ℚ} (hx : x.IsNearest q) (hy : y.IsNearest q) :
    x.toRat = y.toRat := by
  rcases lt_trichotomy x.toRat y.toRat with h | h | h
  · exact absurd h fun h => not_both_nearest_of_lt hx hy h
  · exact h
  · exact absurd h fun h => not_both_nearest_of_lt hy hx h

theorem toRat_inj {x y : Binary f} : x.toRat = y.toRat ↔ x.index = y.index := by
  rw [toRat_eq_point, toRat_eq_point, le_antisymm_iff, f.point_le_iff, f.point_le_iff,
    ← le_antisymm_iff]

/-- What rounds to a number are the numbers equal to it. -/
theorem isNearest_iff_of_around {x : Binary f} {q : ℚ} (hx : x.isNaN = false)
    (h : f.Around q x.index) (y : Binary f) : y.IsNearest q ↔ y.toRat = x.toRat := by
  constructor
  · intro hy
    exact hy.toRat_eq (isNearest_of_around hx h)
  · intro he
    rw [toRat_inj] at he
    exact isNearest_of_around (isNaN_eq_false_iff.mpr (he ▸ isNaN_eq_false_iff.mp hx)) (he ▸ h)

/-! ## Equal numbers -/

section Zero
variable {x y : Binary f}

theorem toNat_bits (x : Binary f) :
    x.bits.toNat = (if x.negative then 2 ^ f.magnitudeBits else 0) + x.pattern := by
  have hbits : x.bits.toNat < 2 * 2 ^ f.magnitudeBits := two_pow_width f ▸ x.bits.isLt
  rw [pattern, Binary.negative, BitVec.msb_eq_decide, show f.width - 1 = f.magnitudeBits from rfl]
  split
  · rename_i h
    rw [decide_eq_true_eq] at h
    rw [Nat.mod_eq_sub_mod h, Nat.mod_eq_of_lt (by omega)]
    omega
  · rename_i h
    rw [decide_eq_true_eq, Nat.not_le] at h
    rw [Nat.zero_add, Nat.mod_eq_of_lt h]

theorem eq_of_negative_of_pattern (hn : x.negative = y.negative) (hp : x.pattern = y.pattern) :
    x = y := by
  have hbits : x.bits = y.bits := by
    apply BitVec.eq_of_toNat_eq
    rw [toNat_bits, toNat_bits, hn, hp]
  cases x
  cases y
  exact congrArg Binary.mk hbits

theorem isNaN_eq_false_of_isFinite (hx : x.isFinite = true) : x.isNaN = false := by
  rw [isFinite, decide_eq_true_eq] at hx
  rw [isNaN, decide_eq_false_iff_not, Nat.not_lt]
  exact hx.le

theorem isInfinite_eq_false_of_isFinite (hx : x.isFinite = true) : x.isInfinite = false := by
  rw [isFinite, decide_eq_true_eq] at hx
  simpa [isInfinite] using hx.ne

theorem pattern_pos (hz : x.isZero = false) : 0 < x.pattern := by
  rw [Nat.pos_iff_ne_zero]
  simpa [isZero] using hz

theorem isNaN_eq_false_of_isZero (hx : x.isZero = true) : x.isNaN = false := by
  rw [isZero, beq_iff_eq] at hx
  rw [isNaN, decide_eq_false_iff_not, Nat.not_lt, hx]
  exact Nat.zero_le _

theorem isZero_iff : x.isZero = true ↔ x.index = 0 := by
  rw [← Int.natAbs_eq_zero, natAbs_index, isZero, beq_iff_eq]

theorem isZero_of_negative (hx : 0 ≤ x.index) (hn : x.negative = true) : x.isZero = true := by
  have hindex : x.index = -x.pattern := if_pos hn
  exact isZero_iff.mpr (by omega)

theorem eq_zero_of_isZero (hz : x.isZero = true) : x = ofPattern x.negative 0 := by
  have hlt : 0 < 2 ^ f.magnitudeBits := Nat.two_pow_pos _
  refine eq_of_negative_of_pattern (negative_ofPattern _ hlt).symm ?_
  rw [pattern_ofPattern _ hlt]
  exact eq_of_beq hz

/-- Only the zeros are equal as numbers without being the same. -/
theorem toRat_eq_iff : x.toRat = y.toRat ↔ x = y ∨ (x.isZero = true ∧ y.isZero = true) := by
  rw [toRat_inj]
  constructor
  · intro h
    have hp : x.pattern = y.pattern := by rw [← natAbs_index, ← natAbs_index, h]
    by_cases hz : x.index = 0
    · exact .inr ⟨isZero_iff.mpr hz, isZero_iff.mpr (h ▸ hz)⟩
    · refine .inl (eq_of_negative_of_pattern ?_ hp)
      rw [index] at hz
      rw [index, index, ← hp] at h
      cases hx : x.negative <;> cases hy : y.negative <;> simp [hx, hy] at h hz ⊢ <;> omega
  · rintro (rfl | ⟨hx, hy⟩)
    · rfl
    · rw [isZero_iff.mp hx, isZero_iff.mp hy]

end Zero

end Binary

end AdminPanel
