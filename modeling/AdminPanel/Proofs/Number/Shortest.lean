import AdminPanel.Number.Shortest
import AdminPanel.Proofs.Number.Rounding

/-! # Shortest decimals

The search ends on the coarsest grid of powers of ten that has a point in the interval of the
numbers that round to a magnitude. Of the points on this grid it takes the one nearest to the
magnitude, and of two equally near ones the greater (`Interval.best_search`). On the finest grid the
interval holds the magnitude itself, so there always is such a point, and it rounds back
(`around_decimal`). -/
namespace AdminPanel
open scoped Format

/-- The rational that a decimal stands for. -/
def Decimal.value (d : Decimal) : ℚ := d.coefficient * 10 ^ d.exponent

namespace Shortest

namespace Interval
variable {i : Interval} {step n : ℕ}

/-! ## Grids -/

theorem contains_iff {i : Interval} {x : ℕ} :
    i.contains x = true ↔ (i.lowTwice ≤ 2 * x ∧ 2 * x ≤ i.highTwice) ∧
      (i.closed = false → i.lowTwice < 2 * x ∧ 2 * x < i.highTwice) := by
  rw [contains]
  cases i.closed
  · simp
    omega
  · simp

theorem contains_of_between {a b c : ℕ} (ha : i.contains a = true) (hb : i.contains b = true)
    (hac : a ≤ c) (hcb : c ≤ b) : i.contains c = true := by
  rw [contains_iff] at ha hb ⊢
  refine ⟨by omega, fun h => ?_⟩
  have hlow := (ha.2 h).1
  have hhigh := (hb.2 h).2
  omega

/-- A grid with a point in the interval has one next to the value, on the same side. -/
theorem contains_neighbour (hv : i.contains i.value = true) (hs : 0 < step)
    (hn : i.contains (n * step) = true) :
    (n ≤ i.value / step ∧ i.contains (i.value / step * step) = true) ∨
      (i.value / step + 1 ≤ n ∧ i.contains ((i.value / step + 1) * step) = true) := by
  have hbelow : i.value / step * step ≤ i.value := Nat.div_mul_le_self _ _
  have habove : i.value ≤ (i.value / step + 1) * step :=
    (Nat.lt_mul_of_div_lt (Nat.lt_succ_self _) hs).le
  rcases Nat.lt_or_ge (i.value / step) n with h | h
  · exact .inr ⟨h, contains_of_between hv hn habove (Nat.mul_le_mul_right step h)⟩
  · exact .inl ⟨h, contains_of_between hn hv (Nat.mul_le_mul_right step h) hbelow⟩

theorem not_contains_of_onGrid? (hv : i.contains i.value = true) (hs : 0 < step)
    (h : i.onGrid? step = none) (n : ℕ) : i.contains (n * step) = false := by
  by_contra hn
  rw [onGrid?] at h
  rcases contains_neighbour hv hs (Bool.eq_true_of_not_eq_false hn) with ⟨-, hc⟩ | ⟨-, hc⟩
  · rw [hc] at h
    cases habove : i.contains ((i.value / step + 1) * step) <;> simp [habove] at h
  · rw [hc] at h
    cases hbelow : i.contains (i.value / step * step) <;> simp [hbelow] at h

/-! ## Distances -/

/-- How far a point is from the value. -/
def distance (i : Interval) (x : ℕ) : ℕ := ((x : ℤ) - i.value).natAbs

theorem distance_below : i.distance (i.value / step * step) = i.value % step := by
  have hvalue := Nat.div_add_mod' i.value step
  rw [distance]
  omega

theorem distance_above (hs : 0 < step) :
    i.distance ((i.value / step + 1) * step) = step - i.value % step := by
  have hvalue := Nat.div_add_mod' i.value step
  have hmod := Nat.mod_lt i.value hs
  rw [distance, Nat.succ_mul]
  omega

theorem lt_distance_of_lt_below (hs : 0 < step) (h : n < i.value / step) :
    i.value % step < i.distance (n * step) := by
  have hvalue := Nat.div_add_mod' i.value step
  have hless : (n + 1) * step ≤ i.value / step * step := Nat.mul_le_mul_right step h
  rw [Nat.succ_mul] at hless
  rw [distance]
  omega

theorem lt_distance_of_above_lt (hs : 0 < step) (h : i.value / step + 1 < n) :
    step - i.value % step < i.distance (n * step) := by
  have hvalue := Nat.div_add_mod' i.value step
  have hmod := Nat.mod_lt i.value hs
  have hmore : (i.value / step + 1 + 1) * step ≤ n * step := Nat.mul_le_mul_right step h
  rw [Nat.succ_mul, Nat.succ_mul] at hmore
  rw [distance]
  omega

/-! ## The point preferred on a grid -/

/-- A point of the interval that no other one on its grid is preferred to. -/
structure Preferred (i : Interval) (step point : ℕ) : Prop where
  inside : i.contains (point * step) = true
  nearest : ∀ n, i.contains (n * step) = true → i.distance (point * step) ≤ i.distance (n * step)
  greater : ∀ n, i.contains (n * step) = true → i.distance (n * step) = i.distance (point * step) →
    n ≤ point

/-- The point below is preferred when it is nearer, or the only one of the two neighbours inside. -/
theorem preferred_below (hv : i.contains i.value = true) (hs : 0 < step)
    (hin : i.contains (i.value / step * step) = true)
    (h : i.contains ((i.value / step + 1) * step) = true → 2 * (i.value % step) < step) :
    i.Preferred step (i.value / step) := by
  have hside : ∀ n, i.contains (n * step) = true → n ≤ i.value / step ∨
      i.value % step < i.distance (n * step) := by
    intro n hn
    rcases contains_neighbour hv hs hn with ⟨hle, -⟩ | ⟨hle, hc⟩
    · exact .inl hle
    · have hnear := h hc
      rcases Nat.eq_or_lt_of_le hle with rfl | hlt
      · rw [distance_above hs]
        omega
      · have hfar := lt_distance_of_above_lt hs hlt
        omega
  refine ⟨hin, fun n hn => ?_, fun n hn he => ?_⟩
  · rw [distance_below]
    rcases hside n hn with hle | hlt
    · rcases Nat.eq_or_lt_of_le hle with rfl | hlt
      · rw [distance_below]
      · exact (lt_distance_of_lt_below hs hlt).le
    · exact hlt.le
  · rw [distance_below] at he
    exact (hside n hn).resolve_right he.not_gt

/-- The point above is preferred when it is at least as near, or the only one inside. -/
theorem preferred_above (hv : i.contains i.value = true) (hs : 0 < step)
    (hin : i.contains ((i.value / step + 1) * step) = true)
    (h : i.contains (i.value / step * step) = true → step ≤ 2 * (i.value % step)) :
    i.Preferred step (i.value / step + 1) := by
  have hmod := Nat.mod_lt i.value hs
  refine ⟨hin, fun n hn => ?_, fun n hn he => ?_⟩
  · rw [distance_above hs]
    rcases contains_neighbour hv hs hn with ⟨hle, hc⟩ | ⟨hle, -⟩
    · have hnear := h hc
      rcases Nat.eq_or_lt_of_le hle with rfl | hlt
      · rw [distance_below]
        omega
      · have hfar := lt_distance_of_lt_below hs hlt
        omega
    · rcases Nat.eq_or_lt_of_le hle with rfl | hlt
      · rw [distance_above hs]
      · exact (lt_distance_of_above_lt hs hlt).le
  · rw [distance_above hs] at he
    by_contra hlt
    exact (lt_distance_of_above_lt hs (Nat.not_le.mp hlt)).ne' he

theorem preferred_of_onGrid? (hv : i.contains i.value = true) (hs : 0 < step) {point : ℕ}
    (h : i.onGrid? step = some point) : i.Preferred step point := by
  cases hbelow : i.contains (i.value / step * step) <;>
    cases habove : i.contains ((i.value / step + 1) * step) <;>
    simp only [onGrid?, hbelow, habove, Option.some.injEq, reduceCtorEq] at h <;> subst h
  · exact preferred_above hv hs habove (by simp [hbelow])
  · exact preferred_below hv hs hbelow (by simp [habove])
  · split
    · rename_i hnear
      exact preferred_below hv hs hbelow fun _ => hnear
    · rename_i hnear
      exact preferred_above hv hs habove fun _ => Nat.not_lt.mp hnear

/-! ## The coarsest grid -/

/-- What the search ends on: the preferred point of the coarsest grid that has one. -/
structure Best (i : Interval) (found : ℕ × ℕ) : Prop where
  preferred : i.Preferred (10 ^ found.2) found.1
  coarsest : ∀ exponent, found.2 < exponent → ∀ n, i.contains (n * 10 ^ exponent) = false

/-- By induction from the finest grid on: a grid that has no point is left for the next finer one. -/
theorem best_search (hv : i.contains i.value = true) (top : ℕ)
    (htop : ∀ exponent, top < exponent → ∀ n, i.contains (n * 10 ^ exponent) = false) :
    i.Best (i.search top) := by
  induction top with
  | zero =>
    have hself : i.distance (i.value * 10 ^ 0) = 0 := by simp [distance]
    refine ⟨⟨by simpa [search] using hv, fun n _ => ?_, fun n _ he => ?_⟩, htop⟩
    · show i.distance (i.value * 10 ^ 0) ≤ _
      rw [hself]
      exact Nat.zero_le _
    · have hzero : i.distance (n * 10 ^ 0) = 0 := he.trans hself
      rw [distance] at hzero
      show n ≤ i.value
      omega
  | succ top ih =>
    have hs : 0 < 10 ^ (top + 1) := Nat.pow_pos (by decide)
    rw [search]
    split
    · rename_i point hpoint
      exact ⟨preferred_of_onGrid? hv hs hpoint, htop⟩
    · rename_i hnone
      refine ih fun exponent hlt n => ?_
      rcases Nat.eq_or_lt_of_le (Nat.succ_le_of_lt hlt) with rfl | hless
      · exact not_contains_of_onGrid? hv hs hnone n
      · exact htop exponent hless n

/-- Above the top no grid has a point but zero. -/
theorem not_contains_above_top (hlow : 0 < i.lowTwice) {exponent : ℕ} (h : i.top < exponent)
    (n : ℕ) : i.contains (n * 10 ^ exponent) = false := by
  by_contra hc
  obtain ⟨⟨hl, hh⟩, -⟩ := contains_iff.mp (Bool.eq_true_of_not_eq_false hc)
  rcases Nat.eq_zero_or_pos n with rfl | hn
  · omega
  · have hbits : i.highTwice < 2 ^ (13 * (i.highTwice.log2 / 13 + 1)) :=
      Nat.lt_log2_self.trans_le (Nat.pow_le_pow_right (by decide) (by omega))
    have hdigits : 2 ^ (13 * (i.highTwice.log2 / 13 + 1)) ≤ 10 ^ i.top := by
      rw [top, Nat.pow_mul, Nat.pow_mul]
      exact Nat.pow_le_pow_left (by decide) _
    have htop : 10 ^ i.top ≤ n * 10 ^ exponent :=
      (Nat.pow_le_pow_right (by decide) h.le).trans (Nat.le_mul_of_pos_left _ hn)
    omega

end Interval

/-- A magnitude that is not zero lies between the middles of it and its neighbours. -/
theorem contains_value (f : Format) {pattern : ℕ} (h : 0 < pattern) :
    (interval f pattern).contains (interval f pattern).value = true := by
  have hbelow : f.units (pattern - 1) < f.units pattern := f.units_strictMono (by omega)
  have habove := f.units_lt_succ pattern
  have hscale : 0 < 5 ^ f.scale := Nat.pow_pos (by decide)
  have hlow : (f.units (pattern - 1) + f.units pattern) * 5 ^ f.scale <
      2 * (f.units pattern * 5 ^ f.scale) := by
    rw [← Nat.mul_assoc]
    exact Nat.mul_lt_mul_of_pos_right (by omega) hscale
  have hhigh : 2 * (f.units pattern * 5 ^ f.scale) <
      (f.units pattern + f.units (pattern + 1)) * 5 ^ f.scale := by
    rw [← Nat.mul_assoc]
    exact Nat.mul_lt_mul_of_pos_right (by omega) hscale
  exact Interval.contains_iff.mpr ⟨⟨hlow.le, hhigh.le⟩, fun _ => ⟨hlow, hhigh⟩⟩

/-! ## Intervals on the line

An interval is counted in units of ten, the points of a format in units of two. -/

section Middle
variable {f : Format} {a b x : ℕ}

theorem mul_ten_pow (n : ℕ) : n * 10 ^ f.scale = n * 5 ^ f.scale * 2 ^ f.scale := by
  rw [Nat.mul_assoc, ← Nat.mul_pow]

theorem middle_le_iff : f.point a + f.point b ≤ 2 * (x / (10 ^ f.scale : ℕ) : ℚ) ↔
    (f.units a + f.units b) * 5 ^ f.scale ≤ 2 * x := by
  rw [Format.middle_le_div_iff (Nat.pow_pos (by decide)), mul_ten_pow, ← Nat.mul_assoc,
    Nat.mul_le_mul_right_iff (Nat.two_pow_pos _)]

theorem le_middle_iff : 2 * (x / (10 ^ f.scale : ℕ) : ℚ) ≤ f.point a + f.point b ↔
    2 * x ≤ (f.units a + f.units b) * 5 ^ f.scale := by
  rw [Format.div_le_middle_iff (Nat.pow_pos (by decide)), mul_ten_pow, ← Nat.mul_assoc,
    Nat.mul_le_mul_right_iff (Nat.two_pow_pos _)]

end Middle

/-- The interval of a magnitude contains the points that lie around it. -/
theorem contains_iff_around {f : Format} {pattern x : ℕ} (h : 0 < pattern) :
    (interval f pattern).contains x = true ↔ f.Around (x / (10 ^ f.scale : ℕ)) pattern := by
  have hprevious : (pattern : ℤ) - 1 = (pattern - 1 : ℕ) := by omega
  have hopen : (interval f pattern).closed = false ↔ ¬ Even (pattern : ℤ) := by
    rw [Int.even_coe_nat, Nat.even_iff]
    simp [interval]
  rw [Interval.contains_iff, hopen]
  constructor
  · rintro ⟨⟨hlow, hhigh⟩, hinside⟩
    refine ⟨?_, le_middle_iff.mpr hhigh, fun hodd => ⟨?_, ?_⟩⟩
    · rw [hprevious]
      exact middle_le_iff.mpr hlow
    · rw [hprevious, ← not_le]
      exact mt le_middle_iff.mp (Nat.not_le.mpr (hinside hodd).1)
    · rw [← not_le]
      exact mt middle_le_iff.mp (Nat.not_le.mpr (hinside hodd).2)
  · rintro ⟨hlow, hhigh, hinside⟩
    rw [hprevious] at hlow hinside
    refine ⟨⟨middle_le_iff.mp hlow, le_middle_iff.mp hhigh⟩, fun hodd => ⟨?_, ?_⟩⟩
    · exact Nat.not_le.mp (mt le_middle_iff.mpr (not_le.mpr (hinside hodd).1))
    · exact Nat.not_le.mp (mt middle_le_iff.mpr (not_le.mpr (hinside hodd).2))

/-- A point of a grid as a decimal. -/
theorem value_onGrid (f : Format) (n exponent : ℕ) :
    (⟨n, exponent - (f.scale : ℤ)⟩ : Decimal).value =
      (n * 10 ^ exponent : ℕ) / (10 ^ f.scale : ℕ) := by
  rw [Decimal.value, zpow_sub₀ (by norm_num), zpow_natCast, zpow_natCast]
  push_cast
  ring

/-- The search of a magnitude that is not zero. -/
theorem best_of_pos (f : Format) {pattern : ℕ} (h : 0 < pattern) :
    (interval f pattern).Best ((interval f pattern).search (interval f pattern).top) := by
  have hlow : 0 < (interval f pattern).lowTwice := by
    have hless : f.units 0 < f.units pattern := f.units_strictMono h
    exact Nat.mul_pos (by omega) (Nat.pow_pos (by decide))
  exact Interval.best_search (contains_value f h) _ fun _ hlt =>
    Interval.not_contains_above_top hlow hlt

/-- **The shortest decimal rounds back.** -/
theorem around_decimal (f : Format) {pattern : ℕ} (h : 0 < pattern) :
    f.Around (decimal f pattern).value pattern := by
  rw [decimal, value_onGrid]
  exact (contains_iff_around h).mp (best_of_pos f h).preferred.inside

end Shortest

end AdminPanel
