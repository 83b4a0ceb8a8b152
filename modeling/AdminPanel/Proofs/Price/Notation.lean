import AdminPanel.Proofs.Number.Fewest
import AdminPanel.Proofs.Price.Exact

/-! # The notation of numeric prices

A price is laid out by its shortest digits and by where the point stands among them, as browsers lay
out numbers. The bounds between the two notations are compared as binary numbers, one of which is
not the power of ten it stands for, but no number has its digits on the other side: the decimals that
round to a number below a bound are below all that round to the bound, and the shortest of these is
the power of ten itself (`point_le_iff_lt`). -/
namespace AdminPanel

namespace Price

/-- How digits are laid out, the number being `0.digits * 10 ^ point`. -/
inductive Layout (digits : List Char) (point : ℤ) : List Char → Prop
  | whole (hk : digits.length ≤ point) (h : point ≤ 21) :
      Layout digits point (digits ++ List.replicate (point - digits.length).toNat '0')
  | inside (h0 : 0 < point) (hk : point < digits.length) (h : point ≤ 21) :
      Layout digits point (digits.take point.toNat ++ '.' :: digits.drop point.toNat)
  | fraction (h : -6 < point) (h0 : point ≤ 0) :
      Layout digits point ('0' :: '.' :: (List.replicate (-point).toNat '0' ++ digits))
  | exponent {first : Char} {more : List Char} (hd : digits = first :: more)
      (h : point ≤ -6 ∨ 21 < point) :
      Layout digits point (first :: ((if more = [] then [] else '.' :: more) ++
        'e' :: (if point - 1 < 0 then '-' else '+') :: Nat.toDigits 10 (point - 1).natAbs))

/-! ## The bounds -/

/-- Where the shortest decimal of a bound is a power of ten, the magnitudes below the bound are
those with the point further left. -/
theorem point_le_iff_lt {f : Format} {bound pattern : ℕ} {n : ℤ} (hb : 0 < bound)
    (hbound : Shortest.decimal f bound = ⟨1, n⟩) (h : 0 < pattern) :
    (Shortest.decimal f pattern).point ≤ n ↔ pattern < bound := by
  have hne := Shortest.coefficient_ne_zero (f := f) h
  have hpower : f.Around (10 ^ n) bound := by
    have haround := Shortest.around_decimal f hb
    rwa [hbound, Decimal.value_pow] at haround
  have haround := Shortest.around_decimal f h
  have hten : (1 : ℚ) < 10 := by norm_num
  rcases lt_trichotomy pattern bound with hlt | rfl | hgt
  · have hless := haround.lt_of_index_lt hpower (by omega)
    have hpoint := (zpow_lt_zpow_iff_right₀ hten).mp ((Decimal.pow_point_le hne).trans_lt hless)
    exact iff_of_true (by omega) hlt
  · have hpoint : (Shortest.decimal f pattern).point = 1 + n := by
      rw [hbound, Decimal.point, Decimal.digits, Nat.toDigits_of_lt_base Nat.one_lt_ofNat]
      rfl
    exact iff_of_false (by omega) (Nat.lt_irrefl _)
  · have hmore := hpower.lt_of_index_lt haround (by omega)
    have hpoint := (zpow_lt_zpow_iff_right₀ hten).mp (hmore.trans (Decimal.value_lt _))
    exact iff_of_false (by omega) (by omega)

theorem decimal_plainFrom : Shortest.decimal .binary64 plainFrom.pattern = ⟨1, -6⟩ := by
  decide +kernel

theorem decimal_plainBelow : Shortest.decimal .binary64 plainBelow.pattern = ⟨1, 21⟩ := by
  decide +kernel

/-- The comparison of binary numbers decides by the position of the decimal point. -/
theorem writtenPlainly_iff {pattern : ℕ} (h : 0 < pattern) :
    writtenPlainly pattern = true ↔ -6 < (Shortest.decimal .binary64 pattern).point ∧
      (Shortest.decimal .binary64 pattern).point ≤ 21 := by
  have hfrom := point_le_iff_lt (by decide +kernel) decimal_plainFrom h
  have hbelow := point_le_iff_lt (by decide +kernel) decimal_plainBelow h
  rw [writtenPlainly, Bool.and_eq_true, decide_eq_true_eq, decide_eq_true_eq]
  omega

/-! ## The texts -/

theorem layout_plain {d : Decimal} (hlow : -6 < d.point) (hhigh : d.point ≤ 21) :
    Layout d.digits d.point d.plain.toList := by
  rw [Decimal.plain, String.toList_ofList]
  split
  · rename_i hzero
    exact .fraction hlow hzero
  · rename_i hpos
    split
    · rename_i hin
      exact .inside (Int.not_le.mp hpos) hin hhigh
    · rename_i hout
      have hzeros : d.point.toNat - d.digits.length = (d.point - d.digits.length).toNat := by omega
      rw [hzeros]
      exact .whole (Int.not_lt.mp hout) hhigh

theorem layout_exponent {d : Decimal} (h : d.point ≤ -6 ∨ 21 < d.point) :
    Layout d.digits d.point (d.mantissa ++ 'e' :: Decimal.signedText (d.point - 1)) := by
  obtain ⟨first, more, hd⟩ := List.exists_cons_of_ne_nil d.digits_ne_nil
  rw [Decimal.mantissa_append hd]
  exact .exponent hd h

theorem layout_magnitudeText {pattern : ℕ} (h : 0 < pattern) :
    Layout (Shortest.decimal .binary64 pattern).digits (Shortest.decimal .binary64 pattern).point
      (magnitudeText pattern).toList := by
  rw [magnitudeText]
  split
  · rename_i hplain
    obtain ⟨hlow, hhigh⟩ := (writtenPlainly_iff h).mp hplain
    exact layout_plain hlow hhigh
  · rename_i hnot
    rw [writtenPlainly_iff h] at hnot
    rw [String.toList_ofList]
    exact layout_exponent (by omega)

/-- **Numbers are shown as browsers show them.** A finite number that is not zero has one shortest
decimal. Its text is laid out from the digits of this decimal by the position of the point alone,
with a minus sign in front exactly when it is negative, and the comparison of its magnitude with the
two bounds agrees with the position of the point. -/
theorem shown_of_shortest {x : Binary64} (hx : x.isFinite = true) (hz : x.isZero = false) :
    ∃ d : Decimal, (∀ e : Decimal, e.IsShortest x ↔ e = d) ∧
      (writtenPlainly x.pattern = true ↔ -6 < d.point ∧ d.point ≤ 21) ∧
      ∃ text, Layout d.digits d.point text ∧
        (number x).shown = (if x.negative then "-" else "") ++ String.ofList text := by
  have hpos := Binary.pattern_pos hz
  have hshortest := Decimal.isShortest_decimal hx hz
  refine ⟨Shortest.decimal .binary64 x.pattern, fun e => ⟨fun he => he.unique hshortest, ?_⟩,
    writtenPlainly_iff hpos, _, layout_magnitudeText hpos, ?_⟩
  · rintro rfl
    exact hshortest
  · rw [String.ofList_toList, shown, numberText_of_finite hx hz]

/-- The negative number next to a millionth: its sixteen digits leave the plain notation. -/
theorem shown_of_shortest_next_to_millionth :
    let x : Binary64 := Binary.ofBits 0xBEB0C6F7A0B5ED8C
    x.isFinite = true ∧ x.isZero = false ∧
      (∀ e : Decimal, e.IsShortest x ↔ e = ⟨9999999999999997, -22⟩) ∧
      writtenPlainly x.pattern = false ∧ (number x).shown = "-9.999999999999997e-7" := by
  intro x
  have hx : x.isFinite = true := by decide
  have hz : x.isZero = false := by decide
  have hdecimal : Shortest.decimal .binary64 x.pattern = ⟨9999999999999997, -22⟩ := by
    decide +kernel
  obtain ⟨d, hshortest, hplain, -⟩ := shown_of_shortest hx hz
  obtain rfl : _ = d := (hshortest _).mp (hdecimal ▸ Decimal.isShortest_decimal hx hz)
  refine ⟨hx, hz, hshortest, ?_, by decide +kernel⟩
  rw [← Bool.not_eq_true, hplain]
  decide +kernel

end Price

end AdminPanel
