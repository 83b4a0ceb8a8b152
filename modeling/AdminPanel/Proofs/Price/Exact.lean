import AdminPanel.Price.Value
import AdminPanel.Proofs.Number.Nearest
import AdminPanel.Proofs.Text.Occurrence

/-! # Numeric prices are carried without loss

The text of a finite number, read as the rational it spells and rounded again, gives that number
back. What holds a price as its text has lost nothing, whichever notation the text is in, and only
the two zeros share a text. -/
namespace AdminPanel.Price

variable {x : Binary64}

/-! ## The sign of an exponent -/

theorem isDigit_or_eq_point_of_mem_mantissa {d : Decimal} {c : Char} (h : c ∈ d.mantissa) :
    c.isDigit = true ∨ c = '.' := by
  obtain ⟨first, more, hd⟩ := List.exists_cons_of_ne_nil d.digits_ne_nil
  have hall : ∀ c ∈ first :: more, c.isDigit = true := hd ▸ Decimal.isDigit_of_mem_digits
  rw [Decimal.mantissa, hd] at h
  by_cases hc : c = '.'
  · exact .inr hc
  · refine .inl (hall c ?_)
    cases more with
    | nil => exact h
    | cons second more => simpa [hc] using h

/-- No digit is taken for the mark of the exponent, so what is signed is the exponent. -/
theorem withExponentSign_exponential {sign : String} (hs : 'e' ∉ sign.toList) (d : Decimal) :
    withExponentSign (sign ++ d.exponential) =
      sign ++ String.ofList (d.mantissa ++ 'e' :: Decimal.signedText (d.point - 1)) := by
  have hmantissa : 'e' ∉ d.mantissa := fun hmem =>
    absurd (isDigit_or_eq_point_of_mem_mantissa hmem) (by decide)
  have hfront : 'e' ∉ sign.toList ++ d.mantissa := by simp [hs, hmantissa]
  have hbreak : Text.breakOn? ['e'] (sign ++ d.exponential).toList =
      some (sign.toList ++ d.mantissa, Decimal.wholeText (d.point - 1)) := by
    have hleft := Text.Leftmost.of_not_mem hfront [] (Decimal.wholeText (d.point - 1))
    rw [Text.breakOn?_eq_some_iff]
    simpa [Decimal.exponential] using hleft
  rw [withExponentSign, hbreak]
  by_cases hn : d.point - 1 < 0
  · simp [Decimal.exponential, Decimal.wholeText, Decimal.signedText, hn]
  · have hhead : (Nat.toDigits 10 (d.point - 1).natAbs).head? ≠ some '-' := by
      intro hh
      have hdigit := Nat.isDigit_of_mem_toDigits (by decide) (by decide) (List.mem_of_mem_head? hh)
      cases hdigit
    apply String.toList_inj.mp
    simp [Decimal.wholeText, Decimal.signedText, hn, hhead]

/-! ## Finite numbers -/

/-- What the text of a finite number shows behind its sign. -/
def magnitudeText (pattern : ℕ) : String :=
  let decimal := Shortest.decimal .binary64 pattern
  if writtenPlainly pattern then decimal.plain
  else String.ofList (decimal.mantissa ++ 'e' :: Decimal.signedText (decimal.point - 1))

/-- Either notation spells the shortest decimal. -/
theorem read?_magnitudeText (pattern : ℕ) :
    ∃ d, Decimal.read? (magnitudeText pattern).toList = some d ∧
      d.value = (Shortest.decimal .binary64 pattern).value := by
  rw [magnitudeText]
  split
  · exact Decimal.read?_plain _
  · rw [String.toList_ofList]
    exact ⟨_, Decimal.read?_mantissa_append (Decimal.readExponent?_signedText _), rfl⟩

theorem numberText_of_isZero (hx : x.isZero = true) : numberText x = "0" := by
  have hfinite : x.isFinite = true := by
    rw [Binary.isFinite, eq_of_beq hx]
    decide
  simp [numberText, Binary.isNaN_eq_false_of_isFinite hfinite,
    Binary.isInfinite_eq_false_of_isFinite hfinite, hx]

theorem numberText_of_finite (hx : x.isFinite = true) (hz : x.isZero = false) :
    numberText x = (if x.negative then "-" else "") ++ magnitudeText x.pattern := by
  have hs : 'e' ∉ (if x.negative then "-" else "").toList := by cases x.negative <;> decide
  simp only [numberText, magnitudeText, Binary.isNaN_eq_false_of_isFinite hx,
    Binary.isInfinite_eq_false_of_isFinite hx, hz, withExponentSign_exponential hs]
  cases writtenPlainly x.pattern <;> rfl

/-- The text of a finite number spells a rational around it. -/
theorem rational?_numberText (hx : x.isFinite = true) :
    ∃ q, Decimal.rational? (numberText x) = some q ∧ Format.binary64.Around q x.index := by
  cases hz : x.isZero
  · obtain ⟨d, hread, hvalue⟩ := read?_magnitudeText x.pattern
    have haround : Format.binary64.Around d.value x.pattern :=
      hvalue ▸ Shortest.around_decimal .binary64 (Binary.pattern_pos hz)
    refine ⟨if x.negative then -d.value else d.value, ?_, ?_⟩
    · rw [numberText_of_finite hx hz, Decimal.rational?_signed hread]
    · rw [Binary.index]
      split
      · exact haround.neg
      · exact haround
  · have hread : Decimal.read? "0".toList = some ⟨0, 0⟩ := rfl
    refine ⟨0, ?_, ?_⟩
    · rw [numberText_of_isZero hz]
      simpa [Decimal.value] using Decimal.rational?_signed hread false
    · rw [Binary.isZero_iff.mp hz]
      exact .zero _

/-- What is not finite is named, and no name spells a rational. -/
theorem rational?_numberText_of_not_finite (hx : x.isFinite = false) :
    Decimal.rational? (numberText x) = none := by
  cases hn : x.isNaN
  · have hi : x.isInfinite = true := by
      simp [Binary.isFinite, Binary.isNaN, Binary.isInfinite] at hx hn ⊢
      omega
    have hz : x.isZero = false := by
      rw [Binary.isInfinite, beq_iff_eq] at hi
      rw [Binary.isZero, hi]
      decide
    have htext : numberText x = (if x.negative then "-" else "") ++ "Infinity" := by
      simp [numberText, hn, hi]
    rw [htext]
    cases x.negative <;> decide
  · have htext : numberText x = "NaN" := by simp [numberText, hn]
    rw [htext]
    decide

/-- **Numeric prices are carried without loss.** The text of a finite number spells a rational to
which this number is the nearest and no other, so rounding the text gives the number back, and no
other number has the same text. Only the two zeros are confused, as they are one number. -/
theorem shown_rounds_back (hx : x.isFinite = true) :
    Decimal.rounded? .binary64 (number x).shown =
        some (if x.isZero then Binary.ofBits 0 else x) ∧
      (∃ q, Decimal.rational? (number x).shown = some q ∧
        ∀ y : Binary64, y.IsNearest q ↔ y = x ∨ (y.isZero = true ∧ x.isZero = true)) ∧
      ∀ y : Binary64,
        (number y).shown = (number x).shown ↔ y = x ∨ (y.isZero = true ∧ x.isZero = true) := by
  obtain ⟨q, hread, haround⟩ := rational?_numberText hx
  have hround : ∀ y : Binary64, y.IsNearest q ↔ y = x ∨ (y.isZero = true ∧ x.isZero = true) := by
    intro y
    rw [Binary.isNearest_iff_of_around (Binary.isNaN_eq_false_of_isFinite hx) haround,
      Binary.toRat_eq_iff]
  refine ⟨?_, ⟨q, hread, hround⟩, fun y => ⟨fun h => ?_, ?_⟩⟩
  · cases hz : x.isZero
    · obtain ⟨y, hy, hnear⟩ := @Decimal.exists_rounded? .binary64 (by decide) _ _ hread
      obtain rfl : y = x := by simpa [hz] using (hround y).mp hnear
      exact hy
    · rw [shown, numberText_of_isZero hz]
      show Decimal.rounded? .binary64 "0" = some (Binary.ofBits 0)
      decide +kernel
  · -- The text of `y` spells the same rational, which rounds to `y` too.
    rw [shown, shown] at h
    rw [← h] at hread
    cases hy : y.isFinite
    · rw [rational?_numberText_of_not_finite hy] at hread
      cases hread
    · obtain ⟨q', hread', haround'⟩ := rational?_numberText hy
      rw [hread, Option.some.injEq] at hread'
      subst hread'
      exact (hround y).mp
        (Binary.isNearest_of_around (Binary.isNaN_eq_false_of_isFinite hy) haround')
  · rintro (rfl | ⟨hy, hz⟩)
    · rfl
    · rw [shown, shown, numberText_of_isZero hy, numberText_of_isZero hz]

/-- The negative number next to zero: one digit is enough to find it again. -/
theorem shown_rounds_back_next_to_zero :
    let x : Binary64 := Binary.ofBits 0x8000000000000001
    x.isFinite = true ∧ (number x).shown = "-5e-324" ∧
      Decimal.rounded? .binary64 "-5e-324" = some x ∧
        ∃ q, Decimal.rational? "-5e-324" = some q ∧ ∀ y : Binary64, y.IsNearest q ↔ y = x := by
  intro x
  have hfinite : x.isFinite = true := by decide
  have htext : (number x).shown = "-5e-324" := by decide +kernel
  have hz : x.isZero = false := by decide
  obtain ⟨hrounded, ⟨q, hread, hround⟩, -⟩ := shown_rounds_back hfinite
  refine ⟨hfinite, htext, ?_, q, htext ▸ hread, fun y => ?_⟩
  · rw [htext, hz] at hrounded
    exact hrounded
  · rw [hround, hz]
    simp

end AdminPanel.Price
