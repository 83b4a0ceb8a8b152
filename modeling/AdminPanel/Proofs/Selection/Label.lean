import AdminPanel.Proofs.Locale.OwnTexts
import AdminPanel.Proofs.Number.Numeral

/-! # Labels of the bulk bar

The label of a count is the locale's own template with the numeral of the count in the place of its
one hole. No brace is left in it, and the texts around the hole are those of the locale alone, so
the count can be read off the label again: two counts never share one (`label?_complete`). -/
namespace AdminPanel.HeaderContent
open Template (FillsHole numberHole opening closing)

/-! ## Numerals -/

/-- A row of decimal digits that counts up to a number, without zeros in front of it. -/
structure IsNumeral (n : ℕ) (text : String) : Prop where
  digits : ∀ c ∈ text.toList, c.isDigit = true
  value : Decimal.ofDigits text.toList = n
  front : text = "0" ∨ text.toList.head? ≠ some '0'

theorem isNumeral_repr (n : ℕ) : IsNumeral n (Nat.repr n) where
  digits := by
    rw [Nat.toList_repr]
    exact Decimal.isDigit_of_mem_digits (d := ⟨n, 0⟩)
  value := by
    rw [Nat.toList_repr]
    exact Decimal.ofDigits_digits ⟨n, 0⟩
  front := by
    by_cases hzero : n = 0
    · subst hzero
      exact .inl rfl
    · rw [Nat.toList_repr]
      exact .inr (Decimal.head?_digits_ne (d := ⟨n, 0⟩) hzero)

/-- A numeral tells its number. -/
theorem IsNumeral.unique {a b : ℕ} {text : String} (ha : IsNumeral a text)
    (hb : IsNumeral b text) : a = b := ha.value.symm.trans hb.value

/-! ## Labels -/

theorem label?_ofCount (count : ℕ) (bundle : Bundle) :
    (ofCount count).label? bundle = if count = 0 then none
      else some (bundle.format labelPath labelFallback [("number", Nat.repr count)]) := by
  rw [ofCount]
  split <;> rfl

/-- The closing braces of a label's template are those of its hole. -/
theorem count_closing (locale : Locale) :
    (locale.messages.text? labelPath).any (fun template => template.toList.count '}' == 2) =
      true := by
  cases locale <;> decide +kernel

/-- The template of a label, in parts: no brace stands before its hole or behind it. -/
theorem exists_parts (locale : Locale) :
    ∃ before after : String,
      locale.messages.text? labelPath = some (before ++ numberHole ++ after) ∧
      ('{' ∉ before.toList ∧ '{' ∉ after.toList) ∧ ('}' ∉ before.toList ∧ '}' ∉ after.toList) ∧
      ∀ count ≠ 0, (ofCount count).label? (.ofLocale locale) =
        some (before ++ Nat.repr count ++ after) := by
  obtain ⟨before, after, hown, hb, ha, hl⟩ := locale.exists_label
  have hcount := count_closing locale
  have hhole : numberHole.toList.count '}' = 2 := by decide
  rw [hown, Option.any_some, beq_iff_eq, String.toList_append, String.toList_append,
    List.count_append, List.count_append, hhole] at hcount
  refine ⟨before, after, hown, ⟨hb, ha⟩, ?_, fun count hne => ?_⟩
  · rw [← List.count_eq_zero, ← List.count_eq_zero]
    omega
  · rw [label?_ofCount, if_neg hne, hl]

/-- A text with a numeral between two texts has the braces of these alone. -/
theorem not_mem_numeral {c : Char} (hc : c.isDigit = false) {before after : String} {n : ℕ}
    (hb : c ∉ before.toList) (ha : c ∉ after.toList) :
    c ∉ (before ++ Nat.repr n ++ after).toList := by
  have hdigits := (isNumeral_repr n).digits
  rw [String.toList_append, String.toList_append, List.mem_append, List.mem_append]
  rintro ((hmem | hmem) | hmem)
  · exact hb hmem
  · rw [hdigits c hmem] at hc
    cases hc
  · exact ha hmem

/-- **Labels are complete and tell the count.** In every locale there is no label exactly for the
count zero. The label of every other count is the locale's own template with the numeral of the
count in the place of its one hole; it has neither an opening nor a closing. Two counts have two
labels. -/
theorem label?_complete (locale : Locale) :
    ∃ template, locale.messages.text? labelPath = some template ∧
      (∀ count, (ofCount count).label? (.ofLocale locale) = none ↔ count = 0) ∧
      (∀ count, count ≠ 0 → ∃ numeral label, IsNumeral count numeral ∧
        (ofCount count).label? (.ofLocale locale) = some label ∧
        FillsHole template numeral label ∧
        ¬ opening <:+: label.toList ∧ ¬ closing <:+: label.toList) ∧
      ∀ count other, count ≠ other →
        (ofCount count).label? (.ofLocale locale) ≠ (ofCount other).label? (.ofLocale locale) := by
  obtain ⟨before, after, hown, ⟨hbo, hao⟩, ⟨hbc, hac⟩, hlabel⟩ := exists_parts locale
  have hnone (count : ℕ) : (ofCount count).label? (.ofLocale locale) = none ↔ count = 0 := by
    rw [label?_ofCount]
    split <;> simp_all
  refine ⟨_, hown, hnone, fun count hne => ?_, fun count other hne he => ?_⟩
  · refine ⟨Nat.repr count, _, isNumeral_repr count, hlabel count hne,
      ⟨before, after, rfl, hbo, hao, rfl⟩, ?_, ?_⟩
    · exact Text.not_infix_of_not_mem (not_mem_numeral rfl hbo hao)
    · exact Text.not_infix_of_not_mem (not_mem_numeral rfl hbc hac)
  · by_cases hzero : count = 0
    · rw [(hnone count).mpr hzero] at he
      exact hne (hzero.trans ((hnone other).mp he.symm).symm)
    · have hother : other ≠ 0 := fun ho =>
        hzero ((hnone count).mp (he.trans ((hnone other).mpr ho)))
      rw [hlabel count hzero, hlabel other hother, Option.some.injEq, String.append_left_inj,
        String.append_right_inj] at he
      have hnumeral : IsNumeral other (Nat.repr count) := he ▸ isNumeral_repr other
      exact hne ((isNumeral_repr count).unique hnumeral)

/-- The German template begins with its hole; the greatest count of 64 bits is written in full. -/
theorem label?_of_greatest_count :
    let label? (count : ℕ) := (ofCount count).label? (.ofLocale .german)
    let count := 18446744073709551615
    count ≠ 0 ∧ count ≠ 1844674407370955161 ∧ label? 0 = none ∧
      label? count = some "18446744073709551615 Einträge ausgewählt" ∧
      (∃ numeral label, IsNumeral count numeral ∧ label? count = some label ∧
        FillsHole "\x7b\x7b number \x7d\x7d Einträge ausgewählt" numeral label ∧
        ¬ opening <:+: label.toList ∧ ¬ closing <:+: label.toList) ∧
      label? count ≠ label? 1844674407370955161 := by
  intro label? count
  have hne : count ≠ 0 := by decide
  have hother : count ≠ 1844674407370955161 := by decide
  obtain ⟨template, hown, hnone, hsome, hdiffer⟩ := label?_complete .german
  have ht : template = "\x7b\x7b number \x7d\x7d Einträge ausgewählt" := by
    refine Option.some.inj (hown.symm.trans ?_)
    decide +kernel
  subst ht
  exact ⟨hne, hother, (hnone 0).mpr rfl, by decide +kernel, hsome count hne, hdiffer count _ hother⟩

end AdminPanel.HeaderContent
