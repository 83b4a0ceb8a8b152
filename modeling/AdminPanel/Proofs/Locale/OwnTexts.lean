import AdminPanel.Proofs.Locale.Leaves
import AdminPanel.Proofs.Template.Hole
import AdminPanel.Selection.Header

/-! # A locale's own texts

Every text that the page and its widgets ask for is in the tree of every locale, so neither English
nor the defaults of the callers ever stand in for another locale. -/
namespace AdminPanel

namespace Locale

/-- The paths that the widgets and the page take their texts from. -/
def askedPaths : List String :=
  ["demo.title", "demo.name", "demo.publish", "demo.delete", "demo.locale", "price_field.label",
    "price_field.hint", "table_head.select_all", HeaderContent.labelPath]

/-- The texts are the ones that the locale itself has at the paths. -/
def Says (locale : Locale) (paths texts : List String) : Prop :=
  paths.map locale.messages.text? = texts.map some

theorem askedPaths_subset : ∀ path ∈ askedPaths, path ∈ english.messages.paths := by
  decide +kernel

theorem text?_eq_some {path : String} (h : path ∈ askedPaths) (locale : Locale)
    (fallback : String) :
    locale.messages.text? path = some ((Bundle.ofLocale locale).text path fallback) :=
  Bundle.text?_eq_some_text (askedPaths_subset path h) locale fallback

theorem text_ne_empty {path : String} (h : path ∈ askedPaths) (locale : Locale)
    (fallback : String) : (Bundle.ofLocale locale).text path fallback ≠ "" :=
  text?_ne_empty (text?_eq_some h locale fallback)

theorem hasOneHole_label (locale : Locale) :
    (locale.messages.text? HeaderContent.labelPath).any Template.hasOneHole = true := by
  cases locale <;> decide +kernel

/-- The template of a label is one hole between two texts, and the label of a count has the numeral
of the count there. -/
theorem exists_label (locale : Locale) :
    ∃ before after : String,
      locale.messages.text? HeaderContent.labelPath =
        some (before ++ Template.numberHole ++ after) ∧
      '{' ∉ before.toList ∧ '{' ∉ after.toList ∧
      ∀ count : Nat, (Bundle.ofLocale locale).format HeaderContent.labelPath
        HeaderContent.labelFallback [("number", Nat.repr count)] =
          before ++ Nat.repr count ++ after := by
  have hasked : HeaderContent.labelPath ∈ askedPaths := by decide
  have hown := text?_eq_some hasked locale HeaderContent.labelFallback
  have hhole := hasOneHole_label locale
  rw [hown, Option.any_some] at hhole
  obtain ⟨before, after, ht, hb, ha⟩ := Template.eq_append_of_hasOneHole hhole
  refine ⟨before, after, ht ▸ hown, hb, ha, fun count => ?_⟩
  rw [Bundle.format, ht]
  exact Template.interpolate_numberHole hb ha _

/-- The label of the bulk bar is the locale's own template with the count in its hole. -/
theorem label_fillsHole (locale : Locale) (count : Nat) :
    ∃ template, locale.messages.text? HeaderContent.labelPath = some template ∧
      Template.FillsHole template (Nat.repr count)
        ((Bundle.ofLocale locale).format HeaderContent.labelPath HeaderContent.labelFallback
          [("number", Nat.repr count)]) := by
  obtain ⟨before, after, hown, hb, ha, hl⟩ := exists_label locale
  exact ⟨_, hown, before, after, rfl, hb, ha, hl count⟩

theorem label_ne_empty (locale : Locale) (count : Nat) :
    (Bundle.ofLocale locale).format HeaderContent.labelPath HeaderContent.labelFallback
      [("number", Nat.repr count)] ≠ "" := by
  obtain ⟨before, after, -, -, -, hl⟩ := exists_label locale
  intro he
  rw [hl] at he
  have hc := congrArg String.toList he
  simp [Nat.toDigits_ne_nil] at hc

end Locale

end AdminPanel
