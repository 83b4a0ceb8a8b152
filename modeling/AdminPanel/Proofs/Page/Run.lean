import AdminPanel.Page.Step
import AdminPanel.Proofs.Timeline
import Mathlib.Data.List.Induction

/-! # What a run changes

Each part of a page is moved by few of the actions, so what a part holds after a run is told by
those alone. The locale is the last one that was picked, and the storage holds what the picks wrote.
The selection is only ever made of rows that are on the page. -/
namespace AdminPanel.Page

/-! ## Runs by their last action -/

theorem after_append_singleton (page : Page) (actions : List Action) (action : Action) :
    page.after (actions ++ [action]) = ((page.after actions).step action).1 := by
  simp [after, List.foldl_append]

/-- The last page of a run is the page after its actions. -/
theorem getLast?_run (page : Page) (actions : List Action) :
    ((page.run actions).getLast?.map Prod.fst).getD page = page.after actions := by
  induction actions generalizing page with
  | nil => rfl
  | cons action actions ih =>
    rw [after, List.foldl_cons, ← after, ← ih]
    cases h : (page.step action).1.run actions with
    | nil => simp [run, h]
    | cons reply replies => simp [run, h, List.getLast?_cons]

/-! ## Picks -/

/-- The locale that an action picks, if it is a pick of one that the panel speaks. -/
def Action.locale? : Action → Option Locale
  | .pickLocale (some tag) => Locale.ofTag? tag
  | _ => none

/-- The locale of the last pick that counts. -/
def lastPick? (actions : List Action) : Option Locale :=
  (actions.filterMap Action.locale?).getLast?

theorem lastPick?_append_singleton (actions : List Action) (action : Action) :
    lastPick? (actions ++ [action]) = action.locale?.or (lastPick? actions) :=
  lastOf_append_singleton Action.locale? actions action

/-- Storing a locale touches the storage alone. -/
theorem persistLocale_eq (page : Page) (locale : Locale) :
    ∃ storage, (page.persistLocale locale).1 = { page with storage := storage } := by
  unfold persistLocale
  split
  · exact ⟨page.storage, rfl⟩
  · exact ⟨_, rfl⟩

/-- What a pick does to a page. -/
theorem step_of_locale {page : Page} {action : Action} {locale : Locale}
    (h : action.locale? = some locale) :
    (page.step action).1 = { (page.persistLocale locale).1 with locale := locale }.drawn := by
  cases action with
  | pickLocale target =>
    cases target with
    | none => cases h
    | some tag =>
      have ht : Locale.ofTag? tag = some locale := h
      simp only [step, pickLocale, pickTag, ht]
  | _ => cases h

/-- What every other action may touch. -/
theorem step_of_no_locale {action : Action} (h : action.locale? = none) (page : Page) :
    ∃ price selection head, (page.step action).1 =
      { page with price := price, selection := selection, head := head } := by
  cases action with
  | pickLocale target =>
    cases target with
    | none => exact ⟨_, _, _, rfl⟩
    | some tag =>
      have ht : Locale.ofTag? tag = none := h
      simp only [step, pickLocale, pickTag, ht]
      exact ⟨_, _, _, rfl⟩
  | typePrice target => cases target <;> exact ⟨_, _, _, rfl⟩
  | selectAll | toggleRow _ | clickTable => exact ⟨_, _, _, rfl⟩
  | publish =>
    simp only [step, publish]
    split <;> exact ⟨_, _, _, rfl⟩
  | delete =>
    simp only [step, delete]
    split <;> exact ⟨_, _, _, rfl⟩

/-- No action touches what the page was started with. -/
theorem settings_step (page : Page) (action : Action) :
    (page.step action).1.config = page.config ∧ (page.step action).1.mode = page.mode ∧
      (page.step action).1.writeError = page.writeError := by
  cases h : action.locale? with
  | none =>
    obtain ⟨_, _, _, he⟩ := step_of_no_locale h page
    rw [he]
    exact ⟨rfl, rfl, rfl⟩
  | some locale =>
    obtain ⟨_, hp⟩ := persistLocale_eq page locale
    rw [step_of_locale h, hp]
    exact ⟨rfl, rfl, rfl⟩

theorem settings_after (page : Page) (actions : List Action) :
    (page.after actions).config = page.config ∧ (page.after actions).mode = page.mode ∧
      (page.after actions).writeError = page.writeError := by
  induction actions using List.reverseRecOn with
  | nil => exact ⟨rfl, rfl, rfl⟩
  | append_singleton actions action ih =>
    obtain ⟨hc, hm, hw⟩ := settings_step (page.after actions) action
    rw [after_append_singleton, hc, hm, hw]
    exact ih

theorem locale_step (page : Page) (action : Action) :
    (page.step action).1.locale = action.locale?.getD page.locale := by
  cases h : action.locale? with
  | none =>
    obtain ⟨_, _, _, he⟩ := step_of_no_locale h page
    rw [he]
    rfl
  | some locale =>
    rw [step_of_locale h]
    rfl

theorem locale_after (page : Page) (actions : List Action) :
    (page.after actions).locale = (lastPick? actions).getD page.locale := by
  induction actions using List.reverseRecOn with
  | nil => rfl
  | append_singleton actions action ih =>
    rw [after_append_singleton, locale_step, lastPick?_append_singleton, ih]
    cases action.locale? <;> rfl

/-! ## The selection -/

theorem showsBulkBar_iff (page : Page) :
    page.showsBulkBar = true ↔ page.selection ≠ .empty := by
  have hc : page.headProps.content = HeaderContent.ofCount page.selection.size := rfl
  rw [showsBulkBar, hc, HeaderContent.ofCount]
  by_cases h : page.selection.size = 0
  · rw [if_pos h]
    simp [HeaderContent.isBulk, Selection.size_eq_zero_iff.mp h]
  · rw [if_neg h]
    simpa [HeaderContent.isBulk] using h

/-- Without a bulk bar there is nothing to delete, so after a delete nothing is selected. -/
theorem selection_step (page : Page) (action : Action) :
    (page.step action).1.selection =
      match action with
      | .selectAll => page.selection.selectAllOrClear (Product.all.map Product.id)
      | .toggleRow row => page.selection.toggle (Product.all.get row).id
      | .delete => .empty
      | _ => page.selection := by
  cases action with
  | pickLocale target =>
    cases target with
    | none => rfl
    | some tag =>
      simp only [step, pickLocale, pickTag]
      split
      · rename_i locale _
        obtain ⟨_, hp⟩ := persistLocale_eq page locale
        rw [hp]
        rfl
      · rfl
  | typePrice target => cases target <;> rfl
  | selectAll | toggleRow _ | clickTable => rfl
  | publish =>
    simp only [step, publish]
    split <;> rfl
  | delete =>
    simp only [step, delete]
    split
    · rfl
    · rename_i h
      rw [showsBulkBar_iff, not_not] at h
      exact h

/-- Nothing is selected but rows of the page. -/
def Listed (page : Page) : Prop := ∀ id ∈ page.selection, id ∈ Product.all.map Product.id

theorem listed_step {page : Page} (h : page.Listed) (action : Action) :
    (page.step action).1.Listed := by
  intro id hid
  rw [selection_step] at hid
  cases action with
  | selectAll =>
    simp only [Selection.selectAllOrClear] at hid
    split at hid
    · exact absurd hid (Selection.not_mem_empty id)
    · exact Selection.mem_ofList.mp hid
  | toggleRow row =>
    rw [Selection.mem_toggle] at hid
    split at hid
    · rename_i he
      rw [he]
      exact List.mem_map.mpr ⟨_, List.get_mem _ _, rfl⟩
    · exact h id hid
  | delete => exact absurd hid (Selection.not_mem_empty id)
  | pickLocale _ | typePrice _ | publish | clickTable => exact h id hid

theorem listed_after {page : Page} (h : page.Listed) (actions : List Action) :
    (page.after actions).Listed := by
  induction actions using List.reverseRecOn with
  | nil => exact h
  | append_singleton actions action ih =>
    rw [after_append_singleton]
    exact listed_step ih action

theorem listed_start (env : Environment) : (start env).1.Listed := by
  intro id hid
  exact absurd hid (Selection.not_mem_empty id)

end AdminPanel.Page
