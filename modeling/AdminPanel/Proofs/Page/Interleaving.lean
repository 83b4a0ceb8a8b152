import AdminPanel.Proofs.Page.Frame
import AdminPanel.Proofs.Page.Reload

/-! # The order of independent actions

A run comes apart into what it does to the table, the last locale it picks and the last text it
types. The table takes its own actions in their order and does not notice the others, however they
stand between them; of picks and of inputs only the last one counts. So two runs that agree in these
three end with one page (`after_eq_of_interleaved`). -/
namespace AdminPanel.Page

/-! ## Selection actions -/

/-- An action on the rows that are selected. -/
def Action.selects : Action → Bool
  | .selectAll | .toggleRow _ | .delete => true
  | .pickLocale _ | .typePrice _ | .publish | .clickTable => false

theorem Action.locale?_of_selects {action : Action} (h : action.selects = true) :
    action.locale? = none := by
  cases action <;> first | rfl | cases h

theorem Action.typed?_of_selects {action : Action} (h : action.selects = true) :
    action.typed? = none := by
  cases action <;> first | rfl | cases h

/-! ## What picks and inputs leave behind -/

/-- The storage once a locale has been picked. -/
def stored (page : Page) : Option Locale → Storage
  | some locale =>
    if page.writeError = none then page.storage.putString Environment.localeKey locale.code
    else page.storage
  | none => page.storage

theorem persistLocale_eq_stored (page : Page) (locale : Locale) :
    (page.persistLocale locale).1 = { page with storage := page.stored (some locale) } := by
  cases h : page.writeError with
  | none => simp only [persistLocale, stored, h, if_true]
  | some detail =>
    simp only [persistLocale, stored, h, reduceCtorEq, if_false]
    rw [← h]

/-- The page in a locale that was picked and with a price that was typed. -/
def moved (page : Page) (locale? : Option Locale) (typed? : Option String) : Page :=
  { page with
    locale := locale?.getD page.locale
    price := (typed?.map Price.text).getD page.price
    storage := page.stored locale? }

theorem stored_moved (page : Page) (locale? next? : Option Locale) (typed? : Option String) :
    (page.moved locale? typed?).stored next? = page.stored (next?.or locale?) := by
  cases next? with
  | none => rfl
  | some next =>
    cases locale? with
    | none => rfl
    | some locale =>
      simp only [stored, moved, Option.some_or]
      split
      · exact Storage.put_put ..
      · rfl

/-- Of two picks the later counts, in the storage as on the page; of two inputs too. -/
theorem moved_moved (page : Page) (locale? next? : Option Locale)
    (typed? retyped? : Option String) :
    (page.moved locale? typed?).moved next? retyped? =
      page.moved (next?.or locale?) (retyped?.or typed?) := by
  rw [moved, stored_moved]
  cases next? <;> cases retyped? <;> rfl

theorem step_of_not_selects {page : Page} (h : page.Settled) {action : Action}
    (hs : action.selects = false) :
    (page.step action).1 = page.moved action.locale? action.typed? := by
  cases action with
  | pickLocale target =>
    cases target with
    | none => rfl
    | some tag =>
      cases ht : Locale.ofTag? tag with
      | none =>
        have hl : (Action.pickLocale (some tag)).locale? = none := ht
        rw [hl]
        simp only [step, pickLocale, pickTag, ht]
        rfl
      | some locale =>
        have hl : (Action.pickLocale (some tag)).locale? = some locale := ht
        have hset : (page.moved (some locale) none).Settled := h
        rw [step_of_locale hl, hl, persistLocale_eq_stored]
        exact drawn_of_settled hset
  | typePrice target =>
    cases target with
    | none => rfl
    | some typed =>
      have hset : (page.moved none (some typed)).Settled := h
      exact drawn_of_settled hset
  | selectAll | toggleRow _ | delete => cases hs
  | publish =>
    simp only [step, publish]
    split <;> rfl
  | clickTable => rfl

/-- A selection action does the same before picks and inputs as behind them. -/
theorem step_moved (page : Page) {action : Action} (hs : action.selects = true)
    (locale? : Option Locale) (typed? : Option String) :
    ((page.moved locale? typed?).step action).1 = (page.step action).1.moved locale? typed? := by
  have hl := Action.locale?_of_selects hs
  have ht := Action.typed?_of_selects hs
  have hsync : (page.moved locale? typed?).config.syncSelectAll = page.config.syncSelectAll := rfl
  -- What was moved is no part of the table, so either side is the moved page with one table.
  have hm : ∀ other, (page.moved locale? typed?).withTable other =
      (page.withTable other).moved locale? typed? := by
    intro other
    cases locale? <;> rfl
  calc ((page.moved locale? typed?).step action).1
      = (page.moved locale? typed?).withTable (page.step action).1 :=
        congrArg Prod.fst (step_withTable hsync hl ht)
    _ = (page.withTable (page.step action).1).moved locale? typed? := hm _
    _ = (page.step action).1.moved locale? typed? := by rw [← step_eq_withTable page hl ht]

/-- A run is its selection actions, and then the last pick and the last input. -/
theorem after_eq_moved {page : Page} (h : page.Settled) (actions : List Action) :
    page.after actions =
      (page.after (actions.filter Action.selects)).moved (lastPick? actions)
        (lastTyped? actions) := by
  induction actions using List.reverseRecOn with
  | nil => rfl
  | append_singleton actions action ih =>
    have hset := settled_after h actions
    rw [after_append_singleton, List.filter_append, lastPick?_append_singleton,
      lastTyped?_append_singleton]
    cases hs : action.selects with
    | true =>
      rw [Action.locale?_of_selects hs, Action.typed?_of_selects hs, Option.none_or,
        Option.none_or, List.filter_cons_of_pos hs, List.filter_nil, after_append_singleton, ih,
        step_moved _ hs]
    | false =>
      have hn : ¬ action.selects = true := by simp [hs]
      rw [List.filter_cons_of_neg hn, List.filter_nil, List.append_nil,
        step_of_not_selects hset hs, ih, moved_moved]

/-! ## Runs that agree -/

/-- **Independent actions commute.** Two runs with the same last pick that counts, the same last
input and the same selection actions in the same order end with the same page, with its markup, its
storage and the flag of its head, however these are interleaved with each other and with anything
else. -/
theorem after_eq_of_interleaved (env : Environment) {actions others : List Action}
    (hl : lastPick? actions = lastPick? others) (ht : lastTyped? actions = lastTyped? others)
    (hs : actions.filter Action.selects = others.filter Action.selects) :
    (start env).1.after actions = (start env).1.after others := by
  rw [after_eq_moved (settled_start env), after_eq_moved (settled_start env) others, hl, ht, hs]

/-- Neither a pick that is taken back nor one that does not count shows, nor where the bulk bar came
and went in between. -/
theorem after_eq_of_german_and_nine :
    let grinder : Fin Product.all.length := ⟨3, by decide⟩
    let actions : List Action := [.toggleRow grinder, .pickLocale (some "fr"), .delete, .publish,
      .typePrice (some "9"), .selectAll, .pickLocale (some " DE-at")]
    let others : List Action := [.typePrice (some "8"), .toggleRow grinder, .clickTable, .delete,
      .pickLocale (some "de"), .pickLocale (some "ja"), .selectAll, .typePrice (some "9"),
      .typePrice none]
    let env : Environment := { configElement := some (some "[null,null,null,true]") }
    lastPick? actions = lastPick? others ∧ lastTyped? actions = lastTyped? others ∧
      actions.filter Action.selects = others.filter Action.selects ∧
      (start env).1.after actions = (start env).1.after others := by
  intro grinder actions others env
  have hl : lastPick? actions = lastPick? others := by decide +kernel
  have ht : lastTyped? actions = lastTyped? others := rfl
  have hs : actions.filter Action.selects = others.filter Action.selects := rfl
  exact ⟨hl, ht, hs, after_eq_of_interleaved env hl ht hs⟩

end AdminPanel.Page
