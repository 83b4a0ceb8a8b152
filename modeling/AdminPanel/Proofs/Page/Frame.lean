import AdminPanel.Proofs.Page.Run

/-! # What an action reads

The table of a page is what it selects together with what its head keeps. Picks and inputs leave it
alone. All other actions read the table and the mode of the head, and change nothing but the table:
`step_withTable` says this for two pages at once, so that what a run does to the table can be told
without the rest of the page, and the other way round. -/
namespace AdminPanel.Page

/-! ## Inputs -/

/-- The text that an action types. -/
def Action.typed? : Action → Option String
  | .typePrice target => target
  | _ => none

theorem Action.eq_typePrice {action : Action} {typed : String} (h : action.typed? = some typed) :
    action = .typePrice (some typed) := by
  cases action with
  | typePrice target => exact congrArg Action.typePrice h
  | _ => cases h

def lastTyped? (actions : List Action) : Option String :=
  (actions.filterMap Action.typed?).getLast?

theorem lastTyped?_append_singleton (actions : List Action) (action : Action) :
    lastTyped? (actions ++ [action]) = action.typed?.or (lastTyped? actions) :=
  lastOf_append_singleton Action.typed? actions action

/-! ## The table -/

/-- The page with the table of another one. -/
def withTable (page other : Page) : Page :=
  { page with selection := other.selection, head := other.head }

/-- Drawing a head reads the count and the mode, and none of what is drawn. -/
theorem draw_congr {props other : TableHead.Props} (hs : props.selected = other.selected)
    (hm : props.syncWithSelection = other.syncWithSelection) (state : TableHead.State) :
    state.draw props = state.draw other := by
  simp only [TableHead.State.draw, TableHead.State.settled, hs, hm]

theorem select_withTable {page other : Page}
    (h : page.config.syncSelectAll = other.config.syncSelectAll) (selection : Selection) :
    (page.withTable other).select selection = page.withTable (other.select selection) := by
  have hd : other.head.draw { page.withTable other with selection := selection }.headProps =
      other.head.draw { other with selection := selection }.headProps := by
    refine draw_congr ?_ h other.head
    rfl
  simp only [select, drawn, withTable] at hd ⊢
  rw [hd]

/-- **An action that neither picks nor types is an action on the table.** -/
theorem step_withTable {page other : Page}
    (h : page.config.syncSelectAll = other.config.syncSelectAll) {action : Action}
    (hl : action.locale? = none) (ht : action.typed? = none) :
    (page.withTable other).step action =
      (page.withTable (other.step action).1, (other.step action).2) := by
  have hbar : (page.withTable other).showsBulkBar = other.showsBulkBar := rfl
  cases action with
  | pickLocale target =>
    cases target with
    | none => rfl
    | some tag =>
      have hn : Locale.ofTag? tag = none := hl
      simp only [step, pickLocale, pickTag, hn]
  | typePrice target =>
    cases target with
    | none => rfl
    | some typed => cases ht
  | selectAll =>
    let clicked : Page := { other with head := (other.head.click other.headProps).1 }
    have hc : page.config.syncSelectAll = clicked.config.syncSelectAll := h
    exact congrArg (fun page => (page, _)) (select_withTable hc _)
  | toggleRow row =>
    exact congrArg (fun page => (page, _)) (select_withTable h _)
  | publish =>
    simp only [step, publish, hbar]
    split <;> rfl
  | delete =>
    simp only [step, delete, hbar]
    split
    · exact congrArg (fun page => (page, _)) (select_withTable h _)
    · rfl
  | clickTable => rfl

/-- Such an action changes nothing but the table. -/
theorem step_eq_withTable (page : Page) {action : Action} (hl : action.locale? = none)
    (ht : action.typed? = none) : (page.step action).1 = page.withTable (page.step action).1 :=
  congrArg Prod.fst (step_withTable rfl hl ht : page.step action = _)

/-! ## The price -/

theorem price_step (page : Page) (action : Action) :
    (page.step action).1.price = (action.typed?.map Price.text).getD page.price := by
  cases ht : action.typed? with
  | none =>
    cases hl : action.locale? with
    | none =>
      rw [step_eq_withTable page hl ht]
      rfl
    | some locale =>
      obtain ⟨_, hp⟩ := persistLocale_eq page locale
      rw [step_of_locale hl, hp]
      rfl
  | some typed =>
    rw [Action.eq_typePrice ht]
    rfl

/-- The price is the text that was typed last. -/
theorem price_after (page : Page) (actions : List Action) :
    (page.after actions).price = ((lastTyped? actions).map Price.text).getD page.price := by
  induction actions using List.reverseRecOn with
  | nil => rfl
  | append_singleton actions action ih =>
    rw [after_append_singleton, price_step, lastTyped?_append_singleton, ih]
    cases action.typed? <;> rfl

/-! ## Settled pages -/

/-- The head has drawn the number of rows that are selected now. -/
def Settled (page : Page) : Prop := page.head.shown = page.selection.size

theorem settled_start (env : Environment) : (start env).1.Settled := rfl

theorem settled_step {page : Page} (h : page.Settled) (action : Action) :
    (page.step action).1.Settled := by
  have hd : ∀ page : Page, page.drawn.Settled := fun page => TableHead.State.shown_draw _ _
  cases action with
  | pickLocale target =>
    cases target with
    | none => exact h
    | some tag =>
      simp only [step, pickLocale, pickTag]
      split
      · exact hd _
      · exact h
  | typePrice target =>
    cases target with
    | none => exact h
    | some typed => exact hd _
  | selectAll | toggleRow _ => exact hd _
  | publish =>
    simp only [step, publish]
    split <;> exact h
  | delete =>
    simp only [step, delete]
    split
    · exact hd _
    · exact h
  | clickTable => exact h

theorem settled_after {page : Page} (h : page.Settled) (actions : List Action) :
    (page.after actions).Settled := by
  induction actions using List.reverseRecOn with
  | nil => exact h
  | append_singleton actions action ih =>
    rw [after_append_singleton]
    exact settled_step ih action

/-- Drawing a settled page again changes nothing. -/
theorem drawn_of_settled {page : Page} (h : page.Settled) : page.drawn = page := by
  have hd : page.head.draw page.headProps = page.head := if_pos h.symm
  rw [drawn, hd]

end AdminPanel.Page
