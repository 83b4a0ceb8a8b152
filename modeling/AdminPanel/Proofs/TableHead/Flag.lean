import AdminPanel.Proofs.Timeline
import AdminPanel.Widget.TableHead

/-! # The select-all checkbox over a run

A head's checkbox is read off its markup. Each click flips it; of the replacements of properties
only a *reset* touches it, one that is drawn with `syncWithSelection` on and takes `selected` from
another value to zero. So one number tells the checkbox after any run: it is checked exactly when
the clicks since the last reset, or since the mount, are odd in number. -/
namespace AdminPanel.TableHead

/-! ## What the markup shows -/

/-- The attributes of the select-all checkbox, found by its place in the markup of a head. -/
def boxAttributes? : Html → Option (List Attribute)
  | .element _ _ [.element _ _ (.element _ _ [.void _ attributes] :: _)] => some attributes
  | _ => none

def showsChecked (markup : Html) : Bool :=
  ((boxAttributes? markup).getD []).contains ⟨"checked", none⟩

theorem showsChecked_drawing (props : Props) (flag : SelectAll) :
    showsChecked (drawing props flag) = flag.checked := by
  have h : boxAttributes? (drawing props flag) =
      some (Attribute.bare "checked" flag.checked ++ [.of "type" "checkbox"] ++
        Attribute.optional "aria-label" (checkbox props flag).ariaLabel ++
        Attribute.toggled "disabled" props.disabled ++
        [.classes (checkbox props flag).classes]) := rfl
  rw [showsChecked, h, Option.getD_some]
  obtain ⟨checked⟩ := flag
  cases checked
  · cases props.disabled <;>
      simp [Attribute.bare, Attribute.of, Attribute.optional, Attribute.toggled,
        Attribute.classes, checkbox]
  · simp [Attribute.bare]

@[simp] theorem showsChecked_html (head : TableHead) :
    showsChecked head.html = head.state.flag.checked := showsChecked_drawing _ _

/-! ## Runs -/

def after (head : TableHead) (actions : List Action) : TableHead :=
  actions.foldl (fun head action => (head.step action).1) head

theorem after_append_singleton (head : TableHead) (actions : List Action) (action : Action) :
    head.after (actions ++ [action]) = ((head.after actions).step action).1 := by
  simp [after, List.foldl_append]

/-- The last head of a run is the head after its actions. -/
theorem getLast?_run (head : TableHead) (actions : List Action) :
    ((head.run actions).getLast?.map Prod.fst).getD head = head.after actions := by
  induction actions generalizing head with
  | nil => rfl
  | cons action actions ih =>
    rw [after, List.foldl_cons, ← after, ← ih]
    cases h : (head.step action).1.run actions with
    | nil => simp [run, h]
    | cons reply replies => simp [run, h, List.getLast?_cons]

/-- A mounted head has drawn the properties it has, whatever happened to it. -/
theorem shown_after (props : Props) (actions : List Action) :
    ((mount props).after actions).state.shown = ((mount props).after actions).props.selected := by
  induction actions using List.reverseRecOn with
  | nil => rfl
  | append_singleton actions action _ => rw [after_append_singleton]; exact shown_step _ _

/-! ## One action -/

/-- Replacing the properties `old` by `new` resets the flag. -/
def Resets (old new : Props) : Prop :=
  new.syncWithSelection = true ∧ new.selected = 0 ∧ old.selected ≠ 0

instance (old new : Props) : Decidable (Resets old new) :=
  inferInstanceAs (Decidable (_ ∧ _ ∧ _))

theorem flag_mount (props : Props) : (mount props).state.flag = .initial := by
  simp only [mount, State.mount, State.settled, SelectAll.reconcile, SelectAll.initial]
  split
  · split <;> rfl
  · rfl

theorem flag_click {head : TableHead} (h : head.state.shown = head.props.selected) :
    head.click.1.state.flag = head.state.flag.flip := by
  simp [click, State.click, State.draw, SelectAll.click, h]

theorem flag_replace {head : TableHead} (h : head.state.shown = head.props.selected)
    (new : Props) :
    (head.replace new).state.flag =
      if Resets head.props new then .initial else head.state.flag := by
  simp only [replace, State.draw, h]
  by_cases hs : new.selected = head.props.selected
  · have hr : ¬ Resets head.props new := fun hr => hr.2.2 (hs ▸ hr.2.1)
    rw [if_pos hs, if_neg hr]
  · rw [if_neg hs]
    simp only [State.settled, SelectAll.reconcile, SelectAll.initial]
    by_cases hsync : new.syncWithSelection = true
    · by_cases h0 : new.selected = 0
      · have hr : Resets head.props new := ⟨hsync, h0, fun hn => hs (h0.trans hn.symm)⟩
        simp [hsync, h0, hr]
      · have hr : ¬ Resets head.props new := fun hr => h0 hr.2.1
        simp [hsync, h0, hr]
    · have hr : ¬ Resets head.props new := fun hr => hsync hr.1
      simp [hsync, hr]

/-! ## Counting clicks -/

def Action.props (old : Props) : Action → Props
  | .click => old
  | .replace new => new

def isClick : Props × Action → Bool
  | (_, .click) => true
  | (_, .replace _) => false

def isReset : Props × Action → Bool
  | (_, .click) => false
  | (old, .replace new) => decide (Resets old new)

/-- The number of clicks behind the last reset; without a reset, of all clicks. -/
def clicksSinceReset (props : Props) (actions : List Action) : Nat :=
  ((timeline Action.props props actions).rtakeWhile fun entry => !isReset entry).countP isClick

theorem props_after (head : TableHead) (actions : List Action) :
    (head.after actions).props = actions.foldl Action.props head.props := by
  induction actions generalizing head with
  | nil => rfl
  | cons action actions ih =>
    have hs : (head.step action).1.props = action.props head.props := by cases action <;> rfl
    rw [List.foldl_cons, ← hs, ← ih]
    rfl

/-- One more action counts one more click, starts again, or changes nothing. -/
theorem clicksSinceReset_append_singleton (props : Props) (actions : List Action)
    (action : Action) :
    clicksSinceReset props (actions ++ [action]) =
      match action with
      | .click => clicksSinceReset props actions + 1
      | .replace new =>
        if Resets ((mount props).after actions).props new then 0
        else clicksSinceReset props actions := by
  rw [clicksSinceReset, timeline_append_singleton, List.rtakeWhile_concat,
    ← show _ = actions.foldl Action.props props from props_after (mount props) actions]
  cases action with
  | click => simp [clicksSinceReset, isReset, isClick]
  | replace new =>
    by_cases hr : Resets ((mount props).after actions).props new
    · simp [isReset, hr]
    · simp [clicksSinceReset, isReset, isClick, hr]

/-! ## The law -/

theorem checked_after (props : Props) (actions : List Action) :
    ((mount props).after actions).state.flag.checked = true ↔
      clicksSinceReset props actions % 2 = 1 := by
  induction actions using List.reverseRecOn with
  | nil => simp [after, flag_mount, SelectAll.initial, clicksSinceReset, timeline]
  | append_singleton actions action ih =>
    have hs := shown_after props actions
    rw [after_append_singleton, clicksSinceReset_append_singleton]
    cases action with
    | click =>
      have hf : (((mount props).after actions).step .click).1.state.flag.checked =
          !((mount props).after actions).state.flag.checked :=
        congrArg SelectAll.checked (flag_click hs)
      simp only [hf, Bool.not_eq_true', ← Bool.not_eq_true, ih]
      omega
    | replace new =>
      simp only [step, flag_replace hs new]
      split
      · simp [SelectAll.initial]
      · exact ih

/-- **The checkbox counts clicks modulo two.** After every run of a mounted head the checkbox is
drawn checked exactly when the clicks since the last reset are odd in number. A replacement that
comes next clears the checkbox if it is a reset, and otherwise leaves it as it was. -/
theorem showsChecked_iff_odd_clicksSinceReset (props : Props) (actions : List Action) :
    (showsChecked ((mount props).after actions).html = true ↔
      clicksSinceReset props actions % 2 = 1) ∧
    ∀ new, showsChecked ((mount props).after (actions ++ [.replace new])).html =
      if Resets ((mount props).after actions).props new then false
      else showsChecked ((mount props).after actions).html := by
  refine ⟨?_, ?_⟩
  · rw [showsChecked_html]
    exact checked_after props actions
  · intro new
    have hf := flag_replace (shown_after props actions) new
    simp only [showsChecked_html, after_append_singleton, step, hf]
    split
    · rfl
    · rfl

end AdminPanel.TableHead
