import AdminPanel.Console
import AdminPanel.Selection.Header
import AdminPanel.Theme.Style
import AdminPanel.Widget.Controls

/-! # Table heads

A table head shows the select-all checkbox and, next to it, what the number of selected rows calls
for. Its owner keeps the selection and gives the head its properties; the head keeps only the flag
of the checkbox.

After the first drawing, and after each drawing in which the number of selected rows differs from
the drawing before, the head settles: with `syncWithSelection` on, it reconciles the flag with that
number. -/

namespace AdminPanel

/-- What the owner gives a head. Without a bundle the texts are English. -/
structure TableHead.Props where
  disabled : Bool := false
  items : List String := []
  selected : Nat := 0
  toolbar : List Html := []
  cells : List Html := []
  syncWithSelection : Bool := false
  extraClasses : String := ""
  bundle : Option Bundle := none

/-- What a head keeps between drawings: the flag, and the number of selected rows that the last
drawing showed. -/
structure TableHead.State where
  flag : SelectAll
  shown : Nat
deriving DecidableEq, Repr

/-- A head with its properties and what it keeps. -/
structure TableHead where
  props : TableHead.Props
  state : TableHead.State

namespace TableHead

/-! ## Drawing -/

def Props.texts (props : Props) : Bundle := props.bundle.getD (.ofLocale .fallback)

def Props.content (props : Props) : HeaderContent := .ofCount props.selected

/-- The bar over the header row: the label, a spacer, and the actions. -/
def bulkBar (label : String) (toolbar : List Html) : Html :=
  .element "th" [.classes ["table-head-bulk p-0"]] [
    .element "div" [.of "style" Style.bulkBar, .classes ["table-head-bar"]] [
      .element "div" [.of "style" Style.bulkRow, .classes ["table-head-bar-row"]] [
        .element "span" [.classes ["text-sm"]] [.text label],
        .element "div" [.classes ["flex-1"]] [],
        .element "div" [.of "style" Style.bulkToolbar, .classes ["table-head-toolbar"]] toolbar]]]

def Props.body (props : Props) : List Html :=
  match props.content.label? props.texts with
  | some label => [bulkBar label props.toolbar]
  | none => props.cells

def checkbox (props : Props) (flag : SelectAll) : Checkbox where
  checked := flag.checked
  disabled := props.disabled
  tone := some .primary
  size := .small
  ariaLabel := some (props.texts.text "table_head.select_all" "Select all rows")

def drawing (props : Props) (flag : SelectAll) : Html :=
  .element "thead" [.classes ["table-head", props.extraClasses]] [
    .element "tr" []
      (.element "th" [.classes ["table-head-checkbox w-12"]] [(checkbox props flag).html] ::
        props.body)]

def html (head : TableHead) : Html := drawing head.props head.state.flag

/-! ## Clicks and new properties -/

/-- The flag after a drawing has settled. -/
def State.settled (props : Props) (flag : SelectAll) : SelectAll :=
  if props.syncWithSelection then flag.reconcile props.selected else flag

def State.mount (props : Props) : State := ⟨State.settled props .initial, props.selected⟩

def State.draw (state : State) (props : Props) : State :=
  if props.selected = state.shown then state
  else ⟨State.settled props state.flag, props.selected⟩

structure Reply where
  requests : List ToggleAll
  stopped : Nat
  console : List ConsoleEntry
deriving DecidableEq, Repr

def Reply.silent : Reply := ⟨[], 0, []⟩

/-- The state right after a click, and the reply. The properties are those of the drawing that was
clicked. -/
def State.click (state : State) (props : Props) : State × Reply :=
  let click := state.flag.click props.items props.selected
  ({ state with flag := click.after },
    ⟨click.requests, click.stopped, [.selectAllToggled props.selected click.after.checked]⟩)

/-- A head that has been drawn for the first time. -/
def mount (props : Props) : TableHead := ⟨props, .mount props⟩

/-- The head after its owner has changed the properties. -/
def replace (head : TableHead) (props : Props) : TableHead := ⟨props, head.state.draw props⟩

/-- The head after a click on the checkbox, drawn again with the same properties. -/
def click (head : TableHead) : TableHead × Reply :=
  let (state, reply) := head.state.click head.props
  (⟨head.props, state.draw head.props⟩, reply)

inductive Action where
  | click
  | replace (props : Props)

def step (head : TableHead) : Action → TableHead × Reply
  | .click => head.click
  | .replace props => (head.replace props, .silent)

/-- The heads after each of a series of actions, with the replies. -/
def run (head : TableHead) : List Action → List (TableHead × Reply)
  | [] => []
  | action :: actions => head.step action :: (head.step action).1.run actions

/-! ## Small facts -/

@[simp] theorem State.shown_mount (props : Props) :
    (State.mount props).shown = props.selected := rfl

@[simp] theorem State.shown_draw (state : State) (props : Props) :
    (state.draw props).shown = props.selected := by
  unfold State.draw
  split <;> simp_all

/-- Whatever happens, a head has drawn the properties it has. -/
theorem shown_step (head : TableHead) (action : Action) :
    (head.step action).1.state.shown = (head.step action).1.props.selected := by
  cases action with
  | click => simp [step, click, State.click]
  | replace props => simp [step, replace]

end TableHead

end AdminPanel
