import AdminPanel.Proofs.Selection.AllOrNone
import AdminPanel.Proofs.TableHead.Flag

/-! # A head in sync mode and its owner

The owner keeps the selection, answers every request of the head, and passes the size of the
selection back. Sync mode then ties the checkbox to the selection, up to one kind of click: one
*in vain*, on a head without items while nothing is selected. Such a click flips the flag and
moves no count, so nothing reconciles it. While the selection is empty the checkbox shows the
parity of the clicks in vain since the selection was last something else. -/
namespace AdminPanel

structure OwnedHead where
  selection : Selection
  head : TableHead

namespace OwnedHead
open TableHead (showsChecked showsChecked_html Resets flag_click flag_replace)

inductive Action where
  | selectAll
  | toggleRow (id : String)
  | clear
  /-- Other properties, items included; the count and the mode stay the owner's. -/
  | setProps (props : TableHead.Props)

def fed (props : TableHead.Props) (selection : Selection) : TableHead.Props :=
  { props with selected := selection.size, syncWithSelection := true }

def start (props : TableHead.Props) : OwnedHead := ⟨.empty, .mount (fed props .empty)⟩

def answer (selection : Selection) (requests : List ToggleAll) : Selection :=
  requests.foldl (fun selection request => selection.selectAllOrClear request.items) selection

def step (owned : OwnedHead) : Action → OwnedHead
  | .selectAll =>
    let (head, reply) := owned.head.click
    let selection := answer owned.selection reply.requests
    ⟨selection, head.replace (fed head.props selection)⟩
  | .toggleRow id =>
    let selection := owned.selection.toggle id
    ⟨selection, owned.head.replace (fed owned.head.props selection)⟩
  | .clear => ⟨.empty, owned.head.replace (fed owned.head.props .empty)⟩
  | .setProps props => ⟨owned.selection, owned.head.replace (fed props owned.selection)⟩

/-- The head and its owner once each of a series of actions has settled. -/
def after (owned : OwnedHead) (actions : List Action) : OwnedHead := actions.foldl step owned

theorem after_append_singleton (owned : OwnedHead) (actions : List Action) (action : Action) :
    owned.after (actions ++ [action]) = (owned.after actions).step action := by
  simp [after, List.foldl_append]

/-! ## Clicks in vain -/

/-- A click on a head without items while nothing is selected. -/
def isVain : OwnedHead × Action → Bool
  | (owned, .selectAll) => owned.selection.isEmpty && owned.head.props.items.isEmpty
  | _ => false

/-- The number of clicks in vain since the selection was last not empty. -/
def clicksInVain (props : TableHead.Props) (actions : List Action) : Nat :=
  ((timeline step (start props) actions).rtakeWhile fun entry => entry.1.selection.isEmpty).countP
    isVain

theorem isEmpty_iff {s : Selection} : s.isEmpty = true ↔ s = .empty := by
  obtain ⟨ids, _⟩ := s
  simp [Selection.isEmpty, Selection.empty]

theorem clicksInVain_append_singleton (props : TableHead.Props) (actions : List Action)
    (action : Action) :
    clicksInVain props (actions ++ [action]) =
      if ((start props).after actions).selection = .empty then
        clicksInVain props actions + if isVain ((start props).after actions, action) then 1 else 0
      else 0 := by
  rw [clicksInVain, timeline_append_singleton, List.rtakeWhile_concat, ← after]
  by_cases he : ((start props).after actions).selection = .empty
  · simp [isEmpty_iff, he, clicksInVain, List.countP_append, List.countP_cons]
  · simp [isEmpty_iff, he]

/-! ## What an action keeps -/

/-- The head has drawn the count of its owner, and while nothing is selected its flag has the
parity of `vain`. -/
structure Honest (owned : OwnedHead) (vain : Nat) : Prop where
  shown : owned.head.state.shown = owned.head.props.selected
  counted : owned.head.props.selected = owned.selection.size
  parity : owned.selection = .empty → (owned.head.state.flag.checked = true ↔ vain % 2 = 1)

theorem honest_start (props : TableHead.Props) : Honest (start props) 0 where
  shown := rfl
  counted := rfl
  parity := fun _ => by simp [start, TableHead.flag_mount, SelectAll.initial]

/-- A head that is fed a selection drops its flag exactly when the selection became empty. -/
theorem flag_feed {head : TableHead} {old : Selection}
    (hs : head.state.shown = head.props.selected) (hc : head.props.selected = old.size)
    (props : TableHead.Props) (selection : Selection) :
    (head.replace (fed props selection)).state.flag =
      if selection = .empty ∧ old ≠ .empty then .initial else head.state.flag := by
  have hr : Resets head.props (fed props selection) ↔ selection = .empty ∧ old ≠ .empty := by
    simp [Resets, fed, hc]
  rw [flag_replace hs]
  simp only [hr]

/-- Feeding keeps a head honest, whatever selection its owner moves to. -/
theorem honest_feed {owned : OwnedHead} {vain : Nat} (h : Honest owned vain)
    (props : TableHead.Props) (selection : Selection) :
    Honest ⟨selection, owned.head.replace (fed props selection)⟩
      (if owned.selection = .empty then vain else 0) where
  shown := TableHead.shown_step owned.head (.replace (fed props selection))
  counted := rfl
  parity := by
    intro he
    simp only at he
    rw [flag_feed h.shown h.counted]
    by_cases ho : owned.selection = .empty
    · simpa [he, ho] using h.parity ho
    · simp [he, ho, SelectAll.initial]

theorem step_selectAll (owned : OwnedHead) :
    owned.step .selectAll =
      ⟨owned.selection.selectAllOrClear owned.head.props.items,
        owned.head.click.1.replace
          (fed owned.head.props (owned.selection.selectAllOrClear owned.head.props.items))⟩ := rfl

/-- A click flips the flag; only when it is in vain is nothing selected before and after it. -/
theorem honest_selectAll {owned : OwnedHead} {vain : Nat} (h : Honest owned vain) :
    Honest (owned.step .selectAll)
      (if owned.selection = .empty then
        vain + if isVain (owned, .selectAll) then 1 else 0
      else 0) where
  shown := TableHead.shown_step _ (.replace _)
  counted := rfl
  parity := by
    intro he
    rw [step_selectAll] at he ⊢
    have hs : owned.head.click.1.state.shown = owned.head.click.1.props.selected :=
      TableHead.shown_step owned.head .click
    have hc : owned.head.click.1.props.selected = owned.selection.size := h.counted
    simp only at he ⊢
    rw [flag_feed hs hc, flag_click h.shown]
    by_cases ho : owned.selection = .empty
    · -- the selection stays empty, so there are no items and the click was in vain
      rw [ho, Selection.selectAllOrClear_empty] at he
      have hi := Selection.ofList_eq_empty_iff.mp he
      have hv : isVain (owned, .selectAll) = true := by simp [isVain, isEmpty_iff, ho, hi]
      have hp := h.parity ho
      rw [if_neg (fun hn => hn.2 ho), if_pos ho, if_pos hv, SelectAll.flip, Bool.not_eq_true',
        ← Bool.not_eq_true, hp]
      omega
    · simp [he, ho, SelectAll.initial]

theorem honest_step {owned : OwnedHead} {vain : Nat} (h : Honest owned vain) (action : Action) :
    Honest (owned.step action)
      (if owned.selection = .empty then vain + if isVain (owned, action) then 1 else 0
      else 0) := by
  cases action with
  | selectAll => exact honest_selectAll h
  | toggleRow id => exact honest_feed h owned.head.props (owned.selection.toggle id)
  | clear => exact honest_feed h owned.head.props .empty
  | setProps props => exact honest_feed h props owned.selection

theorem honest_after (props : TableHead.Props) (actions : List Action) :
    Honest ((start props).after actions) (clicksInVain props actions) := by
  induction actions using List.reverseRecOn with
  | nil => exact honest_start props
  | append_singleton actions action ih =>
    rw [after_append_singleton, clicksInVain_append_singleton]
    exact honest_step ih action

/-! ## The law -/

theorem clicksInVain_eq_zero {props : TableHead.Props} {actions : List Action}
    (h : ∀ entry ∈ timeline step (start props) actions, isVain entry = false) :
    clicksInVain props actions = 0 := by
  refine List.countP_eq_zero.mpr fun entry he => ?_
  simp [h entry ((List.rtakeWhile_suffix _ _).subset he)]

/-- **Sync mode is honest up to clicks in vain.** Whenever nothing is selected, the checkbox is
drawn checked exactly after an odd number of clicks in vain since the selection was last not
empty, and so never in a run without them. -/
theorem showsChecked_of_empty_selection {props : TableHead.Props} {actions : List Action}
    (h : ((start props).after actions).selection = .empty) :
    (showsChecked ((start props).after actions).head.html = true ↔
      clicksInVain props actions % 2 = 1) ∧
    ((∀ entry ∈ timeline step (start props) actions, isVain entry = false) →
      showsChecked ((start props).after actions).head.html = false) := by
  have hp := (honest_after props actions).parity h
  rw [showsChecked_html]
  refine ⟨hp, fun hv => ?_⟩
  rw [clicksInVain_eq_zero hv] at hp
  simpa using hp

/-- Everything selected, everything cleared, a row toggled and cleared, and then a click in vain. -/
theorem showsChecked_after_click_in_vain :
    let props : TableHead.Props := { items := ["b", "a", "b"] }
    let actions : List Action := [.selectAll, .selectAll, .toggleRow "c", .clear, .setProps {}]
    ((start props).after (actions ++ [.selectAll])).selection = .empty ∧
      clicksInVain props (actions ++ [.selectAll]) = 1 ∧
      showsChecked ((start props).after (actions ++ [.selectAll])).head.html = true ∧
      showsChecked ((start props).after actions).head.html = false := by
  intro props actions
  have hc : clicksInVain props (actions ++ [.selectAll]) = 1 := by decide
  have he : ((start props).after (actions ++ [.selectAll])).selection = .empty := by decide
  refine ⟨he, hc, ?_, ?_⟩
  · exact (showsChecked_of_empty_selection he).1.mpr (by rw [hc])
  · exact (showsChecked_of_empty_selection (by decide)).2 (by decide)

theorem not_always_unchecked_of_empty_selection :
    ¬ ∀ (props : TableHead.Props) (actions : List Action),
      ((start props).after actions).selection = .empty →
        showsChecked ((start props).after actions).head.html = false := by
  intro h
  have hc := h { items := [] } [.selectAll] rfl
  rw [showsChecked_html] at hc
  exact Bool.noConfusion hc

end OwnedHead

end AdminPanel
