import AdminPanel.Locale.Bundle

/-! # What the header shows

A header shows its own cells while nothing is selected, and a bulk bar with the number of selected
rows otherwise. Only the number decides. -/

namespace AdminPanel

inductive HeaderContent where
  | cells
  | bulk (count : Nat)
deriving DecidableEq, Repr

namespace HeaderContent

/-- Where the label of the bulk bar is found among the texts. -/
def labelPath : String := "table_head.selected_items"

def labelFallback : String := "Selected \x7b\x7b number \x7d\x7d items"

def ofCount (selected : Nat) : HeaderContent := if selected = 0 then .cells else .bulk selected

def isBulk : HeaderContent → Bool
  | .cells => false
  | .bulk _ => true

/-- The label of the bulk bar; the header's own cells have none. -/
def label? (content : HeaderContent) (bundle : Bundle) : Option String :=
  match content with
  | .cells => none
  | .bulk count => some (bundle.format labelPath labelFallback [("number", Nat.repr count)])

end HeaderContent

/-! ## The select-all flag

The select-all checkbox keeps a flag of its own. A click hands the items and the count of selected
rows to the owner of the selection, flips the flag, and stops the event. The flag follows the
selection only in one way: reconciling it with an empty selection clears it. -/

/-- What the owner of the selection receives for one click. -/
structure ToggleAll where
  items : List String
  selected : Nat
deriving DecidableEq, Repr

structure SelectAll where
  checked : Bool
deriving DecidableEq, Repr

/-- What one click on the select-all checkbox gives: the flag after it, the requests handed to the
owner, and how often the event was stopped. -/
structure SelectAll.Click where
  after : SelectAll
  requests : List ToggleAll
  stopped : Nat
deriving DecidableEq, Repr

namespace SelectAll

def initial : SelectAll := ⟨false⟩

def flip (flag : SelectAll) : SelectAll := ⟨!flag.checked⟩

/-- One click, with the items and the count that the header shows at that time. -/
def click (flag : SelectAll) (items : List String) (selected : Nat) : Click :=
  ⟨flag.flip, [⟨items, selected⟩], 1⟩

/-- The flag once the owner reports a number of selected rows. -/
def reconcile (flag : SelectAll) (selected : Nat) : SelectAll :=
  if selected = 0 then ⟨false⟩ else flag

end SelectAll

end AdminPanel
