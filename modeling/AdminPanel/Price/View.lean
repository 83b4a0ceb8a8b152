import AdminPanel.Price.Value

/-! # What a price field shows

The view is built from a name and a series of settings. Each setting overwrites its own part of the
view and leaves the others alone, so only the last setting of each kind counts. A currency symbol
is shown only when it has a character. -/

namespace AdminPanel

structure PriceView where
  name : String
  label : Option String
  hint : Option String
  value : String
  adornment : Option String
  error : Bool
  disabled : Bool
deriving DecidableEq, Repr

/-- The symbol to show for a currency: none for an empty one. -/
def currencyAdornment (symbol : Option String) : Option String :=
  symbol.filter fun symbol => !symbol.isEmpty

namespace PriceView

def defaultName : String := "price"

/-- The kind of input, which lets a browser offer digits only. -/
def inputType : String := "number"

def ofName (name : Option String) : PriceView :=
  ⟨name.getD defaultName, none, none, "", none, false, false⟩

inductive Setting where
  | label (text : Option String)
  | hint (text : Option String)
  | value (price : Option Price)
  | currency (symbol : Option String)
  | flags (error disabled : Bool)
deriving DecidableEq, Repr

def set (view : PriceView) : Setting → PriceView
  | .label text => { view with label := text }
  | .hint text => { view with hint := text }
  | .value price => { view with value := (price.map Price.shown).getD "" }
  | .currency symbol => { view with adornment := currencyAdornment symbol }
  | .flags error disabled => { view with error := error, disabled := disabled }

def setAll (view : PriceView) (settings : List Setting) : PriceView := settings.foldl set view

/-- The views along a series of settings, the first one included. -/
def history (view : PriceView) : List Setting → List PriceView
  | [] => [view]
  | setting :: settings => view :: (view.set setting).history settings

/-! ## Small facts -/

/-- The last view of the history is the view after all settings. -/
theorem getLast?_history (view : PriceView) (settings : List Setting) :
    (view.history settings).getLast? = some (view.setAll settings) := by
  induction settings generalizing view with
  | nil => rfl
  | cons setting settings ih =>
    have hne : (view.set setting).history settings ≠ [] := by cases settings <;> simp [history]
    simp only [history, List.getLast?_cons_of_ne_nil hne, ih]
    rfl

/-- An adornment is never the empty text. -/
theorem currencyAdornment_ne_empty (symbol : Option String) :
    currencyAdornment symbol ≠ some "" := by
  cases symbol with
  | none => simp [currencyAdornment]
  | some s => by_cases h : s = "" <;> simp [currencyAdornment, Option.filter, h]

end PriceView

end AdminPanel
