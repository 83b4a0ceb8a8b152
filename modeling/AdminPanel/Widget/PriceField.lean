import AdminPanel.Price.View
import AdminPanel.Theme.Style
import AdminPanel.Widget.Controls

/-! # Price fields

A price field is drawn from its view alone, the extra classes apart. An empty element keeps the
place of a currency that is not shown. -/

namespace AdminPanel

structure PriceField where
  label : Option String := none
  hint : Option String := none
  error : Bool := false
  disabled : Bool := false
  currency : Option String := none
  name : String := PriceView.defaultName
  value : Option Price := none
  extraClasses : String := ""

def PriceView.suffix (view : PriceView) : Html :=
  match view.adornment with
  | some symbol =>
    .element "span"
      [.of "style" Style.currency, .classes ["price-field-currency text-base-content/70"]]
      [.text symbol]
  | none => .element "span" [] []

def PriceView.html (view : PriceView) (extraClasses : String) : Html :=
  let input : Input := {
    value := view.value
    kind := some PriceView.inputType
    name := some view.name
    tone := if view.error then some .error else none
    disabled := view.disabled
    suffix := [view.suffix] }
  let fields : Fieldset := {
    legend := view.label
    hint := view.hint
    error := view.error
    extraClasses := ["price-field", extraClasses]
    children := [input.html] }
  fields.html

namespace PriceField

def view (field : PriceField) : PriceView :=
  (PriceView.ofName (some field.name)).setAll [
    .label field.label, .hint field.hint, .value field.value, .currency field.currency,
    .flags field.error field.disabled]

def html (field : PriceField) : Html := field.view.html field.extraClasses

end PriceField

end AdminPanel
