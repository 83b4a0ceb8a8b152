import AdminPanel.Proofs.Html.RoundTrip
import AdminPanel.Proofs.Widget.Reading

/-! # The markup of widgets

The markup of a widget can be read back when its texts are not empty, whatever they and the values
of its attributes are made of. A price field puts its name, its value and its currency each in one
place, and the tags around them do not depend on what they are. -/
namespace AdminPanel
open Html (Block block_void block_leaf block_element)

/-! ## Checkboxes and drop-down lists -/

theorem Checkbox.block_html (box : Checkbox) : Block box.html :=
  block_void (by simp +decide)

theorem Select.block_html {select : Select} (h : ∀ option ∈ select.options, option.label ≠ "") :
    Block select.html := by
  refine block_element (by simp +decide) ?_
  intro child hmem
  obtain ⟨option, hoption, rfl⟩ := List.mem_map.mp hmem
  exact block_leaf (by simp +decide) (h option hoption)

/-! ## Field sets and inputs -/

theorem Fieldset.block_html {fields : Fieldset} (hl : fields.legend ≠ some "")
    (hh : fields.hint ≠ some "") (hc : ∀ child ∈ fields.children, Block child) :
    Block fields.html := by
  have hlegend : ∀ child ∈ fields.legendHtml, Block child := by
    intro child hmem
    unfold legendHtml at hmem
    split at hmem
    · rename_i legend he
      have hne : legend ≠ "" := fun hv => hl (hv ▸ he)
      rw [List.mem_singleton.mp hmem]
      exact block_leaf (by simp +decide) hne
    · cases hmem
  have hhint : ∀ child ∈ fields.hintHtml, Block child := by
    intro child hmem
    unfold hintHtml at hmem
    split at hmem
    · rename_i hint he
      have hne : hint ≠ "" := fun hv => hh (hv ▸ he)
      rw [List.mem_singleton.mp hmem]
      exact block_leaf (by simp +decide) hne
    · cases hmem
  refine block_element (by simp +decide) ?_
  intro child hmem
  rw [List.mem_append, List.mem_append] at hmem
  rcases hmem with (hmem | hmem) | hmem
  · exact hlegend child hmem
  · exact hc child hmem
  · exact hhint child hmem

theorem Input.block_html {input : Input} (h : ∀ child ∈ input.suffix, Block child) :
    Block input.html := by
  have hcontrol : Block input.control := block_void (by simp +decide)
  exact block_element (by simp +decide) (List.forall_mem_cons.mpr ⟨hcontrol, h⟩)

theorem Input.find_input {input : Input}
    (h : input.suffix.flatMap (fun child => child.find "input") = []) :
    input.html.find "input" = [input.control] := by
  simp [html, control, h]

/-! ## Price fields -/

namespace PriceView

theorem block_suffix {view : PriceView} (h : view.adornment ≠ some "") : Block view.suffix := by
  unfold suffix
  split
  · rename_i symbol he
    have hne : symbol ≠ "" := fun hv => h (hv ▸ he)
    exact block_leaf (by simp +decide) hne
  · exact block_element (by simp +decide) (by simp)

theorem block_html {view : PriceView} (hl : view.label ≠ some "") (hh : view.hint ≠ some "")
    (ha : view.adornment ≠ some "") (extraClasses : String) : Block (view.html extraClasses) := by
  have hs := block_suffix ha
  exact Fieldset.block_html hl hh
    (List.forall_mem_singleton.mpr (Input.block_html (List.forall_mem_singleton.mpr hs)))

/-- Of a currency the tags show no more than whether there is one. -/
theorem outline_suffix {view other : PriceView}
    (h : view.adornment.isSome = other.adornment.isSome) :
    view.suffix.outline = other.suffix.outline := by
  cases hv : view.adornment <;> cases ho : other.adornment <;> simp_all [suffix]

/-- The tags of two views are the same when the views differ in name, value and currency only. -/
theorem outline_html {view other : PriceView} (hl : view.label = other.label)
    (hh : view.hint = other.hint) (he : view.error = other.error)
    (hd : view.disabled = other.disabled)
    (ha : view.adornment.isSome = other.adornment.isSome) (extraClasses : String) :
    (view.html extraClasses).outline = (other.html extraClasses).outline := by
  have hs := outline_suffix ha
  simp [html, Fieldset.html, Fieldset.legendHtml, Fieldset.hintHtml, Fieldset.classes, Input.html,
    Input.control, Input.classes, Input.invalidMark, Attribute.of, Attribute.optional, hl, hh, he,
    hd, hs]

theorem find_fieldset (view : PriceView) (extraClasses : String) :
    (view.html extraClasses).find "fieldset" = [view.html extraClasses] := by
  have hs : view.suffix.find "fieldset" = [] := PriceField.find_suffix (by decide) view
  rw [html, Fieldset.html, Html.find_element, if_pos rfl, List.flatMap_append,
    List.flatMap_append, Fieldset.find_legendHtml, Fieldset.find_hintHtml]
  simp [Input.find_html, hs]

/-- The one input of a price field. -/
def control (view : PriceView) : Html :=
  Input.control {
    value := view.value
    kind := some inputType
    name := some view.name
    tone := if view.error then some .error else none
    disabled := view.disabled }

theorem find_input (view : PriceView) (extraClasses : String) :
    (view.html extraClasses).find "input" = [view.control] := by
  have hs : view.suffix.find "input" = [] := PriceField.find_suffix (by decide) view
  rw [html, Fieldset.find_html (by decide)]
  simp [Input.find_input, hs]
  rfl

theorem value?_name_control (view : PriceView) : view.control.value? "name" = some view.name := by
  simp [control, Input.control, Html.value?, Html.attributes]

theorem value?_value_control (view : PriceView) :
    view.control.value? "value" = some view.value := by
  simp [control, Input.control, Html.value?, Html.attributes]

theorem textsIn_span (view : PriceView) (extraClasses : String) :
    (view.html extraClasses).textsIn "span" = view.adornment.toList := by
  have hs : view.suffix.textsIn "span" = view.adornment.toList := by
    unfold suffix
    split <;> rename_i h <;> simp [Html.textsIn, h]
  rw [← hs, Html.textsIn, html, Fieldset.find_html (by decide)]
  simp [Input.find_html, Html.textsIn]

end PriceView

/-! ## Table heads -/

namespace TableHead

theorem block_bulkBar {label : String} {toolbar : List Html} (hl : label ≠ "")
    (ht : ∀ tree ∈ toolbar, Block tree) : Block (bulkBar label toolbar) := by
  have hlabel : Block (.element "span" [.classes ["text-sm"]] [.text label]) :=
    block_leaf (by simp +decide) hl
  have hspacer : Block (.element "div" [.classes ["flex-1"]] []) :=
    block_element (by simp +decide) (by simp)
  have htoolbar : Block (.element "div"
      [.of "style" Style.bulkToolbar, .classes ["table-head-toolbar"]] toolbar) :=
    block_element (by simp +decide) ht
  have hparts : ∀ part ∈ [_, _, _], Block part :=
    List.forall_mem_cons.mpr ⟨hlabel, List.forall_mem_cons.mpr ⟨hspacer,
      List.forall_mem_singleton.mpr htoolbar⟩⟩
  have hrow : Block (.element "div"
      [.of "style" Style.bulkRow, .classes ["table-head-bar-row"]] _) :=
    block_element (by simp +decide) hparts
  have hbar : Block (.element "div" [.of "style" Style.bulkBar, .classes ["table-head-bar"]] _) :=
    block_element (by simp +decide) (List.forall_mem_singleton.mpr hrow)
  exact block_element (by simp +decide) (List.forall_mem_singleton.mpr hbar)

theorem block_drawing {props : Props} (h : ∀ tree ∈ props.body, Block tree) (flag : SelectAll) :
    Block (drawing props flag) := by
  have hbox : Block (.element "th" [.classes ["table-head-checkbox w-12"]]
      [(checkbox props flag).html]) :=
    block_element (by simp +decide) (List.forall_mem_singleton.mpr (Checkbox.block_html _))
  have hrow : Block (.element "tr" [] _) :=
    block_element (by simp +decide) (List.forall_mem_cons.mpr ⟨hbox, h⟩)
  exact block_element (by simp +decide) (List.forall_mem_singleton.mpr hrow)

end TableHead

end AdminPanel
