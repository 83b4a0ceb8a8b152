import AdminPanel.Proofs.Html.Query
import AdminPanel.Widget.PriceField
import AdminPanel.Widget.Controls
import AdminPanel.Widget.TableHead

/-! # Reading widgets

What a widget shows in its markup: the texts and labels it was given, the marks of what is checked
or selected, and no elements but its own. -/
namespace AdminPanel

/-! ## Checkboxes -/

namespace Checkbox

theorem has_checked (box : Checkbox) : box.html.has "checked" = box.checked := by
  simp [html]

theorem labels_html (box : Checkbox) : box.html.labels = box.ariaLabel.toList := by
  simp [html]

theorem texts_html (box : Checkbox) : box.html.texts = [] := rfl

theorem find_html (box : Checkbox) (tag : String) :
    box.html.find tag = if "input" = tag then [box.html] else [] := Html.find_void ..

end Checkbox

/-! ## Drop-down lists -/

namespace Select

theorem has_selected (current : Option String) (option : SelectOption) :
    (optionHtml current option).has "selected" = decide (current = some option.value) := by
  simp [optionHtml]

theorem find_option (select : Select) :
    select.html.find "option" = select.options.map (optionHtml select.value) := by
  have ho : ∀ option, (optionHtml select.value option).find "option" =
      [optionHtml select.value option] := fun option => rfl
  rw [html, Html.find_element, if_neg (by decide), List.nil_append, List.flatMap_map]
  simp only [ho, ← List.map_eq_flatMap]

theorem find_html {tag : String} (h : tag ∉ ["select", "option"]) (select : Select) :
    select.html.find tag = [] := by
  simp only [List.mem_cons, List.not_mem_nil, or_false, not_or] at h
  simp [html, optionHtml, Ne.symm h.1, Ne.symm h.2]

theorem texts_html (select : Select) :
    select.html.texts = select.options.map SelectOption.label := by
  have ho : ∀ option, (optionHtml select.value option).texts = [option.label] := fun option => rfl
  rw [html, Html.texts_element, List.flatMap_map]
  simp only [ho, ← List.map_eq_flatMap]

theorem labels_html (select : Select) : select.html.labels = select.ariaLabel.toList := by
  have ho : ∀ option, (optionHtml select.value option).labels = [] := by
    intro option
    by_cases h : select.value = some option.value <;> simp [optionHtml, Attribute.toggled, h]
  simp [html, List.flatMap_map, ho]

end Select

/-! ## Field sets and inputs -/

namespace Fieldset

theorem texts_legendHtml (fields : Fieldset) :
    fields.legendHtml.flatMap Html.texts = fields.legend.toList := by
  unfold legendHtml
  split <;> rename_i h <;> simp [h]

theorem texts_hintHtml (fields : Fieldset) :
    fields.hintHtml.flatMap Html.texts = fields.hint.toList := by
  unfold hintHtml
  split <;> rename_i h <;> simp [h]

theorem texts_html (fields : Fieldset) :
    fields.html.texts =
      fields.legend.toList ++ (fields.children.flatMap Html.texts ++ fields.hint.toList) := by
  rw [html, Html.texts_element, List.append_assoc, List.flatMap_append, List.flatMap_append,
    texts_legendHtml, texts_hintHtml]

theorem find_legendHtml (fields : Fieldset) (tag : String) :
    fields.legendHtml.flatMap (fun child => child.find tag) =
      if "legend" = tag then fields.legendHtml else [] := by
  unfold legendHtml
  split <;> simp

theorem find_hintHtml (fields : Fieldset) (tag : String) :
    fields.hintHtml.flatMap (fun child => child.find tag) =
      if "p" = tag then fields.hintHtml else [] := by
  unfold hintHtml
  split <;> simp

theorem find_html {tag : String} (h : tag ≠ "fieldset") (fields : Fieldset) :
    fields.html.find tag = (if "legend" = tag then fields.legendHtml else []) ++
      (fields.children.flatMap (fun child => child.find tag) ++
        if "p" = tag then fields.hintHtml else []) := by
  rw [html, Html.find_element, if_neg (Ne.symm h), List.nil_append, List.append_assoc,
    List.flatMap_append, List.flatMap_append, find_legendHtml, find_hintHtml]

theorem labels_html (fields : Fieldset) :
    fields.html.labels = fields.children.flatMap Html.labels := by
  have hl : fields.legendHtml.flatMap Html.labels = [] := by
    unfold legendHtml
    split <;> simp
  have hp : fields.hintHtml.flatMap Html.labels = [] := by
    unfold hintHtml
    split <;> simp
  simp [html, hl, hp]

end Fieldset

namespace Input

theorem texts_html (input : Input) : input.html.texts = input.suffix.flatMap Html.texts := by
  simp [html, control]

theorem find_html {tag : String} (h : tag ∉ ["label", "input"]) (input : Input) :
    input.html.find tag = input.suffix.flatMap fun child => child.find tag := by
  simp only [List.mem_cons, List.not_mem_nil, or_false, not_or] at h
  simp [html, control, Ne.symm h.1, Ne.symm h.2]

theorem labels_html (input : Input) : input.html.labels = input.suffix.flatMap Html.labels := by
  simp [html, control]

end Input

/-! ## Price fields -/

namespace PriceField

theorem view_eq (field : PriceField) :
    field.view = ⟨field.name, field.label, field.hint, (field.value.map Price.shown).getD "",
      currencyAdornment field.currency, field.error, field.disabled⟩ := rfl

theorem texts_suffix (view : PriceView) : view.suffix.texts = view.adornment.toList := by
  unfold PriceView.suffix
  split <;> rename_i h <;> simp [h]

theorem find_suffix {tag : String} (h : tag ≠ "span") (view : PriceView) :
    view.suffix.find tag = [] := by
  unfold PriceView.suffix
  split <;> simp [Ne.symm h]

theorem labels_suffix (view : PriceView) : view.suffix.labels = [] := by
  unfold PriceView.suffix
  split <;> simp

theorem texts_html (field : PriceField) :
    field.html.texts =
      field.label.toList ++ ((currencyAdornment field.currency).toList ++ field.hint.toList) := by
  simp [html, view_eq, PriceView.html, Fieldset.texts_html, Input.texts_html, texts_suffix]

theorem labels_html (field : PriceField) : field.html.labels = [] := by
  simp [html, PriceView.html, Fieldset.labels_html, Input.labels_html, labels_suffix]

theorem find_html {tag : String} (h : tag ∉ ["fieldset", "legend", "label", "input", "span", "p"])
    (field : PriceField) : field.html.find tag = [] := by
  simp only [List.mem_cons, List.not_mem_nil, or_false, not_or] at h
  obtain ⟨hf, hg, hl, hi, hs, hp⟩ := h
  rw [html, view_eq, PriceView.html, Fieldset.find_html hf]
  simp [Ne.symm hg, Ne.symm hp, Input.find_html, hl, hi, find_suffix hs]

theorem textsIn_legend (field : PriceField) :
    field.html.textsIn "legend" = field.label.toList := by
  rw [html, view_eq, PriceView.html, Html.textsIn, Fieldset.find_html (by decide)]
  simp [Fieldset.texts_legendHtml, Input.find_html, find_suffix]

theorem textsIn_p (field : PriceField) : field.html.textsIn "p" = field.hint.toList := by
  rw [html, view_eq, PriceView.html, Html.textsIn, Fieldset.find_html (by decide)]
  simp [Fieldset.texts_hintHtml, Input.find_html, find_suffix]

end PriceField

/-! ## Table heads -/

namespace TableHead

/-- Behind the checkbox a head has its own cells or the bulk bar. -/
theorem body_eq (props : Props) :
    props.body =
      if props.selected = 0 then props.cells
      else [bulkBar (props.texts.format HeaderContent.labelPath HeaderContent.labelFallback
        [("number", Nat.repr props.selected)]) props.toolbar] := by
  rw [Props.body, Props.content, HeaderContent.ofCount]
  split <;> rename_i h <;> split at h <;> simp_all [HeaderContent.label?]

theorem find_drawing {tag : String} (h : tag ∉ ["thead", "tr", "th", "input"]) (props : Props)
    (flag : SelectAll) :
    (drawing props flag).find tag = props.body.flatMap fun tree => tree.find tag := by
  simp only [List.mem_cons, List.not_mem_nil, or_false, not_or] at h
  obtain ⟨hh, hr, hc, hi⟩ := h
  simp [drawing, Checkbox.find_html, Ne.symm hh, Ne.symm hr, Ne.symm hc, Ne.symm hi]

theorem find_thead {props : Props} (h : props.body.flatMap (fun tree => tree.find "thead") = [])
    (flag : SelectAll) : (drawing props flag).find "thead" = [drawing props flag] := by
  simp [drawing, Checkbox.find_html, h]

/-- The cells of a head, the first of which holds the checkbox. -/
theorem find_th (props : Props) (flag : SelectAll) :
    ((drawing props flag).find "th").map Html.texts =
      [] :: (props.body.flatMap fun tree => tree.find "th").map Html.texts := by
  simp [drawing, Checkbox.find_html, Checkbox.texts_html]

theorem texts_drawing (props : Props) (flag : SelectAll) :
    (drawing props flag).texts = props.body.flatMap Html.texts := by
  simp [drawing, Checkbox.texts_html]

theorem labels_drawing (props : Props) (flag : SelectAll) :
    (drawing props flag).labels =
      props.texts.text "table_head.select_all" "Select all rows" ::
        props.body.flatMap Html.labels := by
  simp [drawing, Checkbox.labels_html, checkbox]

end TableHead

end AdminPanel
