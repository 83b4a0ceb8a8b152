import AdminPanel.Proofs.Widget.Markup

/-! # Reading a price field back

The markup of a price field tells its whole view. The view is read off the pieces of the markup:
each part stands in the first element with its tag, either as an attribute or as the text that the
element begins with. An empty text leaves no piece, but the element around it does, so it is not
taken for one that is absent. -/
namespace AdminPanel

namespace Html

/-! ## The first element with a tag -/

/-- The attributes of the first element with a tag, and the pieces behind its opening. -/
def first? (tag : String) : List Piece → Option (List Attribute × List Piece)
  | [] => none
  | .opening name attrs :: rest => if name = tag then some (attrs, rest) else first? tag rest
  | .closing _ :: rest => first? tag rest
  | .char _ :: rest => first? tag rest

/-- The characters in front of the next tag. -/
def leadingText : List Piece → List Char
  | .char c :: rest => c :: leadingText rest
  | _ => []

def attributesOf (tag : String) (pieces : List Piece) : List Attribute :=
  ((first? tag pieces).map Prod.fst).getD []

/-- The text that the first element with a tag begins with. -/
def contentOf? (tag : String) (pieces : List Piece) : Option String :=
  (first? tag pieces).map fun found => String.ofList (leadingText found.2)

theorem leadingText_append (cs : List Char) (name : String) (rest : List Piece) :
    leadingText (cs.map Piece.char ++ .closing name :: rest) = cs := by
  induction cs with
  | nil => rfl
  | cons c cs ih => rw [List.map_cons, List.cons_append, leadingText, ih]

section First
variable {tag : String} (rest : List Piece)

theorem first?_chars_append (cs : List Char) :
    first? tag (cs.map Piece.char ++ rest) = first? tag rest := by
  induction cs with
  | nil => rfl
  | cons c cs ih => rw [List.map_cons, List.cons_append, first?, ih]

theorem first?_append_of_forall {trees : List Html}
    (h : ∀ tree ∈ trees, ∀ rest, first? tag (tree.pieces ++ rest) = first? tag rest) :
    first? tag (piecesOfAll trees ++ rest) = first? tag rest := by
  induction trees with
  | nil => rfl
  | cons tree trees ih =>
    obtain ⟨htree, htrees⟩ := List.forall_mem_cons.mp h
    rw [piecesOfAll, List.append_assoc, htree, ih htrees]

/-- An element is looked for behind a tree that has none of its tag. -/
theorem first?_pieces_append {tree : Html} (h : tree.find tag = []) :
    first? tag (tree.pieces ++ rest) = first? tag rest := by
  induction tree using inductionOn generalizing rest with
  | text value => exact first?_chars_append rest value.toList
  | element name attrs children ih =>
    obtain ⟨hname, hchildren⟩ := List.append_eq_nil_iff.mp (find_element name attrs children tag ▸ h)
    have hne : name ≠ tag := fun he => by simp [he] at hname
    have hskip : ∀ child ∈ children, ∀ rest, first? tag (child.pieces ++ rest) = first? tag rest :=
      fun child hmem rest => ih child hmem rest (List.flatMap_eq_nil_iff.mp hchildren child hmem)
    rw [pieces, List.cons_append, first?, if_neg hne, List.append_assoc,
      first?_append_of_forall _ hskip]
    rfl
  | void name attrs =>
    have hne : name ≠ tag := fun he => by simp [he] at h
    rw [pieces, List.singleton_append, first?, if_neg hne]

theorem first?_piecesOfAll_append {trees : List Html}
    (h : trees.flatMap (fun tree => tree.find tag) = []) :
    first? tag (piecesOfAll trees ++ rest) = first? tag rest :=
  first?_append_of_forall rest fun tree hmem rest =>
    first?_pieces_append rest (List.flatMap_eq_nil_iff.mp h tree hmem)

/-- The first element with a tag, when nothing but text is in it. -/
theorem first?_leaf_append (attrs : List Attribute) (value : String) :
    first? tag ((Html.element tag attrs [.text value]).pieces ++ rest) =
      some (attrs, value.toList.map Piece.char ++ .closing tag :: rest) := by
  rw [pieces, List.cons_append, first?, if_pos rfl, piecesOfAll, pieces, piecesOfAll]
  simp

end First

theorem piecesOfAll_append (trees more : List Html) :
    piecesOfAll (trees ++ more) = piecesOfAll trees ++ piecesOfAll more := by
  rw [piecesOfAll_eq, piecesOfAll_eq, piecesOfAll_eq, List.flatMap_append]

end Html

/-! ## The parts of a field set and of an input -/

namespace Fieldset
open Html (Piece piecesOfAll first? contentOf?)

theorem pieces_html (fields : Fieldset) :
    fields.html.pieces = .opening "fieldset" [.classes fields.classes] ::
      (piecesOfAll fields.legendHtml ++
        (piecesOfAll fields.children ++ (piecesOfAll fields.hintHtml ++ [.closing "fieldset"]))) := by
  rw [html, Html.pieces, Html.piecesOfAll_append, Html.piecesOfAll_append, List.append_assoc,
    List.append_assoc]

theorem legible_html {fields : Fieldset} (h : ∀ child ∈ fields.children, child.Legible) :
    fields.html.Legible := by
  have hlegend : ∀ child ∈ fields.legendHtml, child.Legible := by
    unfold legendHtml
    split <;> simp +decide
  have hhint : ∀ child ∈ fields.hintHtml, child.Legible := by
    unfold hintHtml
    split <;> simp +decide
  refine (Html.legible_element ..).mpr ⟨by simp +decide, ?_⟩
  exact List.forall_mem_append.mpr ⟨List.forall_mem_append.mpr ⟨hlegend, h⟩, hhint⟩

/-- Behind the legend stands what the field set is made of. -/
theorem first?_html {tag : String} (h : tag ∉ ["fieldset", "legend"]) (fields : Fieldset) :
    first? tag fields.html.pieces = first? tag
      (piecesOfAll fields.children ++ (piecesOfAll fields.hintHtml ++ [.closing "fieldset"])) := by
  simp only [List.mem_cons, List.not_mem_nil, or_false, not_or] at h
  have hlegend : fields.legendHtml.flatMap (fun child => child.find tag) = [] := by
    rw [find_legendHtml, if_neg (Ne.symm h.2)]
  rw [pieces_html, first?, if_neg (Ne.symm h.1), Html.first?_piecesOfAll_append _ hlegend]

theorem contentOf?_legend {fields : Fieldset}
    (h : fields.children.flatMap (fun child => child.find "legend") = []) :
    contentOf? "legend" fields.html.pieces = fields.legend := by
  rw [contentOf?, pieces_html, first?, if_neg (by decide)]
  cases hl : fields.legend with
  | none =>
    have hlegend : fields.legendHtml = [] := by simp [legendHtml, hl]
    have hhint : fields.hintHtml.flatMap (fun child => child.find "legend") = [] := by
      rw [find_hintHtml, if_neg (by decide)]
    rw [hlegend, piecesOfAll, List.nil_append, Html.first?_piecesOfAll_append _ h,
      Html.first?_piecesOfAll_append _ hhint]
    rfl
  | some legend =>
    rw [legendHtml, hl, piecesOfAll, piecesOfAll, List.append_nil, Html.first?_leaf_append,
      Option.map_some, Html.leadingText_append, String.ofList_toList]

theorem contentOf?_hint {fields : Fieldset}
    (h : fields.children.flatMap (fun child => child.find "p") = []) :
    contentOf? "p" fields.html.pieces = fields.hint := by
  rw [contentOf?, first?_html (by decide), Html.first?_piecesOfAll_append _ h]
  cases hh : fields.hint with
  | none =>
    have hhint : fields.hintHtml = [] := by simp [hintHtml, hh]
    rw [hhint]
    rfl
  | some hint =>
    rw [hintHtml, hh, piecesOfAll, piecesOfAll, List.append_nil, Html.first?_leaf_append,
      Option.map_some, Html.leadingText_append, String.ofList_toList]

end Fieldset

namespace Input
open Html (Piece piecesOfAll first?)

theorem legible_html {input : Input} (h : ∀ child ∈ input.suffix, child.Legible) :
    input.html.Legible := by
  have hcontrol : input.control.Legible := by simp +decide [control]
  exact (Html.legible_element ..).mpr ⟨by simp +decide, List.forall_mem_cons.mpr ⟨hcontrol, h⟩⟩

theorem pieces_html (input : Input) (rest : List Piece) :
    input.html.pieces ++ rest = .opening "label" [.classes input.classes] ::
      .opening "input" input.control.attributes ::
        (piecesOfAll input.suffix ++ .closing "label" :: rest) := by
  rw [html, Html.pieces, piecesOfAll, List.cons_append, List.append_assoc, List.append_assoc]
  rfl

end Input

/-! ## The view of a price field -/

namespace PriceView
open Html (Piece piecesOfAll first? contentOf? attributesOf)

/-- The currency that a row of pieces shows. The span of a currency has a style of its own; without a
currency there is a bare one in its place. -/
def currencyOf? (pieces : List Piece) : Option String :=
  if Attribute.occurs "style" (attributesOf "span" pieces) then contentOf? "span" pieces else none

/-- What a row of pieces shows of a price field. -/
def ofPieces (pieces : List Piece) : PriceView where
  name := (Attribute.lookup? "name" (attributesOf "input" pieces)).getD ""
  label := contentOf? "legend" pieces
  hint := contentOf? "p" pieces
  value := (Attribute.lookup? "value" (attributesOf "input" pieces)).getD ""
  adornment := currencyOf? pieces
  error := Attribute.occurs "aria-invalid" (attributesOf "input" pieces)
  disabled := Attribute.occurs "disabled" (attributesOf "input" pieces)

/-- The view that a text of markup shows; `none` when a tag is malformed. -/
def ofMarkup? (markup : String) : Option PriceView := (Html.pieces? markup.toList).map ofPieces

variable (view : PriceView) (extraClasses : String)

theorem contentOf?_legend_html :
    contentOf? "legend" (view.html extraClasses).pieces = view.label := by
  have hs : view.suffix.find "legend" = [] := PriceField.find_suffix (by decide) view
  refine Fieldset.contentOf?_legend ?_
  simp [Input.find_html, hs]

theorem contentOf?_hint_html : contentOf? "p" (view.html extraClasses).pieces = view.hint := by
  have hs : view.suffix.find "p" = [] := PriceField.find_suffix (by decide) view
  refine Fieldset.contentOf?_hint ?_
  simp [Input.find_html, hs]

theorem attributesOf_input :
    attributesOf "input" (view.html extraClasses).pieces = view.control.attributes := by
  rw [attributesOf, html, Fieldset.first?_html (by decide), piecesOfAll, List.append_assoc,
    Input.pieces_html]
  rfl

theorem has_invalid_control : view.control.has "aria-invalid" = view.error := by
  cases h : view.error <;> simp [control, Input.control, Input.invalidMark, h]

theorem has_disabled_control : view.control.has "disabled" = view.disabled := by
  simp [control, Input.control]

/-- The currency is the text of the span behind the input. -/
theorem first?_span :
    ∃ rest, first? "span" (view.html extraClasses).pieces =
      some (view.suffix.attributes,
        (view.adornment.getD "").toList.map Piece.char ++ .closing "span" :: rest) := by
  rw [html, Fieldset.first?_html (by decide), piecesOfAll, List.append_assoc, Input.pieces_html,
    first?, if_neg (by decide), first?, if_neg (by decide)]
  show ∃ rest, first? "span" (view.suffix.pieces ++ [] ++ _) = _
  rw [List.append_nil, suffix]
  cases view.adornment with
  | none => exact ⟨_, rfl⟩
  | some symbol => exact ⟨_, Html.first?_leaf_append ..⟩

theorem currencyOf?_html : currencyOf? (view.html extraClasses).pieces = view.adornment := by
  obtain ⟨rest, hs⟩ := first?_span view extraClasses
  have hattrs : attributesOf "span" (view.html extraClasses).pieces = view.suffix.attributes := by
    rw [attributesOf, hs]
    rfl
  have hcontent : contentOf? "span" (view.html extraClasses).pieces =
      some (view.adornment.getD "") := by
    rw [contentOf?, hs, Option.map_some, Html.leadingText_append, String.ofList_toList]
  rw [currencyOf?, hattrs, hcontent, suffix]
  cases view.adornment <;> rfl

theorem ofPieces_html : ofPieces (view.html extraClasses).pieces = view := by
  have hname : Attribute.lookup? "name" view.control.attributes = some view.name :=
    value?_name_control view
  have hvalue : Attribute.lookup? "value" view.control.attributes = some view.value :=
    value?_value_control view
  have herror : Attribute.occurs "aria-invalid" view.control.attributes = view.error :=
    has_invalid_control view
  have hdisabled : Attribute.occurs "disabled" view.control.attributes = view.disabled :=
    has_disabled_control view
  rw [ofPieces, attributesOf_input, contentOf?_legend_html, contentOf?_hint_html, currencyOf?_html,
    hname, hvalue, herror, hdisabled]
  rfl

theorem legible_html : (view.html extraClasses).Legible := by
  have hsuffix : view.suffix.Legible := by
    unfold suffix
    split <;> simp +decide
  exact Fieldset.legible_html
    (List.forall_mem_singleton.mpr (Input.legible_html (List.forall_mem_singleton.mpr hsuffix)))

/-- **The view of a price field can be read back from its markup**, whatever its texts are. -/
theorem ofMarkup?_markup :
    ofMarkup? (view.html extraClasses).markup = some view := by
  rw [ofMarkup?, Html.markup, String.toList_ofList,
    Html.pieces?_chars (legible_html view extraClasses), Option.map_some, ofPieces_html]

/-- Views are told apart by their markup. -/
theorem markup_html_inj (other : PriceView) :
    (view.html extraClasses).markup = (other.html extraClasses).markup ↔ view = other := by
  constructor
  · intro h
    have hread := ofMarkup?_markup view extraClasses
    rw [h, ofMarkup?_markup] at hread
    exact (Option.some.inj hread).symm
  · rintro rfl
    rfl

end PriceView

/-- Only whether there is a symbol, and which one, tells two currencies apart. -/
theorem currencyAdornment_inj {symbol other : Option String} :
    currencyAdornment symbol = currencyAdornment other ↔ symbol.getD "" = other.getD "" := by
  have hempty : ∀ symbol : Option String, currencyAdornment symbol =
      if symbol.getD "" = "" then none else some (symbol.getD "") := by
    intro symbol
    cases symbol with
    | none => rfl
    | some symbol => by_cases hs : symbol = "" <;> simp [currencyAdornment, Option.filter, hs]
  rw [hempty, hempty]
  split <;> split <;> simp_all

namespace PriceField

/-- The text in the input of a price field, empty without a price. -/
def valueText (field : PriceField) : String := (field.value.map Price.shown).getD ""

/-- **Price fields with the same extra classes have the same markup exactly when they have the same
view**, that is, when they agree in their texts, their marks and whether there are a label and a
hint; of the currency an empty symbol is no more than none. -/
theorem markup_eq_iff_view_eq {field other : PriceField} (h : field.extraClasses = other.extraClasses) :
    (field.html.markup = other.html.markup ↔ field.view = other.view) ∧
      (field.view = other.view ↔
        field.name = other.name ∧ field.label = other.label ∧ field.hint = other.hint ∧
          field.valueText = other.valueText ∧
          field.currency.getD "" = other.currency.getD "" ∧
          field.error = other.error ∧ field.disabled = other.disabled) := by
  refine ⟨?_, ?_⟩
  · rw [html, html, h, PriceView.markup_html_inj]
  · rw [view_eq, view_eq, PriceView.mk.injEq, currencyAdornment_inj]
    rfl

/-- An empty label is not taken for an absent one, nor a hint for a label, but an empty currency is
no more than none. -/
theorem markup_with_empty_texts :
    let bare : PriceField := {}
    let labelled : PriceField := { label := some "" }
    let hinted : PriceField := { hint := some "" }
    let priced : PriceField := { currency := some "" }
    labelled.html.markup ≠ bare.html.markup ∧ labelled.html.markup ≠ hinted.html.markup ∧
      priced.html.markup = bare.html.markup := by
  intro bare labelled hinted priced
  have hbare := @markup_eq_iff_view_eq labelled bare rfl
  have hhinted := @markup_eq_iff_view_eq labelled hinted rfl
  have hpriced := @markup_eq_iff_view_eq priced bare rfl
  refine ⟨?_, ?_, ?_⟩
  · rw [Ne, hbare.1, hbare.2]
    rintro ⟨-, hlabel, -⟩
    cases hlabel
  · rw [Ne, hhinted.1, hhinted.2]
    rintro ⟨-, hlabel, -⟩
    cases hlabel
  · rw [hpriced.1, hpriced.2]
    exact ⟨rfl, rfl, rfl, rfl, rfl, rfl, rfl⟩

end PriceField

end AdminPanel
