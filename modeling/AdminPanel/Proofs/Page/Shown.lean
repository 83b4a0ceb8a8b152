import AdminPanel.Proofs.Locale.OwnTexts
import AdminPanel.Proofs.Page.Run
import AdminPanel.Proofs.Selection.Parity
import AdminPanel.Proofs.Widget.Reading
import Mathlib.Data.List.Perm.Basic

/-! # What a page shows

A page is read off its markup: the boxes of its rows, the cells of its head, the option that is
picked, its direction and its texts. The head counts the selection and the rows ask it for their
products, so the two agree because nothing else is ever selected. All that is translated is in the
texts that the current locale has itself. `agrees_after` states this for every page of every run. -/
namespace AdminPanel

/-! ## Counting a selection -/

namespace Selection

/-- A selection among the ids of a list has as many ids as the list has selected ones. -/
theorem size_eq_countP {s : Selection} {ids : List String} (hn : ids.Nodup)
    (h : ∀ id ∈ s, id ∈ ids) : s.size = ids.countP s.contains := by
  -- Neither list repeats an id, so having the same ids they are the same up to order.
  have hp : s.ids.Perm (ids.filter s.contains) := by
    refine (List.perm_ext_iff_of_nodup s.nodup_ids (hn.filter _)).mpr ?_
    intro id
    rw [List.mem_filter, contains_iff, ← mem_iff]
    exact ⟨fun hid => ⟨h id hid, hid⟩, And.right⟩
  rw [List.countP_eq_length_filter, ← hp.length_eq]
  rfl

end Selection

namespace Page

/-! ## Reading the markup -/

def rowBoxes (markup : Html) : List Html :=
  (markup.find "tbody").flatMap fun body => body.find "input"

def checkedRows (markup : Html) : Nat := (rowBoxes markup).countP fun box => box.has "checked"

/-- The texts of each cell of the head. The first cell holds the select-all checkbox. -/
def headCells (markup : Html) : List (List String) :=
  ((markup.find "thead").flatMap fun head => head.find "th").map Html.texts

/-- The values of the options that are marked as selected. -/
def pickedValues (markup : Html) : List (Option String) :=
  ((markup.find "option").filter fun option => option.has "selected").map fun option =>
    option.value? "value"

def ShowsCells (locale : Locale) (markup : Html) : Prop :=
  ∃ name price, headCells markup = [[], [name], [price]] ∧
    locale.Says ["demo.name", "price_field.label"] [name, price]

def ShowsBar (locale : Locale) (count : Nat) (markup : Html) : Prop :=
  ∃ template label publish delete, headCells markup = [[], [label, publish, delete]] ∧
    locale.messages.text? HeaderContent.labelPath = some template ∧
    Template.FillsHole template (Nat.repr count) label ∧
    locale.Says ["demo.publish", "demo.delete"] [publish, delete]

/-- What is on a page agrees with its checked rows and is in one locale. -/
structure Agrees (locale : Locale) (markup : Html) : Prop where
  boxes : (rowBoxes markup).length = Product.all.length
  cells_iff : ShowsCells locale markup ↔ checkedRows markup = 0
  bar : checkedRows markup ≠ 0 → ShowsBar locale (checkedRows markup) markup
  picked : pickedValues markup = [some locale.code]
  direction : markup.value? "dir" = some (if locale = .arabic then "rtl" else "ltr")
  title : locale.Says ["demo.title"] (markup.textsIn "h1")
  fieldLabel : locale.Says ["price_field.label"] (markup.textsIn "legend")
  fieldHint : locale.Says ["price_field.hint"] (markup.textsIn "p")
  labels : locale.Says ["demo.locale", "table_head.select_all"] markup.labels
  /-- All other texts are the names of the locales, the currency, and the names and prices of the
  products. -/
  rest : ∃ symbol, markup.texts =
    markup.textsIn "h1" ++ Locale.all.map Locale.label ++ markup.textsIn "legend" ++
      (currencyAdornment symbol).toList ++ markup.textsIn "p" ++ (headCells markup).flatten ++
      Product.all.flatMap fun product => [product.name, product.priceText symbol]

/-! ## Rows -/

def rowBox (page : Page) (product : Product) : Checkbox :=
  { size := .small, checked := page.selection.contains product.id }

theorem find_row {tag : String} (h : tag ∉ ["tr", "td"]) (page : Page) (product : Product) :
    (page.row product).find tag = if "input" = tag then [(page.rowBox product).html] else [] := by
  simp only [List.mem_cons, List.not_mem_nil, or_false, not_or] at h
  simp [row, rowBox, Checkbox.find_html, Ne.symm h.1, Ne.symm h.2]

theorem texts_row (page : Page) (product : Product) :
    (page.row product).texts =
      [product.name, product.priceText page.config.currencySymbol] := by
  simp [row, Checkbox.texts_html]

theorem labels_row (page : Page) (product : Product) : (page.row product).labels = [] := by
  simp [row, Checkbox.labels_html]

/-! ## The head -/

theorem body_headProps (page : Page) :
    page.headProps.body =
      if page.selection.size = 0 then page.headerCells
      else [TableHead.bulkBar (page.bundle.format HeaderContent.labelPath
        HeaderContent.labelFallback [("number", Nat.repr page.selection.size)]) page.toolbar] :=
  TableHead.body_eq page.headProps

theorem find_body {tag : String} (h : tag ∉ ["th", "div", "span", "button"]) (page : Page) :
    (page.headProps.body.flatMap fun tree => tree.find tag) = [] := by
  simp only [List.mem_cons, List.not_mem_nil, or_false, not_or] at h
  obtain ⟨hc, hd, hs, hb⟩ := h
  rw [body_headProps]
  split <;> simp [headerCells, TableHead.bulkBar, toolbar, Ne.symm hc, Ne.symm hd, Ne.symm hs,
    Ne.symm hb]

/-- The texts of the cells behind the first. -/
theorem cells_body (page : Page) :
    (page.headProps.body.flatMap fun tree => tree.find "th").map Html.texts =
      if page.selection.size = 0 then
        [[page.text "demo.name" "Name"], [page.text "price_field.label" "Price"]]
      else [[page.bundle.format HeaderContent.labelPath HeaderContent.labelFallback
          [("number", Nat.repr page.selection.size)],
        page.text "demo.publish" "Publish", page.text "demo.delete" "Delete"]] := by
  rw [body_headProps]
  split <;> simp [headerCells, TableHead.bulkBar, toolbar]

theorem texts_body (page : Page) :
    page.headProps.body.flatMap Html.texts =
      ((page.headProps.body.flatMap fun tree => tree.find "th").map Html.texts).flatten := by
  rw [body_headProps]
  split <;> simp [headerCells, TableHead.bulkBar, toolbar]

theorem labels_body (page : Page) : page.headProps.body.flatMap Html.labels = [] := by
  rw [body_headProps]
  split <;> simp [headerCells, TableHead.bulkBar, toolbar]

/-! ## The parts of the page -/

theorem find_header {tag : String} (h : tag ∉ ["header", "h1", "select", "option"])
    (page : Page) : page.header.find tag = [] := by
  simp only [List.mem_cons, List.not_mem_nil, or_false, not_or] at h
  obtain ⟨hh, hi, hs, ho⟩ := h
  simp [header, Select.find_html, Ne.symm hh, Ne.symm hi, hs, ho]

theorem find_table {tag : String} (h : tag ∉ ["div", "table", "tbody", "tr", "td", "input"])
    (page : Page) :
    page.table.find tag = (TableHead.drawing page.headProps page.head.flag).find tag := by
  simp only [List.mem_cons, List.not_mem_nil, or_false, not_or] at h
  obtain ⟨hd, ht, hb, hr, hc, hi⟩ := h
  simp [table, List.flatMap_map, find_row, Ne.symm hd, Ne.symm ht, Ne.symm hb, hr, hc, Ne.symm hi]

theorem find_html {tag : String} (h : tag ≠ "main") (page : Page) :
    page.html.find tag =
      page.header.find tag ++ (page.priceField.html.find tag ++ page.table.find tag) := by
  simp [html, Ne.symm h]

theorem find_of_header {tag : String} (h : tag = "h1" ∨ tag = "option") (page : Page) :
    page.html.find tag = page.header.find tag := by
  rcases h with rfl | rfl <;>
    simp [find_html, PriceField.find_html, find_table, TableHead.find_drawing, find_body]

theorem find_of_field {tag : String} (h : tag = "legend" ∨ tag = "p") (page : Page) :
    page.html.find tag = page.priceField.html.find tag := by
  rcases h with rfl | rfl <;>
    simp [find_html, find_header, find_table, TableHead.find_drawing, find_body]

theorem find_of_table {tag : String} (h : tag = "thead" ∨ tag = "tbody") (page : Page) :
    page.html.find tag = page.table.find tag := by
  rcases h with rfl | rfl <;> simp [find_html, find_header, PriceField.find_html]

theorem textsIn_h1 (page : Page) :
    page.html.textsIn "h1" = [page.text "demo.title" "Products"] := by
  rw [Html.textsIn, find_of_header (.inl rfl)]
  simp [header, Select.find_html]

theorem find_option (page : Page) :
    page.html.find "option" =
      page.picker.options.map (Select.optionHtml (some page.locale.code)) := by
  have ho : page.picker.html.find "option" = _ := Select.find_option page.picker
  rw [find_of_header (.inr rfl), header]
  simp only [Html.find_element, List.flatMap_cons, List.flatMap_nil, Html.find_text, ho]
  rfl

theorem textsIn_legend (page : Page) :
    page.html.textsIn "legend" = [page.text "price_field.label" "Price"] := by
  rw [Html.textsIn, find_of_field (.inl rfl)]
  exact page.priceField.textsIn_legend

theorem textsIn_p (page : Page) :
    page.html.textsIn "p" = [page.text "price_field.hint" "Gross price shown to customers"] := by
  rw [Html.textsIn, find_of_field (.inr rfl)]
  exact page.priceField.textsIn_p

theorem find_thead (page : Page) :
    page.html.find "thead" = [TableHead.drawing page.headProps page.head.flag] := by
  have hb := find_body (by simp : "thead" ∉ ["th", "div", "span", "button"]) page
  rw [find_of_table (.inl rfl), find_table (by simp), TableHead.find_thead hb]

theorem find_tbody (page : Page) :
    page.html.find "tbody" = [.element "tbody" [] (Product.all.map page.row)] := by
  rw [find_of_table (.inr rfl)]
  simp [table, TableHead.find_drawing, find_body, List.flatMap_map, find_row]

theorem rowBoxes_html (page : Page) :
    rowBoxes page.html = Product.all.map fun product => (page.rowBox product).html := by
  have hr : ∀ product, (page.row product).find "input" = [(page.rowBox product).html] :=
    fun product => find_row (by decide) page product
  rw [rowBoxes, find_tbody, List.flatMap_singleton, Html.find_element, if_neg (by decide),
    List.nil_append, List.flatMap_map]
  simp only [hr, ← List.map_eq_flatMap]

theorem headCells_html (page : Page) :
    headCells page.html = [] ::
      if page.selection.size = 0 then
        [[page.text "demo.name" "Name"], [page.text "price_field.label" "Price"]]
      else [[page.bundle.format HeaderContent.labelPath HeaderContent.labelFallback
          [("number", Nat.repr page.selection.size)],
        page.text "demo.publish" "Publish", page.text "demo.delete" "Delete"]] := by
  rw [headCells, find_thead, List.flatMap_singleton, TableHead.find_th, cells_body]

theorem texts_header (page : Page) :
    page.header.texts = page.text "demo.title" "Products" :: Locale.all.map Locale.label := by
  have ho : page.picker.options.map SelectOption.label = Locale.all.map Locale.label := by
    rw [picker, List.map_map]
    rfl
  simp [header, Select.texts_html, ho]

theorem texts_field (page : Page) :
    page.priceField.html.texts = page.text "price_field.label" "Price" ::
      ((currencyAdornment page.config.currencySymbol).toList ++
        [page.text "price_field.hint" "Gross price shown to customers"]) :=
  page.priceField.texts_html

theorem texts_table (page : Page) :
    page.table.texts = (headCells page.html).flatten ++
      Product.all.flatMap fun product =>
        [product.name, product.priceText page.config.currencySymbol] := by
  rw [headCells_html, ← cells_body, List.flatten_cons, ← texts_body]
  simp [table, TableHead.texts_drawing, texts_row, List.flatMap_map]

theorem texts_html (page : Page) :
    page.html.texts =
      page.html.textsIn "h1" ++ Locale.all.map Locale.label ++ page.html.textsIn "legend" ++
        (currencyAdornment page.config.currencySymbol).toList ++ page.html.textsIn "p" ++
        (headCells page.html).flatten ++
        Product.all.flatMap fun product =>
          [product.name, product.priceText page.config.currencySymbol] := by
  rw [textsIn_h1, textsIn_legend, textsIn_p, html, Html.texts_element, ← html]
  simp [texts_header, texts_field, texts_table]

theorem labels_html (page : Page) :
    page.html.labels = [page.text "demo.locale" "Language",
      page.text "table_head.select_all" "Select all rows"] := by
  have hh : page.header.labels = [page.text "demo.locale" "Language"] := by
    simp [header, Select.labels_html, picker]
  have ht : page.table.labels = [page.text "table_head.select_all" "Select all rows"] := by
    simp [table, TableHead.labels_drawing, labels_body, labels_row, List.flatMap_map]
    rfl
  simp [html, PriceField.labels_html, hh, ht]

/-! ## Agreement -/

theorem says_nil (page : Page) : page.locale.Says [] [] := rfl

/-- What the page writes for a path is the locale's own text. -/
theorem says_cons {path : String} (h : path ∈ Locale.askedPaths) {page : Page} (fallback : String)
    {paths texts : List String} (hs : page.locale.Says paths texts) :
    page.locale.Says (path :: paths) (page.text path fallback :: texts) := by
  have ht : page.locale.messages.text? path = some (page.text path fallback) :=
    Locale.text?_eq_some h page.locale fallback
  rw [Locale.Says, List.map_cons, List.map_cons, ht, hs]

/-- The head counts the rows that are drawn as checked. -/
theorem checkedRows_html {page : Page} (h : page.Listed) :
    checkedRows page.html = page.selection.size := by
  have hn : (Product.all.map Product.id).Nodup := by decide
  rw [Selection.size_eq_countP hn h, checkedRows, rowBoxes_html, List.countP_map, List.countP_map]
  congr 1
  funext product
  exact Checkbox.has_checked (page.rowBox product)

theorem pickedValues_html (page : Page) : pickedValues page.html = [some page.locale.code] := by
  have hs : ((fun option => option.has "selected") ∘ Select.optionHtml (some page.locale.code)) =
      fun option => decide (some page.locale.code = some option.value) :=
    funext (Select.has_selected _)
  rw [pickedValues, find_option, List.filter_map, hs, picker]
  generalize page.locale = locale
  cases locale <;> rfl

theorem direction_html (page : Page) :
    page.html.value? "dir" = some (if page.locale = .arabic then "rtl" else "ltr") := by
  -- Each locale brings its direction along in its texts.
  have hd : page.direction = if page.locale = .arabic then "rtl" else "ltr" := by
    rw [direction, bundle]
    cases page.locale <;> rfl
  rw [← hd]
  rfl

theorem showsCells_iff {page : Page} (h : page.Listed) :
    ShowsCells page.locale page.html ↔ checkedRows page.html = 0 := by
  have hcells := headCells_html page
  rw [checkedRows_html h]
  constructor
  · rintro ⟨name, price, hshown, -⟩
    by_contra hne
    rw [hcells, if_neg hne] at hshown
    cases hshown
  · intro hzero
    rw [if_pos hzero] at hcells
    exact ⟨_, _, hcells, says_cons (by decide) _ (says_cons (by decide) _ (says_nil page))⟩

theorem showsBar_of_ne {page : Page} (h : page.Listed) (hne : checkedRows page.html ≠ 0) :
    ShowsBar page.locale (checkedRows page.html) page.html := by
  have hcells := headCells_html page
  obtain ⟨template, ht, hf⟩ := page.locale.label_fillsHole page.selection.size
  rw [checkedRows_html h] at hne ⊢
  rw [if_neg hne] at hcells
  exact ⟨template, _, _, _, hcells, ht, hf,
    says_cons (by decide) _ (says_cons (by decide) _ (says_nil page))⟩

theorem agrees_html {page : Page} (h : page.Listed) : Agrees page.locale page.html where
  boxes := by rw [rowBoxes_html, List.length_map]
  cells_iff := showsCells_iff h
  bar := showsBar_of_ne h
  picked := pickedValues_html page
  direction := direction_html page
  title := by
    rw [textsIn_h1]
    exact says_cons (by decide) _ (says_nil page)
  fieldLabel := by
    rw [textsIn_legend]
    exact says_cons (by decide) _ (says_nil page)
  fieldHint := by
    rw [textsIn_p]
    exact says_cons (by decide) _ (says_nil page)
  labels := by
    rw [labels_html]
    exact says_cons (by decide) _ (says_cons (by decide) _ (says_nil page))
  rest := ⟨page.config.currencySymbol, texts_html page⟩

/-- **Every page of every run agrees with its checked rows and is in one locale:** the last one that
was picked, or the one that the page started in. -/
theorem agrees_after (env : Environment) (actions : List Action) :
    Agrees ((lastPick? actions).getD (start env).1.locale) ((start env).1.after actions).html := by
  rw [← locale_after]
  exact agrees_html (listed_after (listed_start env) actions)

/-- Two rows are checked, and the bar counts them in the language that was picked in between. -/
example :
    let page := (start {}).1.after
      [.toggleRow ⟨0, by decide⟩, .pickLocale (some "de"), .toggleRow ⟨2, by decide⟩]
    checkedRows page.html = 2 ∧
      headCells page.html = [[], ["2 Einträge ausgewählt", "Veröffentlichen", "Löschen"]] := by
  decide +kernel

end Page

end AdminPanel
