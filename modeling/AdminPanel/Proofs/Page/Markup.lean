import AdminPanel.Proofs.Page.Shown
import AdminPanel.Proofs.Widget.Markup

/-! # The markup of a page

A page is put together from elements around elements and from elements around one text. Its own
texts are not empty: those of the locales are checked one by one, a price is never shown as nothing,
and an empty currency is not shown at all. So the markup of a page can be read back, whatever its
caller has put into it. -/
namespace AdminPanel.Page
open Html (Block block_leaf block_element)

theorem text_ne_empty {path : String} (h : path ∈ Locale.askedPaths) (page : Page)
    (fallback : String) : page.text path fallback ≠ "" :=
  Locale.text_ne_empty h page.locale fallback

/-! ## The parts of the page -/

theorem block_header (page : Page) : Block page.header := by
  have htitle : Block (.element "h1" [.classes ["text-xl font-semibold"]]
      [.text (page.text "demo.title" "Products")]) :=
    block_leaf (by simp +decide) (page.text_ne_empty (by decide) _)
  have hlabels : ∀ locale ∈ Locale.all, locale.label ≠ "" := by decide
  have hpicker : Block page.picker.html := by
    refine Select.block_html ?_
    intro option hmem
    obtain ⟨locale, hl, rfl⟩ := List.mem_map.mp hmem
    exact hlabels locale hl
  exact block_element (by simp +decide) (by simp [htitle, hpicker])

theorem block_field (page : Page) : Block page.priceField.html := by
  refine PriceView.block_html ?_ ?_ (PriceView.currencyAdornment_ne_empty _) ""
  · intro he
    exact page.text_ne_empty (by decide) _ (Option.some.inj he)
  · intro he
    exact page.text_ne_empty (by decide) _ (Option.some.inj he)

theorem block_body (page : Page) : ∀ tree ∈ page.headProps.body, Block tree := by
  have hname : Block (.element "th" [] [.text (page.text "demo.name" "Name")]) :=
    block_leaf (by simp +decide) (page.text_ne_empty (by decide) _)
  have hprice : Block (.element "th" [] [.text (page.text "price_field.label" "Price")]) :=
    block_leaf (by simp +decide) (page.text_ne_empty (by decide) _)
  have hpublish : Block (.element "button" [.of "type" "button", .classes ["btn btn-sm btn-ghost"]]
      [.text (page.text "demo.publish" "Publish")]) :=
    block_leaf (by simp +decide) (page.text_ne_empty (by decide) _)
  have hdelete : Block (.element "button" [.of "type" "button", .classes ["btn btn-sm btn-error"]]
      [.text (page.text "demo.delete" "Delete")]) :=
    block_leaf (by simp +decide) (page.text_ne_empty (by decide) _)
  rw [body_headProps]
  split
  · exact List.forall_mem_cons.mpr ⟨hname, List.forall_mem_singleton.mpr hprice⟩
  · refine List.forall_mem_singleton.mpr (TableHead.block_bulkBar ?_ ?_)
    · exact Locale.label_ne_empty page.locale _
    · exact List.forall_mem_cons.mpr ⟨hpublish, List.forall_mem_singleton.mpr hdelete⟩

theorem block_row (page : Page) {product : Product} (h : product ∈ Product.all) :
    Block (page.row product) := by
  have hshown : ∀ product ∈ Product.all, product.name ≠ "" ∧ product.price.shown ≠ "" := by
    decide +kernel
  obtain ⟨hname, hprice⟩ := hshown product h
  have htext : product.priceText page.config.currencySymbol ≠ "" := by
    unfold Product.priceText
    split
    · -- Even an empty symbol leaves the blank in front of it.
      intro he
      have hc := congrArg String.toList he
      simp at hc
    · exact hprice
  have hbox : Block (.element "td" [] [(page.rowBox product).html]) :=
    block_element (by simp +decide) (List.forall_mem_singleton.mpr (Checkbox.block_html _))
  have hcell : ∀ value, value ≠ "" → Block (.element "td" [] [.text value]) :=
    fun value hv => block_leaf (by simp +decide) hv
  refine block_element (by simp +decide) ?_
  exact List.forall_mem_cons.mpr ⟨hbox, List.forall_mem_cons.mpr ⟨hcell _ hname,
    List.forall_mem_singleton.mpr (hcell _ htext)⟩⟩

theorem block_table (page : Page) : Block page.table := by
  have hbody : Block (.element "tbody" [] (Product.all.map page.row)) :=
    block_element (by simp +decide) (List.forall_mem_map.mpr fun _ => page.block_row)
  have hhead := TableHead.block_drawing page.block_body page.head.flag
  have htable : Block (.element "table" [.classes ["table"]] [_, _]) :=
    block_element (by simp +decide)
      (List.forall_mem_cons.mpr ⟨hhead, List.forall_mem_singleton.mpr hbody⟩)
  exact block_element (by simp +decide) (List.forall_mem_singleton.mpr htable)

/-! ## The whole page -/

/-- **The markup of every page parses to the page.** Nothing is asked of its configuration, its
price or its storage. -/
theorem parse?_html (page : Page) : Html.parse? page.html.markup = some [page.html] := by
  have hpage : Block page.html :=
    block_element (by simp +decide) (List.forall_mem_cons.mpr ⟨page.block_header,
      List.forall_mem_cons.mpr ⟨page.block_field, List.forall_mem_singleton.mpr page.block_table⟩⟩)
  exact Html.parse?_markup hpage.2

end AdminPanel.Page
