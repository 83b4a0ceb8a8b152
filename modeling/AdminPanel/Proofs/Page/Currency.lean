import AdminPanel.Html.Render
import AdminPanel.Page.Step
import AdminPanel.Proofs.Config.Format

/-! # The currency on the page

No action reads the currency: pages that differ in it alone go through every run side by side, with
the same replies and the same storage. Drawing reads it in two places. The price field drops a
symbol without a character; a price cell puts a blank and the symbol behind its price whatever the
symbol is. So removing the symbol from a document changes the page exactly when the document gives
one, and an empty symbol still leaves a blank behind the price in every row.
`markup_eq_without_currency_iff` states this for every run. -/
namespace AdminPanel

/-! ## Documents without a currency -/

/-- The value with nothing about the currency: an object loses the member, an array has null in its
place. -/
def Json.withoutCurrency : Json → Json
  | .object members => .object (members.filter fun member => member.1 ≠ "currency_symbol")
  | .array elements => .array (elements.set 2 .null)
  | value => value

namespace Config

def withCurrency (config : Config) (symbol : Option String) : Config :=
  { config with currencySymbol := symbol }

theorem Denotes.withoutCurrency {value : Json} {document : Document} (h : Denotes value document) :
    Denotes value.withoutCurrency { document with currencySymbol := none } := by
  cases h with
  | object hd hk hl hn _ hs =>
    refine .object ?_ ?_ ?_ ?_ ⟨?_, ?_⟩ ?_
    · exact hd.sublist (List.filter_sublist.map Prod.fst)
    · intro member hm
      exact hk member (List.mem_filter.mp hm).1
    · simpa using hl
    · simpa using hn
    · simp
    · simp
    · simpa using hs
  | @array elements _ hs hl hn _ hf =>
    refine .array ?_ ?_ ?_ ⟨?_, ?_⟩ ?_
    · rw [List.length_set]
      exact hs
    · simpa using hl
    · simpa using hn
    · intro value hv
      rw [List.getElem?_set_self'] at hv
      obtain ⟨_, _, rfl⟩ := Option.map_eq_some_iff.mp hv
      exact .inl rfl
    · intro s
      rw [List.getElem?_set_self']
      simp
    · simpa using hf

/-- Without what it says about the currency, an accepted document is accepted too, and nothing else
in its configuration changes. -/
theorem ofText_withoutCurrency {raw bare : String} {value : Json} {config : Config}
    (hr : Json.Writes raw value) (hb : Json.Writes bare value.withoutCurrency)
    (h : ofText raw = .ok config) : ofText bare = .ok (config.withCurrency none) := by
  have ho := outcome_ofText raw
  rw [h] at ho
  cases ho with
  | accepted hw ht hn =>
    obtain ⟨written, hv, hd⟩ := hw
    obtain rfl := hv.unique hr
    have hbare : Outcome bare (.ok _) := .accepted ⟨_, hb, hd.withoutCurrency⟩ ht hn
    exact (outcome_ofText bare).unique hbare

end Config

namespace Page

/-! ## Runs -/

def withCurrency (page : Page) (symbol : Option String) : Page :=
  { page with config := page.config.withCurrency symbol }

/-- The surroundings of a host page that gives this text as its configuration. -/
def configured (env : Environment) (raw : String) : Environment :=
  { env with configElement := some (some raw) }

theorem start_withoutCurrency {raw bare : String} {config : Config} (env : Environment)
    (hr : Config.ofText raw = .ok config)
    (hb : Config.ofText bare = .ok (config.withCurrency none)) :
    start (configured env bare) =
      ((start (configured env raw)).1.withCurrency none, (start (configured env raw)).2) := by
  simp only [start, Environment.loadConfig, configured, Option.getD_some, hr, hb]
  rfl

theorem pickTag_withCurrency (page : Page) (symbol : Option String) (tag : String) :
    (page.withCurrency symbol).pickTag tag =
      ((page.pickTag tag).1.withCurrency symbol, (page.pickTag tag).2) := by
  unfold pickTag
  cases Locale.ofTag? tag with
  | none => rfl
  | some locale =>
    unfold persistLocale
    cases hw : page.writeError with
    | none => simp only [withCurrency, hw]; rfl
    | some detail => simp only [withCurrency, hw]; rfl

/-- An action moves two pages that differ in their currency alone to two such pages, with one
reply. -/
theorem step_withCurrency (page : Page) (symbol : Option String) (action : Action) :
    (page.withCurrency symbol).step action =
      ((page.step action).1.withCurrency symbol, (page.step action).2) := by
  have hbar : (page.withCurrency symbol).showsBulkBar = page.showsBulkBar := rfl
  cases action with
  | pickLocale target =>
    cases target with
    | none => rfl
    | some tag =>
      have ht := pickTag_withCurrency page symbol tag
      simp only [step, pickLocale, ht]
  | typePrice target => cases target <;> rfl
  | selectAll => rfl
  | toggleRow row => rfl
  | publish =>
    simp only [step, publish, hbar]
    cases page.showsBulkBar <;> rfl
  | delete =>
    simp only [step, delete, hbar]
    cases page.showsBulkBar <;> rfl
  | clickTable => rfl

theorem run_withCurrency (page : Page) (symbol : Option String) (actions : List Action) :
    (page.withCurrency symbol).run actions =
      (page.run actions).map fun entry => (entry.1.withCurrency symbol, entry.2) := by
  induction actions generalizing page with
  | nil => rfl
  | cons action actions ih => simp only [run, step_withCurrency, ih, List.map_cons]

theorem after_withCurrency (page : Page) (symbol : Option String) (actions : List Action) :
    (page.withCurrency symbol).after actions = (page.after actions).withCurrency symbol := by
  induction actions generalizing page with
  | nil => rfl
  | cons action actions ih =>
    have hs := step_withCurrency page symbol action
    simp only [after, List.foldl_cons, hs] at ih ⊢
    exact ih _

/-- A page keeps its currency, since putting it there changes nothing. -/
theorem currency_after (page : Page) (actions : List Action) :
    (page.after actions).config.currencySymbol = page.config.currencySymbol := by
  have h := after_withCurrency page page.config.currencySymbol actions
  exact congrArg (fun page => page.config.currencySymbol) h

/-! ## Drawing -/

def rowShowing (page : Page) (product : Product) (shown : String) : Html :=
  let box : Checkbox := { size := .small, checked := page.selection.contains product.id }
  .element "tr" [] [
    .element "td" [] [box.html],
    .element "td" [] [.text product.name],
    .element "td" [] [.text shown]]

/-- A symbol makes the row of every product longer, by the blank at least. -/
theorem length_row_lt (page : Page) {symbol : String}
    (h : page.config.currencySymbol = some symbol) (product : Product) :
    ((page.withCurrency none).row product).chars.length < (page.row product).chars.length := by
  have hs : 0 < (Html.textChars " ").length := by decide
  simp only [row, withCurrency, Config.withCurrency, h, Product.priceText, Html.chars,
    Html.textChars_append, Html.charsOfAll_cons, List.length_append]
  omega

theorem length_suffix_le (view : PriceView) :
    { view with adornment := none : PriceView }.suffix.chars.length ≤ view.suffix.chars.length := by
  unfold PriceView.suffix
  cases view.adornment with
  | none => exact Nat.le_refl _
  | some symbol =>
    simp only [Html.chars, Html.openingChars, Html.charsOfAll_nil, List.flatMap_nil,
      List.length_append, List.length_cons, List.length_nil]
    omega

/-- The markup around the suffix of a price field does not depend on it. -/
theorem length_fieldHtml_le (view : PriceView) (extraClasses : String) :
    ({ view with adornment := none : PriceView }.html extraClasses).chars.length ≤
      (view.html extraClasses).chars.length := by
  have hs := length_suffix_le view
  simp only [PriceView.html, Fieldset.html, Fieldset.legendHtml, Fieldset.hintHtml,
    Fieldset.classes, Input.html, Input.control, Input.classes, Input.invalidMark, Html.chars,
    Html.charsOfAll_append, Html.charsOfAll_cons, Html.charsOfAll_nil, List.length_append,
    List.length_nil]
  omega

theorem length_rows_lt {page : Page} {symbol : String}
    (h : page.config.currencySymbol = some symbol) (products : List Product) (hp : products ≠ []) :
    (Html.charsOfAll (products.map (page.withCurrency none).row)).length <
      (Html.charsOfAll (products.map page.row)).length := by
  induction products with
  | nil => exact absurd rfl hp
  | cons product products ih =>
    have hr := length_row_lt page h product
    simp only [List.map_cons, Html.charsOfAll_cons, List.length_append]
    cases products with
    | nil => simpa using hr
    | cons next products =>
      have := ih (List.cons_ne_nil _ _)
      omega

theorem length_html_lt {page : Page} {symbol : String}
    (h : page.config.currencySymbol = some symbol) :
    (page.withCurrency none).html.chars.length < page.html.chars.length := by
  have hf : (page.withCurrency none).priceField.html.chars.length ≤
      page.priceField.html.chars.length := length_fieldHtml_le page.priceField.view ""
  have hr := length_rows_lt h Product.all (List.cons_ne_nil _ _)
  have hh : (page.withCurrency none).header = page.header := rfl
  have hd : TableHead.drawing (page.withCurrency none).headProps
      (page.withCurrency none).head.flag = TableHead.drawing page.headProps page.head.flag := rfl
  have hw : (page.withCurrency none).mode = page.mode := rfl
  have hx : (page.withCurrency none).direction = page.direction := rfl
  simp only [html, table, Html.chars, Html.charsOfAll_cons, Html.charsOfAll_nil, hh, hd, hw, hx,
    List.length_append, List.length_nil]
  omega

theorem markup_withoutCurrency_iff (page : Page) :
    (page.withCurrency none).html.markup = page.html.markup ↔
      page.config.currencySymbol = none := by
  constructor
  · intro hm
    cases hs : page.config.currencySymbol with
    | none => rfl
    | some symbol =>
      have hl := length_html_lt hs
      rw [String.ofList_injective hm] at hl
      exact absurd hl (Nat.lt_irrefl _)
  · intro hs
    have hp : page.withCurrency page.config.currencySymbol = page := rfl
    rw [hs] at hp
    rw [hp]

/-- A page that shows what another one shows, but for a blank behind the price in every row. -/
structure AddsBlanks (page bare : Page) : Prop where
  mode : page.mode = bare.mode
  direction : page.direction = bare.direction
  header : page.header = bare.header
  field : page.priceField.html = bare.priceField.html
  head : TableHead.drawing page.headProps page.head.flag =
    TableHead.drawing bare.headProps bare.head.flag
  bareRow : ∀ product, bare.row product = bare.rowShowing product product.price.shown
  row : ∀ product, page.row product = bare.rowShowing product (product.price.shown ++ " ")

theorem addsBlanks_of_empty_symbol {page : Page} (h : page.config.currencySymbol = some "") :
    AddsBlanks page (page.withCurrency none) where
  mode := rfl
  direction := rfl
  header := rfl
  field := by
    have hc : currencyAdornment (some "") = currencyAdornment none := rfl
    simp only [priceField, PriceField.html, PriceField.view, PriceView.setAll, List.foldl_cons,
      List.foldl_nil, PriceView.set, withCurrency, Config.withCurrency, h, hc]
    rfl
  head := rfl
  bareRow := fun _ => rfl
  row := by
    intro product
    simp only [row, h, Product.priceText, String.append_empty]
    rfl

/-! ## The two documents side by side -/

/-- **Removing the symbol from a document changes the page exactly when there is one.** The two
pages go through every run with the same replies and the same storage. An empty symbol is dropped by
the price field and not by the rows, so every page of the run has a blank too many in each. -/
theorem markup_eq_without_currency_iff {raw bare : String} {value : Json} {config : Config}
    (hr : Json.Writes raw value) (hb : Json.Writes bare value.withoutCurrency)
    (hc : Config.ofText raw = .ok config) (env : Environment) (actions : List Action) :
    let given := start (configured env raw)
    let removed := start (configured env bare)
    removed.2 = given.2 ∧
    (removed.1.run actions).map Prod.snd = (given.1.run actions).map Prod.snd ∧
    (removed.1.after actions).storage = (given.1.after actions).storage ∧
    ((removed.1.after actions).html.markup = (given.1.after actions).html.markup ↔
      config.currencySymbol = none) ∧
    (config.currencySymbol = some "" →
      AddsBlanks (given.1.after actions) (removed.1.after actions)) := by
  intro given removed
  have hstart : removed = (given.1.withCurrency none, given.2) :=
    start_withoutCurrency env hc (Config.ofText_withoutCurrency hr hb hc)
  have hafter : removed.1.after actions = (given.1.after actions).withCurrency none := by
    rw [hstart, after_withCurrency]
  have hsymbol : (given.1.after actions).config.currencySymbol = config.currencySymbol := by
    rw [currency_after]
    simp only [given, start, Environment.loadConfig, configured, Option.getD_some, hc]
    rfl
  refine ⟨by rw [hstart], ?_, by rw [hafter]; rfl, ?_, ?_⟩
  · rw [hstart, run_withCurrency, List.map_map]
    rfl
  · rw [hafter, markup_withoutCurrency_iff, hsymbol]
  · intro he
    rw [hafter]
    exact addsBlanks_of_empty_symbol (hsymbol.trans he)

def emptySymbol : String := "\x7b\"currency_symbol\":\"\"\x7d"

def noMembers : String := "\x7b\x7d"

theorem writes_emptySymbol :
    Json.Writes emptySymbol (.object [("currency_symbol", .string "")]) :=
  Json.Spells.next .openBrace <| .next (Json.tokenSpelling_quoted "currency_symbol") <|
    .next .colon <| .next (Json.tokenSpelling_quoted "") <| .next .closeBrace .done

theorem writes_noMembers :
    Json.Writes noMembers (Json.object [("currency_symbol", .string "")]).withoutCurrency := by
  have hv : (Json.object [("currency_symbol", .string "")]).withoutCurrency = .object [] := by
    simp [Json.withoutCurrency]
  rw [hv]
  exact Json.Spells.next .openBrace <| .next .closeBrace .done

theorem ofText_emptySymbol :
    Config.ofText emptySymbol = .ok (Config.default.withCurrency (some "")) := by
  rw [Config.ofText, Json.ofText?_eq_some_iff.mpr writes_emptySymbol]
  rfl

/-- An empty symbol shows on the page after all rows are selected and deleted in another locale. -/
theorem markup_ne_with_empty_symbol :
    let actions : List Action := [.selectAll, .pickLocale (some "ar"), .delete]
    ((start (configured {} noMembers)).1.after actions).html.markup ≠
      ((start (configured {} emptySymbol)).1.after actions).html.markup := by
  intro actions
  have h := markup_eq_without_currency_iff writes_emptySymbol writes_noMembers ofText_emptySymbol {}
    actions
  intro he
  have hn := h.2.2.2.1.mp he
  cases hn

theorem not_always_same_page_without_empty_symbol :
    ¬ ∀ (raw bare : String) (value : Json) (config : Config) (env : Environment)
      (actions : List Action), Json.Writes raw value → Json.Writes bare value.withoutCurrency →
        Config.ofText raw = .ok config → config.currencySymbol = some "" →
          ((start (configured env bare)).1.after actions).html.markup =
            ((start (configured env raw)).1.after actions).html.markup := by
  intro h
  have hs := h _ _ _ _ {} [] writes_emptySymbol writes_noMembers ofText_emptySymbol rfl
  have hstart := start_withoutCurrency {} ofText_emptySymbol
    (Config.ofText_withoutCurrency writes_emptySymbol writes_noMembers ofText_emptySymbol)
  rw [hstart, after_withCurrency, markup_withoutCurrency_iff, currency_after] at hs
  simp [start, Environment.loadConfig, configured, ofText_emptySymbol, unsettled,
    Config.withCurrency] at hs

end Page

end AdminPanel
