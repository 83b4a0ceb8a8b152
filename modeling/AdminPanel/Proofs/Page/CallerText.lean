import AdminPanel.Proofs.Page.Currency
import AdminPanel.Proofs.Page.Frame
import AdminPanel.Proofs.Page.Markup

/-! # Texts of the caller

A document brings two texts of its own to a page, a name and a currency symbol, and an input brings
a third. Two runs that differ in nothing but these stay alike: their pages differ in the name, the
symbol and the price, and so have the same tags. The markup of either page parses to the page
itself, so whatever the texts are made of, each is found whole in its places and nowhere else does
the page notice it (`outline_eq_of_reworded`). -/
namespace AdminPanel

/-! ## Documents that differ in their texts -/

namespace Config

/-- The same text or none in both, or two texts with a property. -/
def Reworded (p : String → Prop) (a b : Option String) : Prop :=
  a = b ∨ ∃ s t, a = some s ∧ b = some t ∧ p s ∧ p t

/-- Two documents that are the same but for a name that is not blank and a symbol that is not
empty. -/
structure Document.SameButTexts (a b : Document) : Prop where
  locale : a.locale = b.locale
  name : Reworded (fun name => ∃ c ∈ name.toList, Text.isBlank c = false) a.priceFieldName
    b.priceFieldName
  symbol : Reworded (fun symbol => symbol ≠ "") a.currencySymbol b.currencySymbol
  sync : a.syncSelectAll = b.syncSelectAll

theorem isSome_adornment_of_reworded {a b : Option String}
    (h : Reworded (fun symbol => symbol ≠ "") a b) :
    (currencyAdornment a).isSome = (currencyAdornment b).isSome := by
  rcases h with rfl | ⟨s, t, rfl, rfl, hs, ht⟩
  · rfl
  · have hkept : ∀ symbol, symbol ≠ "" → (currencyAdornment (some symbol)).isSome = true := by
      intro symbol hne
      simp [currencyAdornment, Option.filter, hne]
    rw [hkept s hs, hkept t ht]

/-- What an accepted document becomes. -/
theorem resolved_of_written {text : String} {document : Document} {config : Config}
    (hw : Written text document) (h : ofText text = .ok config) :
    config.locale = document.locale.bind Locale.ofTag? ∧
      NameOf document.priceFieldName config.priceFieldName ∧
      config.currencySymbol = document.currencySymbol ∧
      config.syncSelectAll = document.syncSelectAll := by
  have ho := outcome_ofText text
  rw [h] at ho
  cases ho with
  | accepted hw' _ hn =>
    obtain rfl := hw.unique hw'
    exact ⟨rfl, hn, rfl, rfl⟩

end Config

namespace Page

/-! ## Runs that are alike -/

/-- Two pages that differ in the texts of their callers only. -/
structure Alike (page other : Page) : Prop where
  mode : page.mode = other.mode
  locale : page.locale = other.locale
  selection : page.selection = other.selection
  head : page.head = other.head
  sync : page.config.syncSelectAll = other.config.syncSelectAll
  currency : (currencyAdornment page.config.currencySymbol).isSome =
    (currencyAdornment other.config.currencySymbol).isSome

/-- Actions of one kind, which differ in the text that is typed if at all. -/
inductive Action.Alike : Action → Action → Prop
  | same (action : Action) : Alike action action
  | typed (a b : String) : Alike (.typePrice (some a)) (.typePrice (some b))

variable {page other : Page}

theorem Alike.withTable (h : Alike page other) (table : Page) :
    Alike (page.withTable table) (other.withTable table) :=
  ⟨h.mode, h.locale, rfl, rfl, h.sync, h.currency⟩

theorem Alike.drawn (h : Alike page other) : Alike page.drawn other.drawn := by
  have hcount : page.headProps.selected = other.headProps.selected :=
    congrArg Selection.size h.selection
  have hhead : page.drawn.head = other.drawn.head := by
    show page.head.draw page.headProps = other.head.draw other.headProps
    rw [h.head, draw_congr hcount h.sync]
  exact ⟨h.mode, h.locale, h.selection, hhead, h.sync, h.currency⟩

theorem withTable_of_alike (h : Alike page other) : other.withTable page = other := by
  rw [Page.withTable, h.selection, h.head]

theorem alike_typed (h : Alike page other) (typed otherTyped : String) :
    Alike (page.step (.typePrice (some typed))).1 (other.step (.typePrice (some otherTyped))).1 :=
  Alike.drawn ⟨h.mode, h.locale, h.selection, h.head, h.sync, h.currency⟩

/-- An action reads nothing in which the two pages differ. -/
theorem alike_step_same (h : Alike page other) (action : Action) :
    Alike (page.step action).1 (other.step action).1 := by
  cases hl : action.locale? with
  | some locale =>
    obtain ⟨_, hp⟩ := persistLocale_eq page locale
    obtain ⟨_, ho⟩ := persistLocale_eq other locale
    rw [step_of_locale hl, step_of_locale hl, hp, ho]
    exact Alike.drawn ⟨h.mode, rfl, h.selection, h.head, h.sync, h.currency⟩
  | none =>
    cases ht : action.typed? with
    | some typed =>
      rw [Action.eq_typePrice ht]
      exact alike_typed h typed typed
    | none =>
      -- The tables are the same, so the other page gets the table that this one gets.
      have hother : (other.step action).1 = other.withTable (page.step action).1 := by
        have hstep := step_withTable h.sync.symm hl ht
        rw [withTable_of_alike h] at hstep
        exact congrArg Prod.fst hstep
      rw [hother, step_eq_withTable page hl ht]
      exact h.withTable _

theorem alike_step (h : Alike page other) {action otherAction : Action}
    (ha : action.Alike otherAction) : Alike (page.step action).1 (other.step otherAction).1 := by
  cases ha with
  | same action => exact alike_step_same h action
  | typed a b => exact alike_typed h a b

theorem alike_after (h : Alike page other) {actions others : List Action}
    (ha : List.Forall₂ Action.Alike actions others) :
    Alike (page.after actions) (other.after others) := by
  induction ha generalizing page other with
  | nil => exact h
  | cons hfirst _ ih => exact ih (alike_step h hfirst)

/-! ## The tags of a page -/

theorem outline_row (h : Alike page other) (product : Product) :
    (page.row product).outline = (other.row product).outline := by
  simp [row, h.selection]

theorem text_congr (h : page.locale = other.locale) (path fallback : String) :
    page.text path fallback = other.text path fallback := by
  rw [text, text, bundle, bundle, h]

theorem header_congr (h : page.locale = other.locale) : page.header = other.header := by
  simp only [header, picker, text, bundle, h]

theorem headProps_congr (h : Alike page other) : page.headProps = other.headProps := by
  simp only [headProps, headerCells, toolbar, text, bundle, h.locale, h.selection, h.sync]

theorem outline_field (h : Alike page other) :
    page.priceField.html.outline = other.priceField.html.outline := by
  have hlabel : page.priceField.view.label = other.priceField.view.label := by
    show some (page.text "price_field.label" _) = some (other.text "price_field.label" _)
    rw [text_congr h.locale]
  have hhint : page.priceField.view.hint = other.priceField.view.hint := by
    show some (page.text "price_field.hint" _) = some (other.text "price_field.hint" _)
    rw [text_congr h.locale]
  exact PriceView.outline_html hlabel hhint rfl rfl h.currency ""

/-- Pages that are alike have the same tags. -/
theorem outline_html (h : Alike page other) : page.html.outline = other.html.outline := by
  have hfield : page.priceField.html.outline = other.priceField.html.outline := outline_field h
  have hrows : (Product.all.map page.row).flatMap Html.outline =
      (Product.all.map other.row).flatMap Html.outline := by
    rw [List.flatMap_map, List.flatMap_map]
    exact List.flatMap_congr fun product _ => outline_row h product
  have htable : page.table.outline = other.table.outline := by
    simp only [table, Html.outline_element, List.flatMap_cons, hrows, headProps_congr h, h.head]
  have hdirection : page.direction = other.direction := by
    rw [direction, direction, bundle, bundle, h.locale]
  simp only [html, Html.outline_element, List.flatMap_cons, hfield, htable, header_congr h.locale,
    hdirection, h.mode]

/-! ## Where the texts are found -/

def priceInputs (markup : Html) : List Html :=
  (markup.find "fieldset").flatMap fun fields => fields.find "input"

def currencySpans (markup : Html) : List String :=
  (markup.find "fieldset").flatMap fun fields => fields.textsIn "span"

/-- The texts of each cell of each row. The first cell of a row holds its checkbox. -/
def rowCells (markup : Html) : List (List (List String)) :=
  ((markup.find "tbody").flatMap fun body => body.find "tr").map fun row =>
    (row.find "td").map Html.texts

/-- The texts of a document and the text that was typed last are in their places, each as it is. -/
structure Carries (document : Config.Document) (typed? : Option String) (markup : Html) : Prop where
  name : ∀ name, Config.NameOf document.priceFieldName name →
    (priceInputs markup).map (fun input => input.value? "name") = [some name]
  value : (priceInputs markup).map (fun input => input.value? "value") =
    [some (typed?.getD "12.50")]
  symbol : ∀ symbol, document.currencySymbol = some symbol → symbol ≠ "" →
    currencySpans markup = [symbol]
  cells : ∀ symbol, document.currencySymbol = some symbol → symbol ≠ "" →
    rowCells markup = Product.all.map fun product =>
      [[], [product.name], [product.price.shown ++ " " ++ symbol]]

theorem find_fieldset (page : Page) : page.html.find "fieldset" = [page.priceField.html] := by
  have hheader : page.header.find "fieldset" = [] := find_header (by decide) page
  have htable : page.table.find "fieldset" = [] := by
    rw [find_table (by decide), TableHead.find_drawing (by decide), find_body (by decide)]
  have hfield : page.priceField.html.find "fieldset" = [page.priceField.html] :=
    PriceView.find_fieldset page.priceField.view ""
  rw [find_html (by decide), hheader, htable, hfield]
  rfl

theorem priceInputs_html (page : Page) :
    priceInputs page.html = [page.priceField.view.control] := by
  have hinput : page.priceField.html.find "input" = [page.priceField.view.control] :=
    PriceView.find_input page.priceField.view ""
  rw [priceInputs, find_fieldset, List.flatMap_singleton, hinput]

theorem currencySpans_html (page : Page) :
    currencySpans page.html = (currencyAdornment page.config.currencySymbol).toList := by
  have hspan : page.priceField.html.textsIn "span" = _ :=
    PriceView.textsIn_span page.priceField.view ""
  rw [currencySpans, find_fieldset, List.flatMap_singleton, hspan]
  rfl

theorem rowCells_html (page : Page) :
    rowCells page.html = Product.all.map fun product =>
      [[], [product.name], [product.priceText page.config.currencySymbol]] := by
  have hrow : ∀ product, (page.row product).find "tr" = [page.row product] := by
    intro product
    simp [row, Checkbox.find_html]
  have hcells : ∀ product, ((page.row product).find "td").map Html.texts =
      [[], [product.name], [product.priceText page.config.currencySymbol]] := by
    intro product
    simp [row, Checkbox.find_html, Checkbox.texts_html]
  rw [rowCells, find_tbody, List.flatMap_singleton, Html.find_element, if_neg (by decide),
    List.nil_append, List.flatMap_map]
  simp only [hrow, ← List.map_eq_flatMap, List.map_map]
  exact List.map_congr_left fun product _ => hcells product

/-- A page carries the texts of the configuration that it has and the price that it has. -/
theorem carries_html {document : Config.Document} {typed? : Option String} {page : Page}
    (hn : Config.NameOf document.priceFieldName page.config.priceFieldName)
    (hc : page.config.currencySymbol = document.currencySymbol)
    (hp : page.price = (typed?.map Price.text).getD startPrice) :
    Carries document typed? page.html where
  name := by
    intro name hname
    rw [priceInputs_html, List.map_singleton, PriceView.value?_name_control, hname.unique hn]
    rfl
  value := by
    have hshown : page.price.shown = typed?.getD "12.50" := by
      rw [hp]
      cases typed? <;> rfl
    rw [priceInputs_html, List.map_singleton, PriceView.value?_value_control, ← hshown]
    rfl
  symbol := by
    intro symbol hs hne
    rw [currencySpans_html, hc, hs]
    simp [currencyAdornment, Option.filter, hne]
  cells := by
    intro symbol hs hne
    rw [rowCells_html, hc, hs]
    rfl

/-! ## The two runs side by side -/

theorem start_of_ok (env : Environment) {raw : String} {config : Config}
    (h : Config.ofText raw = .ok config) :
    (start (configured env raw)).1 =
      { unsettled env (some config) with
        head := .mount (unsettled env (some config)).headProps } := by
  simp only [start, Environment.loadConfig, configured, Option.getD_some, h]
  rfl

theorem alike_start (env : Environment) {raw otherRaw : String} {config otherConfig : Config}
    (h : Config.ofText raw = .ok config) (ho : Config.ofText otherRaw = .ok otherConfig)
    (hl : config.locale = otherConfig.locale)
    (hs : config.syncSelectAll = otherConfig.syncSelectAll)
    (hc : (currencyAdornment config.currencySymbol).isSome =
      (currencyAdornment otherConfig.currencySymbol).isSome) :
    Alike (start (configured env raw)).1 (start (configured env otherRaw)).1 := by
  have hsync : (unsettled env (some config)).headProps.syncWithSelection =
      (unsettled env (some otherConfig)).headProps.syncWithSelection := hs
  have hlocale : env.startLocale (some config) = env.startLocale (some otherConfig) := by
    simp only [Environment.startLocale, Option.bind_some, hl]
  have hhead : TableHead.State.mount (unsettled env (some config)).headProps =
      .mount (unsettled env (some otherConfig)).headProps := by
    simp only [TableHead.State.mount, TableHead.State.settled, hsync]
    rfl
  rw [start_of_ok env h, start_of_ok env ho]
  exact ⟨rfl, hlocale, rfl, hhead, hs, hc⟩

/-- A page of a run carries the texts of the document that the run started with. -/
theorem carries_after (env : Environment) {raw : String} {document : Config.Document}
    {config : Config} (hw : Config.Written raw document) (h : Config.ofText raw = .ok config)
    (actions : List Action) :
    Carries document (lastTyped? actions) ((start (configured env raw)).1.after actions).html := by
  obtain ⟨-, hname, hsymbol, -⟩ := Config.resolved_of_written hw h
  have hconfig : ((start (configured env raw)).1.after actions).config = config := by
    rw [(settings_after _ actions).1, start_of_ok env h]
    rfl
  refine carries_html ?_ ?_ ?_
  · rw [hconfig]
    exact hname
  · rw [hconfig]
    exact hsymbol
  · rw [price_after, start_of_ok env h]
    rfl

/-- **Texts of the caller cannot change the tags of the page.** The documents differ in a name that
is not blank and in a symbol that is not empty, and the actions in what is typed. The markup of
either page parses to a tree with the same tags and the same names of attributes, in which the texts
of its own document and of its own inputs stand exactly as they were given. -/
theorem outline_eq_of_reworded {raw otherRaw : String} {document other : Config.Document}
    {config otherConfig : Config} (hw : Config.Written raw document)
    (hwo : Config.Written otherRaw other) (hd : document.SameButTexts other)
    (hc : Config.ofText raw = .ok config) (hco : Config.ofText otherRaw = .ok otherConfig)
    (env : Environment) {actions others : List Action}
    (ha : List.Forall₂ Action.Alike actions others) :
    ∃ tree otherTree : Html,
      Html.parse? ((start (configured env raw)).1.after actions).html.markup = some [tree] ∧
      Html.parse? ((start (configured env otherRaw)).1.after others).html.markup =
        some [otherTree] ∧
      tree.outline = otherTree.outline ∧
      Carries document (lastTyped? actions) tree ∧
      Carries other (lastTyped? others) otherTree := by
  obtain ⟨hl, -, hs, hf⟩ := Config.resolved_of_written hw hc
  obtain ⟨hlo, -, hso, hfo⟩ := Config.resolved_of_written hwo hco
  have hlocale : config.locale = otherConfig.locale := by rw [hl, hlo, hd.locale]
  have hsync : config.syncSelectAll = otherConfig.syncSelectAll := by rw [hf, hfo, hd.sync]
  have hcurrency : (currencyAdornment config.currencySymbol).isSome =
      (currencyAdornment otherConfig.currencySymbol).isSome := by
    rw [hs, hso]
    exact Config.isSome_adornment_of_reworded hd.symbol
  -- Besides its texts a document gives a locale, a mode and whether there is a currency.
  have halike := alike_after (alike_start env hc hco hlocale hsync hcurrency) ha
  exact ⟨_, _, parse?_html _, parse?_html _, outline_html halike, carries_after env hw hc actions,
    carries_after env hwo hco others⟩

def plainTexts : String := "[null,\"gross\",\"EUR\"]"

def markupTexts : String := "[null,\"\\\"><script>\",\"</span>&lt;\"]"

theorem written_plainTexts :
    Config.Written plainTexts ⟨none, some "gross", some "EUR", false⟩ := by
  have hw : Json.Writes plainTexts (.array [.null, .string "gross", .string "EUR"]) :=
    Json.Spells.next .openBracket <| .next .nullWord <| .next .comma <|
      .next (Json.tokenSpelling_quoted "gross") <| .next .comma <|
      .next (Json.tokenSpelling_quoted "EUR") <| .next .closeBracket .done
  exact ⟨_, hw, Config.ofJson?_eq_some_iff.mp rfl⟩

theorem written_markupTexts :
    Config.Written markupTexts ⟨none, some "\"><script>", some "</span>&lt;", false⟩ := by
  have hw : Json.Writes markupTexts
      (.array [.null, .string "\"><script>", .string "</span>&lt;"]) :=
    Json.Spells.next .openBracket <| .next .nullWord <| .next .comma <|
      .next (Json.tokenSpelling_quoted "\"><script>") <| .next .comma <|
      .next (Json.tokenSpelling_quoted "</span>&lt;") <| .next .closeBracket .done
  exact ⟨_, hw, Config.ofJson?_eq_some_iff.mp rfl⟩

/-- Texts that are made of markup end up as texts, and nothing is opened or closed by them. -/
theorem outline_eq_of_markup_in_texts :
    let actions : List Action := [.selectAll, .typePrice (some "9"), .pickLocale (some "ar")]
    let others : List Action :=
      [.selectAll, .typePrice (some "\" autofocus>"), .pickLocale (some "ar")]
    ∃ tree otherTree : Html,
      Html.parse? ((start (configured {} plainTexts)).1.after actions).html.markup = some [tree] ∧
      Html.parse? ((start (configured {} markupTexts)).1.after others).html.markup =
        some [otherTree] ∧
      tree.outline = otherTree.outline ∧
      (priceInputs otherTree).map (fun input => input.value? "name") = [some "\"><script>"] ∧
      (priceInputs otherTree).map (fun input => input.value? "value") =
        [some "\" autofocus>"] ∧
      currencySpans otherTree = ["</span>&lt;"] := by
  intro actions others
  have hname : Config.Reworded (fun name => ∃ c ∈ name.toList, Text.isBlank c = false)
      (some "gross") (some "\"><script>") :=
    .inr ⟨_, _, rfl, rfl, ⟨'g', by decide, by decide⟩, ⟨'>', by decide, by decide⟩⟩
  have hsymbol : Config.Reworded (fun symbol => symbol ≠ "") (some "EUR") (some "</span>&lt;") :=
    .inr ⟨_, _, rfl, rfl, by decide, by decide⟩
  have hplain : Config.ofText plainTexts = .ok ⟨none, "gross", some "EUR", false⟩ := by
    rw [Config.ofText, Config.written_iff.mp written_plainTexts]
    rfl
  have hmarkup : Config.ofText markupTexts =
      .ok ⟨none, "\"><script>", some "</span>&lt;", false⟩ := by
    rw [Config.ofText, Config.written_iff.mp written_markupTexts]
    rfl
  have hactions : List.Forall₂ Action.Alike actions others :=
    .cons (.same _) (.cons (.typed _ _) (.cons (.same _) .nil))
  obtain ⟨tree, otherTree, ht, ho, houtline, -, hcarries⟩ :=
    outline_eq_of_reworded written_plainTexts written_markupTexts ⟨rfl, hname, hsymbol, rfl⟩ hplain
      hmarkup {} hactions
  refine ⟨tree, otherTree, ht, ho, houtline, ?_, hcarries.value, ?_⟩
  · exact hcarries.name _ (.given (c := '>') (by decide) (by decide))
  · exact hcarries.symbol _ rfl (by decide)

end Page

end AdminPanel
