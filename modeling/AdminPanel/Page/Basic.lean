import AdminPanel.Page.Environment
import AdminPanel.Selection.Basic
import AdminPanel.Widget.PriceField
import AdminPanel.Widget.TableHead

/-! # The page

The page puts a locale picker, a price field and a table of products together. It owns the selection
and the price; the table head keeps its flag. What the page shows is a function of this state
alone. -/

namespace AdminPanel

/-! ## Products -/

structure Product where
  id : String
  name : String
  price : Price
deriving DecidableEq, Repr

namespace Product

def all : List Product := [
  ⟨"prod-1", "Espresso beans 1kg", .ofDecimal 249 (-1)⟩,
  ⟨"prod-2", "Ceramic pour-over", .ofDecimal 32 0⟩,
  ⟨"prod-3", "Paper filters (100)", .ofDecimal 45 (-1)⟩,
  ⟨"prod-4", "Burr grinder", .ofDecimal 129 0⟩]

def priceText (product : Product) (currency : Option String) : String :=
  match currency with
  | some symbol => product.price.shown ++ " " ++ symbol
  | none => product.price.shown

end Product

/-! ## The state of the page -/

structure Page where
  config : Config
  mode : Mode
  locale : Locale
  selection : Selection
  price : Price
  head : TableHead.State
  storage : Storage
  writeError : Option (String → String → String)

namespace Page

def bundle (page : Page) : Bundle := .ofLocale page.locale

def text (page : Page) (path fallback : String) : String := page.bundle.text path fallback

/-! ## The parts of the page -/

/-- The picker, which offers every locale and shows the current one. -/
def picker (page : Page) : Select where
  size := .small
  ariaLabel := some (page.text "demo.locale" "Language")
  options := Locale.all.map fun locale => ⟨locale.code, locale.label⟩
  value := some page.locale.code

def priceField (page : Page) : PriceField where
  label := some (page.text "price_field.label" "Price")
  hint := some (page.text "price_field.hint" "Gross price shown to customers")
  name := page.config.priceFieldName
  currency := page.config.currencySymbol
  value := some page.price

def headerCells (page : Page) : List Html := [
  .element "th" [] [.text (page.text "demo.name" "Name")],
  .element "th" [] [.text (page.text "price_field.label" "Price")]]

def toolbar (page : Page) : List Html := [
  .element "button" [.of "type" "button", .classes ["btn btn-sm btn-ghost"]]
    [.text (page.text "demo.publish" "Publish")],
  .element "button" [.of "type" "button", .classes ["btn btn-sm btn-error"]]
    [.text (page.text "demo.delete" "Delete")]]

def headProps (page : Page) : TableHead.Props where
  items := Product.all.map Product.id
  selected := page.selection.size
  syncWithSelection := page.config.syncSelectAll
  cells := page.headerCells
  toolbar := page.toolbar
  bundle := some page.bundle

def row (page : Page) (product : Product) : Html :=
  let box : Checkbox := { size := .small, checked := page.selection.contains product.id }
  .element "tr" [] [
    .element "td" [] [box.html],
    .element "td" [] [.text product.name],
    .element "td" [] [.text (product.priceText page.config.currencySymbol)]]

/-! ## The whole page -/

def header (page : Page) : Html :=
  .element "header" [.classes ["flex items-center justify-between"]] [
    .element "h1" [.classes ["text-xl font-semibold"]] [.text (page.text "demo.title" "Products")],
    page.picker.html]

def table (page : Page) : Html :=
  .element "div" [.classes ["relative overflow-x-auto"]] [
    .element "table" [.classes ["table"]] [
      TableHead.drawing page.headProps page.head.flag,
      .element "tbody" [] (Product.all.map page.row)]]

def direction (page : Page) : String := if page.bundle.rightToLeft then "rtl" else "ltr"

def html (page : Page) : Html :=
  .element "main"
    [.of "data-theme" page.mode.word, .of "dir" page.direction,
      .classes ["backoffice-demo p-6 space-y-6"]]
    [page.header, page.priceField.html, page.table]

/-! ## Starting -/

def startPrice : Price := .text "12.50"

/-- The page before its head has settled. -/
def unsettled (env : Environment) (config : Option Config) : Page where
  config := config.getD .default
  mode := env.startMode
  locale := env.startLocale config
  selection := .empty
  price := startPrice
  head := ⟨.initial, 0⟩
  storage := env.storage
  writeError := env.writeError

/-- The first page, and what is written to the console on the way. -/
def start (env : Environment) : Page × List ConsoleEntry :=
  let (config, console) := env.loadConfig
  let page := unsettled env config
  ({ page with head := .mount page.headProps }, console)

end Page

end AdminPanel
