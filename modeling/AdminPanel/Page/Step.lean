import AdminPanel.Page.Basic

/-! # What the user does

Each action takes the page to the next one and tells what was written to the console and how often
the event was stopped. A click on a checkbox or a button goes on to the table around it unless it
was stopped. The buttons exist only while the bulk bar is shown. -/

namespace AdminPanel.Page

inductive Action where
  /-- A pick of a locale, with the value of the target if there is one. -/
  | pickLocale (target : Option String)
  /-- An input in the price field, with the value of the target if there is one. -/
  | typePrice (target : Option String)
  | selectAll
  | toggleRow (row : Fin Product.all.length)
  | publish
  | delete
  | clickTable
deriving DecidableEq, Repr

/-- What an action gives beside the next page; `stopped` is absent when there was nothing to
click. -/
structure Reply where
  console : List ConsoleEntry
  stopped : Option Nat
deriving DecidableEq, Repr

/-- What the table around a clicked element writes: nothing if the event was stopped. -/
def tableEntries (stopped : Nat) : List ConsoleEntry := if stopped = 0 then [.tableClicked] else []

def drawn (page : Page) : Page := { page with head := page.head.draw page.headProps }

def select (page : Page) (selection : Selection) : Page :=
  { page with selection := selection }.drawn

/-! ## Locale and price -/

/-- The page with the code of a locale in the storage, and what a failure to write it says. -/
def persistLocale (page : Page) (locale : Locale) : Page × List ConsoleEntry :=
  match page.writeError with
  | some detail =>
    let value := Json.quoted locale.code
    (page, [.storageFailed Environment.localeKey (detail Environment.localeKey value)])
  | none =>
    ({ page with storage := page.storage.putString Environment.localeKey locale.code }, [])

/-- The page in the locale that a tag selects, which is stored first. A tag that selects none
changes nothing. -/
def pickTag (page : Page) (tag : String) : Page × List ConsoleEntry :=
  match Locale.ofTag? tag with
  | some locale =>
    let (stored, console) := page.persistLocale locale
    ({ stored with locale := locale }.drawn, console)
  | none => (page, [])

def pickLocale (page : Page) (target : Option String) : Page × Reply :=
  match target with
  | some tag => ((page.pickTag tag).1, ⟨(page.pickTag tag).2, some 0⟩)
  | none => (page, ⟨[], some 0⟩)

/-- The page after an input; an input without a target changes nothing. -/
def typePrice (page : Page) (target : Option String) : Page × Reply :=
  match target with
  | some typed => ({ page with price := .text typed }.drawn, ⟨[], some 0⟩)
  | none => (page, ⟨[], some 0⟩)

/-! ## Selection -/

/-- The selection after a request of the head, and what is written about it. -/
def answer (selection : Selection) (request : ToggleAll) : Selection × ConsoleEntry :=
  let next := selection.selectAllOrClear request.items
  (next, .selectAllRequested request.selected next.size)

def selectAll (page : Page) : Page × Reply :=
  let (head, reply) := page.head.click page.headProps
  let answers := reply.requests.map (answer page.selection)
  let selection := (answers.getLast?.map Prod.fst).getD page.selection
  ({ page with head := head }.select selection,
    ⟨answers.map Prod.snd ++ reply.console ++ tableEntries reply.stopped, some reply.stopped⟩)

/-- The page after a click on the checkbox of a row, which stops the event. -/
def toggleRow (page : Page) (row : Fin Product.all.length) : Page × Reply :=
  (page.select (page.selection.toggle (Product.all.get row).id), ⟨tableEntries 1, some 1⟩)

/-! ## Actions on the selected rows -/

def showsBulkBar (page : Page) : Bool := page.headProps.content.isBulk

def publish (page : Page) : Page × Reply :=
  if page.showsBulkBar then
    (page, ⟨.bulkPublish page.selection.size :: tableEntries 0, some 0⟩)
  else (page, ⟨[], none⟩)

def delete (page : Page) : Page × Reply :=
  if page.showsBulkBar then
    (page.select .empty, ⟨.bulkDelete page.selection.size :: tableEntries 0, some 0⟩)
  else (page, ⟨[], none⟩)

/-! ## Runs -/

def step (page : Page) : Action → Page × Reply
  | .pickLocale target => page.pickLocale target
  | .typePrice target => page.typePrice target
  | .selectAll => page.selectAll
  | .toggleRow row => page.toggleRow row
  | .publish => page.publish
  | .delete => page.delete
  | .clickTable => (page, ⟨tableEntries 0, some 0⟩)

/-- The pages after each of a series of actions, with the replies. -/
def run (page : Page) : List Action → List (Page × Reply)
  | [] => []
  | action :: actions => page.step action :: (page.step action).1.run actions

def after (page : Page) (actions : List Action) : Page :=
  actions.foldl (fun page action => (page.step action).1) page

end AdminPanel.Page
