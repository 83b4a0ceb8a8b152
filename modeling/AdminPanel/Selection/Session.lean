import AdminPanel.Selection.Basic
import AdminPanel.Selection.Header

/-! # Selection sessions

A session puts a select-all flag next to the selection that its owner keeps. The number of selected
rows that an action works with is the size of the selection, unless the action brings another. -/

namespace AdminPanel

structure Session where
  flag : SelectAll
  items : List String
  selection : Selection
  locale : Locale

namespace Session

inductive Action where
  /-- A click whose request the owner ignores. -/
  | click (count : Option Nat)
  /-- A click whose request the owner answers. -/
  | selectAll (count : Option Nat)
  | toggleRow (id : String)
  | clear
  | setItems (items : List String)
  | setLocale (locale : Locale)
  | reconcile (count : Option Nat)
deriving Repr

/-- What an action gives beside the session after it. -/
structure Reply where
  requests : List ToggleAll
  stopped : Nat
deriving DecidableEq, Repr

def Reply.silent : Reply := ⟨[], 0⟩

/-- The session after a click, with the selection untouched. -/
def click (session : Session) (count : Option Nat) : Session × Reply :=
  let click := session.flag.click session.items (count.getD session.selection.size)
  ({ session with flag := click.after }, ⟨click.requests, click.stopped⟩)

/-- The session after its owner has answered a list of requests. -/
def answer (session : Session) (requests : List ToggleAll) : Session :=
  { session with
    selection := requests.foldl (fun selection request => selection.selectAllOrClear request.items)
      session.selection }

def step (session : Session) : Action → Session × Reply
  | .click count => session.click count
  | .selectAll count =>
    let (clicked, reply) := session.click count
    (clicked.answer reply.requests, reply)
  | .toggleRow id => ({ session with selection := session.selection.toggle id }, .silent)
  | .clear => ({ session with selection := .empty }, .silent)
  | .setItems items => ({ session with items := items }, .silent)
  | .setLocale locale => ({ session with locale := locale }, .silent)
  | .reconcile count =>
    ({ session with flag := session.flag.reconcile (count.getD session.selection.size) }, .silent)

def content (session : Session) : HeaderContent := .ofCount session.selection.size

def label? (session : Session) : Option String :=
  session.content.label? (.ofLocale session.locale)

end Session

end AdminPanel
