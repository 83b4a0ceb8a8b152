import AdminPanel.Config

/-! # Console entries

What the panel writes to the console, by cause. The words and the level of each entry are fixed
here and nowhere else. -/

namespace AdminPanel

inductive ConsoleLevel where
  | log
  | debug
  | error
deriving DecidableEq, Repr

inductive ConsoleArgument where
  | text (value : String)
  | number (value : Nat)
  | flag (value : Bool)
deriving DecidableEq, Repr

inductive ConsoleEntry where
  /-- The configuration in an element of the page was rejected. -/
  | configRejected (elementId : String) (error : ConfigError)
  /-- A select-all click reached the owner, which selects a new number of rows. -/
  | selectAllRequested (selected selectedAfter : Nat)
  | selectAllToggled (selected : Nat) (checked : Bool)
  | bulkDelete (selected : Nat)
  | bulkPublish (selected : Nat)
  | tableClicked
  | storageFailed (key detail : String)
deriving DecidableEq, Repr

namespace ConsoleEntry

def level : ConsoleEntry → ConsoleLevel
  | configRejected .. | storageFailed .. => .error
  | selectAllRequested .. | bulkDelete .. | bulkPublish .. => .log
  | selectAllToggled .. | tableClicked => .debug

def arguments : ConsoleEntry → List ConsoleArgument
  | configRejected elementId error =>
    [.text "widget config rejected", .text elementId, .text error.message]
  | selectAllRequested selected selectedAfter =>
    [.text "select-all requested", .number selected, .number selectedAfter]
  | selectAllToggled selected checked =>
    [.text "select-all toggled", .number selected, .flag checked]
  | bulkDelete selected => [.text "bulk delete", .number selected]
  | bulkPublish selected => [.text "bulk publish", .number selected]
  | tableClicked => [.text "table clicked"]
  | storageFailed key detail =>
    [.text "storage operation failed", .text "set", .text key, .text detail]

end ConsoleEntry

end AdminPanel
