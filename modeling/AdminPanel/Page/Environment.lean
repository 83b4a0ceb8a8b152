import AdminPanel.Console
import AdminPanel.Page.Storage
import AdminPanel.Theme.Style

/-! # What a page starts from

The surroundings of a page, read once when it starts: the configuration in an element of the host
page, the language of the browser, and the stored preferences. A source that is missing or cannot be
read never keeps a later one from counting. -/

namespace AdminPanel

structure Environment where
  /-- The text of the configuration element: `none` without the element, `some none` for an element
  without a text. -/
  configElement : Option (Option String) := none
  language : Option String := none
  storage : Storage := .empty
  /-- What goes wrong when a text is written under a key, if writing to the storage fails. -/
  writeError : Option (String → String → String) := none
  hasRoot : Bool := true

namespace Environment

def localeKey : String := "backoffice.locale"

def modeKey : String := "backoffice.theme"

def configElementId : String := "backoffice-config"

/-- The configuration of the host page, if it gives one that is accepted, and what is written to the
console about one that is not. -/
def loadConfig (env : Environment) : Option Config × List ConsoleEntry :=
  match env.configElement with
  | none => (none, [])
  | some text =>
    match Config.ofText (text.getD "") with
    | .ok config => (some config, [])
    | .error error => (none, [.configRejected configElementId error])

def storedLocale? (env : Environment) : Option Locale :=
  (env.storage.string? localeKey).bind Locale.ofTag?

def browserLocale? (env : Environment) : Option Locale := env.language.bind Locale.ofTag?

/-- The locale a page starts in: the stored one, or the one of the configuration, or the browser's,
or English. -/
def startLocale (env : Environment) (config : Option Config) : Locale :=
  ((env.storedLocale?.or (config.bind Config.locale)).or env.browserLocale?).getD .fallback

/-- The mode a page starts in: dark if the storage says so. -/
def startMode (env : Environment) : Mode :=
  if env.storage.string? modeKey = some Mode.dark.word then .dark else .light

def mountPoint (env : Environment) : String := if env.hasRoot then "root" else "body"

end Environment

end AdminPanel
