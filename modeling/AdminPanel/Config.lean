import AdminPanel.Json.Parser
import AdminPanel.Locale.Basic
import AdminPanel.Price.View

/-! # Configuration

A host page configures the panel with a small JSON document: an object with some of four members, or
an array that gives the same four by position. A document of any other shape is malformed, also one
with an unknown or repeated member or a value of the wrong type. Only when the whole document is
well formed does an unsupported language count as an error of its own. -/

namespace AdminPanel

inductive ConfigError where
  | malformed
  | unknownLocale (tag : String)
deriving DecidableEq, Repr

def ConfigError.message : ConfigError → String
  | .malformed => "invalid widget configuration"
  | .unknownLocale tag => "unsupported locale '" ++ tag ++ "'"

/-- What a host page asks for. A page that names no locale leaves the choice to the browser. -/
structure Config where
  locale : Option Locale
  priceFieldName : String
  currencySymbol : Option String
  syncSelectAll : Bool
deriving DecidableEq, Repr

namespace Config

def default : Config := ⟨none, PriceView.defaultName, none, false⟩

/-! ## The document -/

/-- The document as it is written, before the locale and the name are looked at. -/
structure Document where
  locale : Option String
  priceFieldName : Option String
  currencySymbol : Option String
  syncSelectAll : Bool
deriving DecidableEq, Repr

def memberNames : List String :=
  ["locale", "price_field_name", "currency_symbol", "sync_select_all"]

/-- An optional text: absent, null or a string. -/
def textOf? : Option Json → Option (Option String)
  | none => some none
  | some .null => some none
  | some (.string value) => some (some value)
  | some _ => none

/-- An optional flag: absent or a boolean, but not null. -/
def flagOf? : Option Json → Option Bool
  | none => some false
  | some (.bool value) => some value
  | some _ => none

def Document.ofValues? (locale name symbol sync : Option Json) : Option Document := do
  return ⟨← textOf? locale, ← textOf? name, ← textOf? symbol, ← flagOf? sync⟩

def Document.ofMembers? (members : List (String × Json)) : Option Document :=
  if (members.map Prod.fst).Nodup ∧ ∀ name ∈ members.map Prod.fst, name ∈ memberNames then
    ofValues? (members.lookup "locale") (members.lookup "price_field_name")
      (members.lookup "currency_symbol") (members.lookup "sync_select_all")
  else none

/-- The document of an array's elements; those missing at the end are absent. -/
def Document.ofElements? (elements : List Json) : Option Document :=
  if elements.length ≤ memberNames.length then
    ofValues? elements[0]? elements[1]? elements[2]? elements[3]?
  else none

def Document.ofJson? : Json → Option Document
  | .object members => ofMembers? members
  | .array elements => ofElements? elements
  | _ => none

/-! ## Resolving the document -/

def resolveLocale : Option String → Except ConfigError (Option Locale)
  | none => .ok none
  | some tag =>
    match Locale.ofTag? tag with
    | some locale => .ok (some locale)
    | none => .error (.unknownLocale tag)

/-- The name of price inputs: the given one unless it is blank. -/
def resolveName (name : Option String) : String :=
  match name.filter fun name => !Text.allBlank name with
  | some name => name
  | none => PriceView.defaultName

def ofDocument (document : Document) : Except ConfigError Config :=
  match resolveLocale document.locale with
  | .ok locale => .ok {
      locale := locale
      priceFieldName := resolveName document.priceFieldName
      currencySymbol := document.currencySymbol
      syncSelectAll := document.syncSelectAll }
  | .error error => .error error

def ofText (text : String) : Except ConfigError Config :=
  match (Json.ofText? text).bind Document.ofJson? with
  | some document => ofDocument document
  | none => .error .malformed

end Config

end AdminPanel
