import AdminPanel.Text.Basic

/-! # Locales

The languages the panel speaks, their codes, and how a language tag selects one: by its primary
subtag alone, in any letter case, with blanks around the tag ignored. -/

namespace AdminPanel

inductive Locale where
  | arabic
  | german
  | english
  | spanish
  | french
  | polish
deriving DecidableEq, Repr

namespace Locale

def all : List Locale := [.arabic, .german, .english, .spanish, .french, .polish]

def fallback : Locale := .english

def code : Locale → String
  | .arabic => "ar"
  | .german => "de"
  | .english => "en"
  | .spanish => "es"
  | .french => "fr"
  | .polish => "pl"

def label : Locale → String
  | .arabic => "العربية"
  | .german => "Deutsch"
  | .english => "English"
  | .spanish => "Español"
  | .french => "Français"
  | .polish => "Polski"

def ofCode? (code : String) : Option Locale := all.find? fun locale => locale.code == code

/-! ## Language tags -/

/-- The letters A to Z in lower case; every other character stays as it is. -/
def lowerAscii (c : Char) : Char := if 'A' ≤ c ∧ c ≤ 'Z' then Char.ofNat (c.toNat + 32) else c

def endsSubtag (c : Char) : Bool := c == '-' || c == '_'

/-- The primary subtag of a tag: what stands before the first separator, in lower case. -/
def primarySubtag (tag : String) : String :=
  String.ofList (((Text.trim tag.toList).map lowerAscii).takeWhile fun c => !endsSubtag c)

def ofTag? (tag : String) : Option Locale := ofCode? (primarySubtag tag)

/-! ## Small facts -/

theorem ofCode?_eq_some_iff {code : String} {locale : Locale} :
    ofCode? code = some locale ↔ locale.code = code := by
  constructor
  · intro h; simpa using List.find?_some h
  · rintro rfl; cases locale <;> decide

theorem ofTag?_code (locale : Locale) : ofTag? locale.code = some locale := by
  cases locale <;> decide +kernel

end Locale

end AdminPanel
