import AdminPanel.Locale.Basic
import AdminPanel.Template.Scan

/-! # Messages and bundles

The texts of one language are a tree: named groups, nested to any depth, with texts and flags at the
leaves. A path names a leaf by the dotted names on the way to it. There is one tree for each locale,
all with the same names. The label of the bulk bar is a template whose one hole takes the number of
selected rows.

A bundle gives the widgets their texts in one language. A path that the language has no text for
falls back to English, and one that English has no text for either to a default of the caller. -/

namespace AdminPanel

/-! ## Message trees -/

inductive Messages where
  | text (value : String)
  | flag (value : Bool)
  | group (entries : List (String × Messages))

namespace Messages

/-- The entry of a group under a name; leaves have none. -/
def child? : Messages → String → Option Messages
  | .group entries, name => entries.lookup name
  | _, _ => none

def at? (tree : Messages) : List String → Option Messages
  | [] => some tree
  | name :: names => (tree.child? name).bind fun child => child.at? names

/-- The text at a dotted path. Empty names between dots are names like any other. -/
def text? (tree : Messages) (path : String) : Option String :=
  match tree.at? (Text.dotted path) with
  | some (.text value) => some value
  | _ => none

def flag? (tree : Messages) (names : List String) : Option Bool :=
  match tree.at? names with
  | some (.flag value) => some value
  | _ => none

end Messages

/-! ## The texts of the panel -/

namespace Locale

def arabicMessages : Messages := .group [
  ("meta", .group [
    ("rtl", .flag true)]),
  ("table_head", .group [
    ("selected_items", .text "تم تحديد \x7b\x7b number \x7d\x7d عناصر"),
    ("select_all", .text "تحديد كل الصفوف")]),
  ("price_field", .group [
    ("label", .text "السعر"),
    ("hint", .text "السعر الإجمالي المعروض للعملاء")]),
  ("demo", .group [
    ("title", .text "المنتجات"),
    ("name", .text "الاسم"),
    ("delete", .text "حذف"),
    ("publish", .text "نشر"),
    ("locale", .text "اللغة")])]

def germanMessages : Messages := .group [
  ("meta", .group [
    ("rtl", .flag false)]),
  ("table_head", .group [
    ("selected_items", .text "\x7b\x7b number \x7d\x7d Einträge ausgewählt"),
    ("select_all", .text "Alle Zeilen auswählen")]),
  ("price_field", .group [
    ("label", .text "Preis"),
    ("hint", .text "Bruttopreis für Kunden")]),
  ("demo", .group [
    ("title", .text "Produkte"),
    ("name", .text "Name"),
    ("delete", .text "Löschen"),
    ("publish", .text "Veröffentlichen"),
    ("locale", .text "Sprache")])]

def englishMessages : Messages := .group [
  ("meta", .group [
    ("rtl", .flag false)]),
  ("table_head", .group [
    ("selected_items", .text "Selected \x7b\x7b number \x7d\x7d items"),
    ("select_all", .text "Select all rows")]),
  ("price_field", .group [
    ("label", .text "Price"),
    ("hint", .text "Gross price shown to customers")]),
  ("demo", .group [
    ("title", .text "Products"),
    ("name", .text "Name"),
    ("delete", .text "Delete"),
    ("publish", .text "Publish"),
    ("locale", .text "Language")])]

def spanishMessages : Messages := .group [
  ("meta", .group [
    ("rtl", .flag false)]),
  ("table_head", .group [
    ("selected_items", .text "\x7b\x7b number \x7d\x7d elementos seleccionados"),
    ("select_all", .text "Seleccionar todas las filas")]),
  ("price_field", .group [
    ("label", .text "Precio"),
    ("hint", .text "Precio bruto mostrado a los clientes")]),
  ("demo", .group [
    ("title", .text "Productos"),
    ("name", .text "Nombre"),
    ("delete", .text "Eliminar"),
    ("publish", .text "Publicar"),
    ("locale", .text "Idioma")])]

def frenchMessages : Messages := .group [
  ("meta", .group [
    ("rtl", .flag false)]),
  ("table_head", .group [
    ("selected_items", .text "\x7b\x7b number \x7d\x7d éléments sélectionnés"),
    ("select_all", .text "Sélectionner toutes les lignes")]),
  ("price_field", .group [
    ("label", .text "Prix"),
    ("hint", .text "Prix TTC affiché aux clients")]),
  ("demo", .group [
    ("title", .text "Produits"),
    ("name", .text "Nom"),
    ("delete", .text "Supprimer"),
    ("publish", .text "Publier"),
    ("locale", .text "Langue")])]

def polishMessages : Messages := .group [
  ("meta", .group [
    ("rtl", .flag false)]),
  ("table_head", .group [
    ("selected_items", .text "Zaznaczono \x7b\x7b number \x7d\x7d elementów"),
    ("select_all", .text "Zaznacz wszystkie wiersze")]),
  ("price_field", .group [
    ("label", .text "Cena"),
    ("hint", .text "Cena brutto widoczna dla klientów")]),
  ("demo", .group [
    ("title", .text "Produkty"),
    ("name", .text "Nazwa"),
    ("delete", .text "Usuń"),
    ("publish", .text "Opublikuj"),
    ("locale", .text "Język")])]

def messages : Locale → Messages
  | .arabic => arabicMessages
  | .german => germanMessages
  | .english => englishMessages
  | .spanish => spanishMessages
  | .french => frenchMessages
  | .polish => polishMessages

end Locale

/-! ## Bundles -/

structure Bundle where
  locale : Locale
  messages : Messages

namespace Bundle

def ofLocale (locale : Locale) : Bundle := ⟨locale, locale.messages⟩

/-- Bundles are told apart by their locale. -/
instance : BEq Bundle := ⟨fun a b => a.locale == b.locale⟩

def text (bundle : Bundle) (path fallback : String) : String :=
  match bundle.messages.text? path with
  | some value => value
  | none => (Locale.fallback.messages.text? path).getD fallback

def format (bundle : Bundle) (path fallback : String) (arguments : Template.Arguments) : String :=
  interpolate (bundle.text path fallback) arguments

def rightToLeft (bundle : Bundle) : Bool := (bundle.messages.flag? ["meta", "rtl"]).getD false

end Bundle

end AdminPanel
