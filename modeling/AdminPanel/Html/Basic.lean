import AdminPanel.Text.Basic

/-! # Markup

Markup is a tree of texts and elements. Trees hold texts and attribute values as they are; escaping
is left to the one place where a tree becomes a text. -/

namespace AdminPanel

/-- An attribute with a value, or a bare one. -/
structure Attribute where
  name : String
  value : Option String
deriving DecidableEq, Repr

/-- Void elements have neither children nor a closing tag. -/
inductive Html where
  | text (value : String)
  | element (tag : String) (attributes : List Attribute) (children : List Html)
  | void (tag : String) (attributes : List Attribute)
deriving Repr

namespace Attribute

def of (name value : String) : Attribute := ⟨name, some value⟩

/-- An attribute that is left out when there is no value. An empty value is a value. -/
def optional (name : String) (value : Option String) : List Attribute :=
  match value with
  | some value => [of name value]
  | none => []

/-- An attribute that is present, with its own name as value, when a flag is set. -/
def toggled (name : String) (set : Bool) : List Attribute := if set then [of name name] else []

/-- An attribute that is present, without a value, when a flag is set. -/
def bare (name : String) (set : Bool) : List Attribute := if set then [⟨name, none⟩] else []

end Attribute

/-! ## Class lists -/

/-- The classes of a series of texts: their words, each kept where it comes first. -/
def classList (texts : List String) : List String := (texts.flatMap Text.words).eraseDups

theorem mem_classList {texts : List String} {name : String} :
    name ∈ classList texts ↔ ∃ text ∈ texts, name ∈ Text.words text := by
  simp [classList, List.mem_eraseDups]

theorem nodup_eraseDups (names : List String) : names.eraseDups.Nodup := by
  generalize hn : names.length = n
  induction n using Nat.strongRecOn generalizing names with
  | ind n ih =>
    cases names with
    | nil => simp
    | cons name names =>
      have hle := List.length_filter_le (fun other => !other == name) names
      simp only [List.length_cons] at hn
      rw [List.eraseDups_cons]
      refine List.nodup_cons.mpr ⟨?_, ih _ (by omega) _ rfl⟩
      simp [List.mem_eraseDups]

theorem nodup_classList (texts : List String) : (classList texts).Nodup := nodup_eraseDups _

def Attribute.classes (texts : List String) : Attribute :=
  .of "class" (String.intercalate " " (classList texts))

end AdminPanel
