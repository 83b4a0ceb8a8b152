import AdminPanel.Html.Basic

/-! # The text of markup

Texts escape the ampersand and the angle brackets, attribute values the double quote too, and
nothing else is escaped. Nothing stands between tags. -/

namespace AdminPanel

namespace Html

def escapeInText (c : Char) : List Char :=
  if c = '&' then "&amp;".toList
  else if c = '<' then "&lt;".toList
  else if c = '>' then "&gt;".toList
  else [c]

def escapeInValue (c : Char) : List Char := if c = '"' then "&quot;".toList else escapeInText c

def textChars (s : String) : List Char := s.toList.flatMap escapeInText

def valueChars (s : String) : List Char := s.toList.flatMap escapeInValue

/-- An attribute behind a blank. -/
def attributeChars (attr : Attribute) : List Char :=
  ' ' :: (attr.name.toList ++
    match attr.value with
    | some value => '=' :: '"' :: (valueChars value ++ ['"'])
    | none => [])

def openingChars (tag : String) (attributes : List Attribute) : List Char :=
  '<' :: (tag.toList ++ (attributes.flatMap attributeChars ++ ['>']))

def closingChars (tag : String) : List Char := '<' :: '/' :: (tag.toList ++ ['>'])

mutual

def chars : Html → List Char
  | .text value => textChars value
  | .element tag attributes children =>
    openingChars tag attributes ++ (charsOfAll children ++ closingChars tag)
  | .void tag attributes => openingChars tag attributes

def charsOfAll : List Html → List Char
  | [] => []
  | tree :: trees => chars tree ++ charsOfAll trees

end

def markup (tree : Html) : String := String.ofList tree.chars

/-! ## Small facts -/

theorem textChars_append (a b : String) : textChars (a ++ b) = textChars a ++ textChars b := by
  simp [textChars]

@[simp] theorem charsOfAll_nil : charsOfAll [] = [] := rfl

@[simp] theorem charsOfAll_cons (tree : Html) (trees : List Html) :
    charsOfAll (tree :: trees) = chars tree ++ charsOfAll trees := rfl

theorem charsOfAll_eq (trees : List Html) : charsOfAll trees = trees.flatMap chars := by
  induction trees with
  | nil => rfl
  | cons tree trees ih => rw [charsOfAll_cons, ih, List.flatMap_cons]

@[simp] theorem charsOfAll_append (a b : List Html) :
    charsOfAll (a ++ b) = charsOfAll a ++ charsOfAll b := by
  induction a with
  | nil => rfl
  | cons tree trees ih => simp [ih]

end Html

end AdminPanel
