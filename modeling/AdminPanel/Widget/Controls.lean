import AdminPanel.Html.Basic

/-! # Controls

The small widgets that the larger ones are made of. They come in a few tones and sizes, which the
style sheet knows by class names: the name of the control, a hyphen, and a word. -/

namespace AdminPanel

/-! ## Tones and sizes -/

inductive Tone where
  | primary
  | error
deriving DecidableEq, Repr

inductive Size where
  | small
  | medium
deriving DecidableEq, Repr

def Tone.word : Tone → String
  | .primary => "primary"
  | .error => "error"

def Size.word : Size → String
  | .small => "sm"
  | .medium => "md"

def Size.className (size : Size) (control : String) : String := control ++ "-" ++ size.word

/-- The class of a control in a tone, none for a control without one. -/
def toneClasses (tone : Option Tone) (control : String) : List String :=
  match tone with
  | some tone => [control ++ "-" ++ tone.word]
  | none => []

/-! ## Checkboxes -/

structure Checkbox where
  ariaLabel : Option String := none
  checked : Bool := false
  disabled : Bool := false
  tone : Option Tone := none
  size : Size := .medium
  extraClasses : String := ""
deriving DecidableEq, Repr

namespace Checkbox

def classes (box : Checkbox) : List String :=
  ["checkbox", box.size.className "checkbox"] ++ toneClasses box.tone "checkbox" ++
    [box.extraClasses]

def html (box : Checkbox) : Html :=
  .void "input" <|
    Attribute.bare "checked" box.checked ++ [.of "type" "checkbox"] ++
    Attribute.optional "aria-label" box.ariaLabel ++
    Attribute.toggled "disabled" box.disabled ++ [.classes box.classes]

end Checkbox

/-! ## Text inputs

The border belongs to a label around the input, so that the content behind the input lies inside the
border. What the user enters goes to the owner as it is: an input keeps no text of its own. -/

structure Input where
  value : String := ""
  kind : Option String := none
  name : Option String := none
  tone : Option Tone := none
  size : Size := .medium
  disabled : Bool := false
  extraClasses : String := ""
  suffix : List Html := []

namespace Input

def classes (input : Input) : List String :=
  ["input", input.size.className "input", input.extraClasses] ++ toneClasses input.tone "input"

/-- The mark of an input that holds an error. -/
def invalidMark (input : Input) : Option String :=
  if input.tone = some .error then some "true" else none

def control (input : Input) : Html :=
  .void "input" <|
    [.of "value" input.value, .of "type" (input.kind.getD "text")] ++
    Attribute.optional "name" input.name ++
    Attribute.optional "aria-invalid" input.invalidMark ++
    Attribute.toggled "disabled" input.disabled ++ [.classes ["grow"]]

def html (input : Input) : Html :=
  .element "label" [.classes input.classes] (input.control :: input.suffix)

end Input

/-! ## Drop-down lists

Every option whose value is the current one is marked as selected. A change without a target tells
the owner nothing. -/

/-- A value that can be picked, with the label it is shown by. -/
structure SelectOption where
  value : String
  label : String
deriving DecidableEq, Repr

structure Select where
  options : List SelectOption := []
  value : Option String := none
  ariaLabel : Option String := none
  size : Size := .medium
  extraClasses : String := ""
deriving DecidableEq, Repr

namespace Select

def classes (select : Select) : List String :=
  ["select", select.size.className "select", select.extraClasses]

def optionHtml (current : Option String) (option : SelectOption) : Html :=
  .element "option"
    (.of "value" option.value ::
      Attribute.toggled "selected" (decide (current = some option.value)))
    [.text option.label]

def html (select : Select) : Html :=
  .element "select"
    (Attribute.optional "aria-label" select.ariaLabel ++ [.classes select.classes])
    (select.options.map (optionHtml select.value))

/-- What the owner receives for a series of changes, each with the value of its target. -/
def received (targets : List (Option String)) : List String := targets.filterMap id

end Select

/-! ## Field sets

A field set puts a legend before its content and a hint behind it. -/

structure Fieldset where
  legend : Option String := none
  hint : Option String := none
  error : Bool := false
  extraClasses : List String := []
  children : List Html := []

namespace Fieldset

def classes (fields : Fieldset) : List String := "fieldset" :: fields.extraClasses

def legendHtml (fields : Fieldset) : List Html :=
  match fields.legend with
  | some legend => [.element "legend" [.classes ["fieldset-legend"]] [.text legend]]
  | none => []

/-- The hint, in the tone of errors when the set holds one. -/
def hintHtml (fields : Fieldset) : List Html :=
  match fields.hint with
  | some hint =>
    [.element "p" [.classes ("label" :: if fields.error then ["text-error"] else [])] [.text hint]]
  | none => []

def html (fields : Fieldset) : Html :=
  .element "fieldset" [.classes fields.classes]
    (fields.legendHtml ++ fields.children ++ fields.hintHtml)

end Fieldset

end AdminPanel
