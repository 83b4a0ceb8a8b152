import AdminPanel.Theme.Colour

/-! # Palettes, lengths and inline styles

A palette lists the shades of one colour, the lightest first. The main one is named 500.

Lengths are counted in steps of eight pixels; a negative count pulls content outward. Pixels are
32-bit numbers, and a length that does not fit is an error. -/

namespace AdminPanel

/-! ## Palettes -/

structure Shade where
  name : String
  hex : String
deriving DecidableEq, Repr

structure Palette where
  id : String
  shades : List Shade
deriving DecidableEq, Repr

namespace Palette

def shade? (palette : Palette) (name : String) : Option Shade :=
  palette.shades.find? fun shade => shade.name == name

def main? (palette : Palette) : Option Shade := palette.shade? "500"

def primary : Palette where
  id := "primary"
  shades := [⟨"100", "#C4F1F0"⟩, ⟨"300", "#5ED8D6"⟩, ⟨"500", "#13BEBB"⟩, ⟨"700", "#0E8E8C"⟩,
    ⟨"900", "#085150"⟩]

end Palette

/-! ## Lengths -/

inductive SpacingError where
  | tooLong
deriving DecidableEq, Repr

def SpacingError.message : SpacingError → String
  | .tooLong => "attempt to multiply with overflow"

def spacingStep : Int := 8

/-- The length of a number of steps in pixels. -/
def spacing (steps : Int32) : Except SpacingError Int32 :=
  if Int32.minValue.toInt ≤ steps.toInt * spacingStep ∧
      steps.toInt * spacingStep ≤ Int32.maxValue.toInt then
    .ok (Int32.ofInt (steps.toInt * spacingStep))
  else .error .tooLong

/-! ## Styles -/

inductive Mode where
  | light
  | dark
deriving DecidableEq, Repr

def Mode.word : Mode → String
  | .light => "light"
  | .dark => "dark"

namespace Style

/-- The opacity of the colour behind the bulk bar: five hundredths. -/
def bulkBarOpacity : Binary32 := Decimal.toBinary .binary32 false ⟨5, -2⟩

def pixels (n : Int) : String := Int.repr n ++ "px"

/-- The length of a number of steps that is not too long. -/
def steps (n : Int32) (h : (spacing n).toOption.isSome) : String :=
  pixels ((spacing n).toOption.get h).toInt

def bulkBarLayout : String :=
  "position: absolute; padding-left: 12px; padding-right: 24px; width: calc(100% - 72px);"

/-- The bulk bar over a header row, tinted with a palette's main shade if it has one. -/
def bulkBarOver (palette : Palette) : String :=
  match palette.main?.map fun shade => fade shade.hex bulkBarOpacity with
  | some (.ok background) => bulkBarLayout ++ " background-color: " ++ background ++ ";"
  | _ => bulkBarLayout

def bulkBar : String := bulkBarOver Palette.primary

def bulkRow : String :=
  "display: flex; align-items: center; height: " ++ pixels 56 ++ "; margin-right: " ++
    steps (-2) (by decide) ++ ";"

def bulkToolbar : String :=
  "display: flex; align-items: center; gap: " ++ steps 1 (by decide) ++ ";"

def currency : String := "font-size: 0.875rem;"

end Style

end AdminPanel
