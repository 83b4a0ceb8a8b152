import AdminPanel.Text.Basic
import AdminPanel.Text.Slice

/-! # Templates

A template is a text with holes, each written as a name between two opening and two closing
braces. Reading is by the leftmost opening and the leftmost closing after it, so a body may hold
single braces and further openings. An opening that is never closed is text, and everything from
it on stays as written. -/

namespace AdminPanel

open Text (breakOn? eq_append_of_breakOn?)

def Template.opening : List Char := ['{', '{']

def Template.closing : List Char := ['}', '}']

/-- A hole, with the text between it and the hole before. -/
structure Template.Hole where
  before : List Char
  body : List Char
deriving DecidableEq, Repr

/-- A text as its holes, the text after the last of them, and what follows an opening that is
never closed. -/
structure Template where
  holes : List Template.Hole
  last : List Char
  unclosed : Option (List Char)
deriving DecidableEq, Repr

namespace Template

/-! ## Reading a template -/

/-- The text behind a hole is shorter than the text before it. -/
theorem length_rest_lt {cs before inside body rest : List Char}
    (ho : breakOn? opening cs = some (before, inside))
    (hc : breakOn? closing inside = some (body, rest)) : rest.length < cs.length := by
  have h1 := eq_append_of_breakOn? ho
  have h2 := eq_append_of_breakOn? hc
  subst h1 h2
  simp [opening, closing]
  omega

def ofText (cs : List Char) : Template :=
  match _ho : breakOn? opening cs with
  | none => ⟨[], cs, none⟩
  | some (before, inside) =>
    match _hc : breakOn? closing inside with
    | none => ⟨[], before, some inside⟩
    | some (body, rest) =>
      { ofText rest with holes := ⟨before, body⟩ :: (ofText rest).holes }
termination_by cs.length
decreasing_by all_goals exact length_rest_lt _ho _hc

/-! ## Writing and filling -/

/-- The text of a template with each hole's body replaced by what `value` gives for it. -/
def render (value : List Char → List Char) (t : Template) : List Char :=
  t.holes.flatMap (fun hole => hole.before ++ value hole.body) ++ t.last ++
    (match t.unclosed with
    | none => []
    | some tail => opening ++ tail)

def written (body : List Char) : List Char := opening ++ body ++ closing

def text (t : Template) : List Char := t.render written

/-- The named values offered to a template; of two with one name the first counts. -/
abbrev Arguments := List (String × String)

/-- The value named by a hole's body, blanks at both ends apart, or another text when no value has
the name. -/
def valueOr (arguments : Arguments) (body otherwise : List Char) : List Char :=
  match arguments.lookup (String.ofList (Text.trim body)) with
  | some value => value.toList
  | none => otherwise

/-- What a hole shows: its value, or the hole as it is written. -/
def valueOf (arguments : Arguments) (body : List Char) : List Char :=
  valueOr arguments body (written body)

/-- The text of a template with its holes filled. Values go in as they are and are not read
again. -/
def fill (arguments : Arguments) (t : Template) : List Char := t.render (valueOf arguments)

/-! ## Reading loses nothing -/

theorem ofText_of_no_opening {cs : List Char} (h : breakOn? opening cs = none) :
    ofText cs = ⟨[], cs, none⟩ := by
  rw [ofText]; split <;> simp_all

theorem ofText_of_no_closing {cs before inside : List Char}
    (ho : breakOn? opening cs = some (before, inside)) (hc : breakOn? closing inside = none) :
    ofText cs = ⟨[], before, some inside⟩ := by
  rw [ofText]; split <;> simp_all
  split <;> simp_all

theorem ofText_of_hole {cs before inside body rest : List Char}
    (ho : breakOn? opening cs = some (before, inside))
    (hc : breakOn? closing inside = some (body, rest)) :
    ofText cs = { ofText rest with holes := ⟨before, body⟩ :: (ofText rest).holes } := by
  rw [ofText]; split <;> simp_all
  split <;> simp_all

/-- A text is what its template spells. -/
theorem text_ofText (cs : List Char) : (ofText cs).text = cs := by
  generalize hn : cs.length = n
  induction n using Nat.strongRecOn generalizing cs with
  | ind n ih =>
    cases ho : breakOn? opening cs with
    | none => simp [ofText_of_no_opening ho, text, render]
    | some sides =>
      obtain ⟨before, inside⟩ := sides
      have h1 := eq_append_of_breakOn? ho
      cases hc : breakOn? closing inside with
      | none =>
        rw [ofText_of_no_closing ho hc]
        simp [text, render, h1]
      | some sides =>
        obtain ⟨body, rest⟩ := sides
        have h2 := eq_append_of_breakOn? hc
        have hr := ih rest.length (hn ▸ length_rest_lt ho hc) rest rfl
        rw [ofText_of_hole ho hc, h1, h2]
        simp only [text, render, List.flatMap_cons, written, List.append_assoc] at hr ⊢
        rw [hr]

end Template

end AdminPanel
