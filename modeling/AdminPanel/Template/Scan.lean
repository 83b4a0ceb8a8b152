import AdminPanel.Template.Basic

/-! # Filling by byte offsets

The scan that fills a text in one pass: search for an opening, search for a closing in the text
after it, slice out what the two offsets enclose, and go on behind the closing. Every slice may be
out of place, and then the scan has no result.

**`fill?_eq`**: each slice is in place, so the scan always has a result, and it is the filled
template. -/

namespace AdminPanel.Template.Scan

open Text (find? slice? sliceFrom? breakOn? byteLength slice?_append sliceFrom?_append
  find?_eq_breakOn? eq_append_of_breakOn?)

/-- One round of the scan at the text `rest`: the offset of the opening in `rest`, the offset of
the closing in the text after the opening, and the slices taken with them. -/
structure Round where
  rest : List Char
  openingAt : Nat
  closingAt : Nat
  before : List Char
  body : List Char
  written : List Char
  next : List Char

/-- How a round ends: no opening is left, or an opening has no closing, or a hole was found. -/
inductive Outcome where
  | noOpening (rest : List Char)
  | noClosing (before tail : List Char)
  | hole (round : Round)

/-- One round; `none` when a slice is out of place. -/
def round? (rest : List Char) : Option Outcome :=
  match find? opening rest with
  | none => some (.noOpening rest)
  | some openingAt => do
    let before ← slice? rest 0 openingAt
    let inside ← sliceFrom? rest (openingAt + 2)
    match find? closing inside with
    | none => return .noClosing before (← sliceFrom? rest openingAt)
    | some closingAt => do
      let body ← slice? inside 0 closingAt
      let written ← slice? rest openingAt (openingAt + closingAt + 4)
      let next ← sliceFrom? inside (closingAt + 2)
      return .hole ⟨rest, openingAt, closingAt, before, body, written, next⟩

/-! ## Every slice is in place -/

theorem round?_of_no_opening {rest : List Char} (h : breakOn? opening rest = none) :
    round? rest = some (.noOpening rest) := by
  simp [round?, find?_eq_breakOn?, h]

theorem round?_of_no_closing {rest before inside : List Char}
    (ho : breakOn? opening rest = some (before, inside)) (hc : breakOn? closing inside = none) :
    round? rest = some (.noClosing before (opening ++ inside)) := by
  have h1 := eq_append_of_breakOn? ho
  have s1 : slice? rest 0 (byteLength before) = some before := by
    have := slice?_append [] before (opening ++ inside)
    simpa [h1] using this
  have s2 : sliceFrom? rest (byteLength before + 2) = some inside := by
    have := sliceFrom?_append (before ++ opening) inside
    simpa [h1, opening, Char.utf8Size] using this
  have s3 : sliceFrom? rest (byteLength before) = some (opening ++ inside) := by
    simpa [h1] using sliceFrom?_append before (opening ++ inside)
  simp [round?, find?_eq_breakOn?, ho, hc, s1, s2, s3]

/-- The slices of a round that finds a hole are the parts of the broken text. -/
theorem round?_of_hole {rest before inside body next : List Char}
    (ho : breakOn? opening rest = some (before, inside))
    (hc : breakOn? closing inside = some (body, next)) :
    round? rest = some (.hole
      ⟨rest, byteLength before, byteLength body, before, body, written body, next⟩) := by
  have h1 := eq_append_of_breakOn? ho
  have h2 := eq_append_of_breakOn? hc
  have s1 : slice? rest 0 (byteLength before) = some before := by
    have := slice?_append [] before (opening ++ inside)
    simpa [h1] using this
  have s2 : sliceFrom? rest (byteLength before + 2) = some inside := by
    have := sliceFrom?_append (before ++ opening) inside
    simpa [h1, opening, Char.utf8Size] using this
  have s3 : slice? inside 0 (byteLength body) = some body := by
    have := slice?_append [] body (closing ++ next)
    simpa [h2] using this
  have s4 : slice? rest (byteLength before) (byteLength before + byteLength body + 4) =
      some (written body) := by
    have := slice?_append before (written body) next
    have hb : byteLength (written body) = byteLength body + 4 := by
      simp [written, opening, closing, Char.utf8Size]; omega
    rw [hb] at this
    simpa [h1, h2, written, Nat.add_assoc] using this
  have s5 : sliceFrom? inside (byteLength body + 2) = some next := by
    have := sliceFrom?_append (body ++ closing) next
    simpa [h2, closing, Char.utf8Size] using this
  simp [round?, find?_eq_breakOn?, ho, hc, s1, s2, s3, s4, s5]

/-- A round that finds a hole has broken its text twice. -/
theorem exists_breaks_of_hole {rest : List Char} {round : Round}
    (h : round? rest = some (.hole round)) :
    ∃ inside, breakOn? opening rest = some (round.before, inside) ∧
      breakOn? closing inside = some (round.body, round.next) ∧
      round.written = written round.body := by
  cases ho : breakOn? opening rest with
  | none => simp [round?_of_no_opening ho] at h
  | some sides =>
    obtain ⟨before, inside⟩ := sides
    cases hc : breakOn? closing inside with
    | none => simp [round?_of_no_closing ho hc] at h
    | some sides =>
      obtain ⟨body, next⟩ := sides
      rw [round?_of_hole ho hc] at h
      simp only [Option.some.injEq, Outcome.hole.injEq] at h
      subst h
      exact ⟨inside, rfl, hc, rfl⟩

/-- A round that finds a hole leaves a shorter text. -/
theorem length_next_lt {rest : List Char} {round : Round} (h : round? rest = some (.hole round)) :
    round.next.length < rest.length := by
  obtain ⟨inside, ho, hc, -⟩ := exists_breaks_of_hole h
  exact length_rest_lt ho hc

/-! ## The scan -/

/-- The filled text; `none` when a slice is out of place. -/
def fill? (arguments : Arguments) (rest : List Char) : Option (List Char) :=
  match _h : round? rest with
  | none => none
  | some (.noOpening rest) => some rest
  | some (.noClosing before tail) => some (before ++ tail)
  | some (.hole round) =>
    (fill? arguments round.next).map fun filled =>
      round.before ++ valueOr arguments round.body round.written ++ filled
termination_by rest.length
decreasing_by exact length_next_lt _h

theorem fill?_of_round {arguments : Arguments} {rest : List Char} {outcome : Outcome}
    (h : round? rest = some outcome) :
    fill? arguments rest = match outcome with
      | .noOpening rest => some rest
      | .noClosing before tail => some (before ++ tail)
      | .hole round => (fill? arguments round.next).map fun filled =>
          round.before ++ valueOr arguments round.body round.written ++ filled := by
  rw [fill?]
  split <;> rename_i heq <;> rw [h] at heq <;> cases heq <;> rfl

/-- The scan gives the filled template of the text, whatever the text and the values. -/
theorem fill?_eq (arguments : Arguments) (rest : List Char) :
    fill? arguments rest = some ((ofText rest).fill arguments) := by
  generalize hn : rest.length = n
  induction n using Nat.strongRecOn generalizing rest with
  | ind n ih =>
    cases ho : breakOn? opening rest with
    | none =>
      rw [fill?_of_round (round?_of_no_opening ho), ofText_of_no_opening ho]
      simp [fill, render]
    | some sides =>
      obtain ⟨before, inside⟩ := sides
      cases hc : breakOn? closing inside with
      | none =>
        rw [fill?_of_round (round?_of_no_closing ho hc), ofText_of_no_closing ho hc]
        simp [fill, render]
      | some sides =>
        obtain ⟨body, next⟩ := sides
        have hnext := ih next.length (hn ▸ length_rest_lt ho hc) next rfl
        rw [fill?_of_round (round?_of_hole ho hc), ofText_of_hole ho hc]
        simp [hnext, fill, render, valueOf]

end AdminPanel.Template.Scan

namespace AdminPanel

/-- A text with its holes filled from named values. -/
def interpolate (template : String) (arguments : Template.Arguments) : String :=
  String.ofList ((Template.Scan.fill? arguments template.toList).get
    (by rw [Template.Scan.fill?_eq]; rfl))

theorem interpolate_eq (template : String) (arguments : Template.Arguments) :
    interpolate template arguments =
      String.ofList ((Template.ofText template.toList).fill arguments) := by
  simp [interpolate, Template.Scan.fill?_eq]

end AdminPanel
