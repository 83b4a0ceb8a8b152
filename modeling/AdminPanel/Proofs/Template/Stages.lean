import AdminPanel.Proofs.Template.Parts

/-! # Filling in stages

When no value of a first stage has an opening brace, the filled text falls into the parts that the
template has left: a hole with a value has become text, every other hole stands as it did, and no
hole has come up (`Parts.fill`). So filling in two stages is filling at once with all the values, of
which those of the first stage count first (`fill_remaining`). -/
namespace AdminPanel
open Text (Leftmost)

namespace Template

/-! ## Texts in front of a template -/

/-- No opening begins in a text, whatever follows it. -/
def Clear (front : List Char) : Prop :=
  ∀ cs earlier later, front ++ cs = earlier ++ (opening ++ later) → front <+: earlier

theorem prefix_of_not_shorter {front cs earlier rest : List Char}
    (he : front ++ cs = earlier ++ rest) (h : ¬ earlier.length < front.length) :
    front <+: earlier :=
  List.prefix_of_prefix_length_le (List.prefix_append front cs) (he ▸ List.prefix_append ..)
    (Nat.le_of_not_lt h)

theorem clear_of_no_brace {front : List Char} (h : '{' ∉ front) : Clear front := by
  intro cs earlier later he
  refine prefix_of_not_shorter he fun hlt => h ?_
  obtain ⟨rest, hfront⟩ := Text.exists_of_shorter he hlt
  simp [hfront]

/-- The text before a leftmost opening holds none, and does not end in a brace either. -/
theorem clear_of_leftmost {cs before after : List Char} (h : Leftmost opening cs before after) :
    Clear before := by
  intro more earlier later he
  refine prefix_of_not_shorter he fun hlt => ?_
  obtain ⟨rest, hbefore⟩ := Text.exists_of_shorter he hlt
  have hopening : ∃ behind, cs = earlier ++ (opening ++ behind) := by
    cases rest with
    | nil => exact ⟨'{' :: after, by simp [h.split, hbefore, opening]⟩
    | cons c rest =>
      rw [hbefore] at he
      simp only [opening, List.append_assoc, List.append_cancel_left_eq, List.cons_append,
        List.cons.injEq, List.nil_append, true_and] at he
      exact ⟨rest ++ (opening ++ after), by simp [h.split, hbefore, opening, he.1]⟩
  obtain ⟨behind, hcs⟩ := hopening
  exact absurd hlt (Nat.not_lt.mpr (h.first _ _ hcs))

/-- An opening behind a clear text is one of what follows the text. -/
theorem Clear.behind {front cs earlier later : List Char} (h : Clear front)
    (he : front ++ cs = earlier ++ (opening ++ later)) :
    ∃ between, earlier = front ++ between ∧ cs = between ++ (opening ++ later) := by
  obtain ⟨between, rfl⟩ := h _ _ _ he
  rw [List.append_assoc] at he
  exact ⟨between, rfl, List.append_cancel_left he⟩

theorem Clear.append {front more : List Char} (hf : Clear front) (hm : Clear more) :
    Clear (front ++ more) := by
  intro cs earlier later he
  rw [List.append_assoc] at he
  obtain ⟨between, rfl, hmore⟩ := hf.behind he
  exact (List.prefix_append_right_inj front).mpr (hm _ _ _ hmore)

theorem Clear.leftmost {front cs before after : List Char} (hf : Clear front)
    (h : Leftmost opening cs before after) :
    Leftmost opening (front ++ cs) (front ++ before) after := by
  refine ⟨by rw [h.split, List.append_assoc], fun earlier later he => ?_⟩
  obtain ⟨between, rfl, hcs⟩ := hf.behind he
  simpa using h.first _ _ hcs

/-- A template with a text in front of it. -/
def push (front : List Char) (t : Template) : Template :=
  match t.holes with
  | [] => { t with last := front ++ t.last }
  | hole :: holes => { t with holes := { hole with before := front ++ hole.before } :: holes }

theorem Parts.push {front cs : List Char} {t : Template} (hf : Clear front) (h : Parts cs t) :
    Parts (front ++ cs) (t.push front) := by
  cases h with
  | last ho =>
    refine .last fun ⟨earlier, later, he⟩ => ho ?_
    rw [List.append_assoc] at he
    obtain ⟨between, -, hcs⟩ := hf.behind he.symm
    exact ⟨between, later, by rw [hcs, List.append_assoc]⟩
  | unclosed ho hc => exact .unclosed (hf.leftmost ho) hc
  | hole ho hc hrest => exact .hole (hf.leftmost ho) hc hrest

theorem render_cons (value : List Char → List Char) (hole : Hole) (t : Template) :
    (t.cons hole).render value = hole.before ++ (value hole.body ++ t.render value) := by
  simp [cons, render]

theorem render_push (value : List Char → List Char) (front : List Char) (t : Template) :
    (t.push front).render value = front ++ t.render value := by
  unfold push
  split <;> rename_i h <;> simp [render, h]

/-! ## What a stage leaves -/

/-- The value that a hole gets, if an argument has its name. -/
def value? (arguments : Arguments) (body : List Char) : Option (List Char) :=
  (arguments.lookup (String.ofList (Text.trim body))).map String.toList

theorem valueOf_eq (arguments : Arguments) (body : List Char) :
    valueOf arguments body = (value? arguments body).getD (written body) := by
  rw [valueOf, valueOr, value?]
  cases arguments.lookup (String.ofList (Text.trim body)) <;> rfl

theorem mem_of_value? {arguments : Arguments} {body value : List Char}
    (h : value? arguments body = some value) :
    ∃ argument ∈ arguments, argument.2.toList = value := by
  obtain ⟨found, hl, rfl⟩ := Option.map_eq_some_iff.mp h
  obtain ⟨earlier, later, rfl, -⟩ := List.lookup_eq_some_iff.mp hl
  exact ⟨_, List.mem_append_right earlier List.mem_cons_self, rfl⟩

theorem value?_append (first second : Arguments) (body : List Char) :
    value? (first ++ second) body = (value? first body).or (value? second body) := by
  rw [value?, List.lookup_append, Option.map_or]
  rfl

/-- The part of a template that filling leaves when it begins with a hole. -/
def leave (arguments : Arguments) (hole : Hole) (t : Template) : Template :=
  match value? arguments hole.body with
  | some value => t.push (hole.before ++ value)
  | none => t.cons hole

/-- What filling leaves of a template: the holes without a value, and the filled ones in the texts
between them. -/
def remaining (arguments : Arguments) (t : Template) : Template :=
  t.holes.foldr (leave arguments) { t with holes := [] }

theorem remaining_cons (arguments : Arguments) (hole : Hole) (t : Template) :
    (t.cons hole).remaining arguments = leave arguments hole (t.remaining arguments) := rfl

/-- **A filled text falls into what filling leaves of the template**, when no value has an opening
brace. -/
theorem Parts.fill {arguments : Arguments} (hv : ∀ argument ∈ arguments, '{' ∉ argument.2.toList)
    {cs : List Char} {t : Template} (h : Parts cs t) :
    Parts (t.fill arguments) (t.remaining arguments) := by
  induction h with
  | last ho => simpa [Template.fill, render, remaining] using Parts.last ho
  | unclosed ho hc =>
    have hcs := ho.split
    simpa [Template.fill, render, remaining, hcs] using Parts.unclosed ho hc
  | @hole cs before inside body rest t ho hc hrest ih =>
    rw [Template.fill, render_cons, remaining_cons, leave, valueOf_eq]
    cases hb : value? arguments body with
    | some value =>
      obtain ⟨argument, hmem, rfl⟩ := mem_of_value? hb
      have hclear := (clear_of_leftmost ho).append (clear_of_no_brace (hv argument hmem))
      rw [Option.getD_some, ← List.append_assoc]
      exact ih.push hclear
    | none =>
      rw [Option.getD_none, written, List.append_assoc, List.append_assoc]
      exact .hole (ho.congr _) (hc.congr _) ih

theorem fill_leave (first second : Arguments) (hole : Hole) (t : Template) :
    (leave first hole t).fill second =
      hole.before ++ (valueOf (first ++ second) hole.body ++ t.fill second) := by
  rw [leave, valueOf_eq, value?_append]
  cases value? first hole.body with
  | some value => exact (render_push ..).trans (List.append_assoc ..)
  | none =>
    rw [Option.none_or, ← valueOf_eq]
    exact render_cons ..

/-- A second stage fills what the first has left. -/
theorem fill_remaining (first second : Arguments) (t : Template) :
    (t.remaining first).fill second = t.fill (first ++ second) := by
  obtain ⟨holes, last, unclosed⟩ := t
  induction holes with
  | nil => rfl
  | cons hole holes ih =>
    let t : Template := ⟨holes, last, unclosed⟩
    calc (leave first hole (t.remaining first)).fill second
        = hole.before ++ (valueOf (first ++ second) hole.body ++ (t.remaining first).fill second) :=
          fill_leave ..
      _ = hole.before ++ (valueOf (first ++ second) hole.body ++ t.fill (first ++ second)) := by
          rw [ih]
      _ = (t.cons hole).fill (first ++ second) := (render_cons ..).symm

theorem valueOf_append_self (arguments : Arguments) :
    valueOf (arguments ++ arguments) = valueOf arguments := by
  funext body
  rw [valueOf_eq, valueOf_eq, value?_append, Option.or_self]

theorem bodies_push (front : List Char) (t : Template) :
    (t.push front).holes.map Hole.body = t.holes.map Hole.body := by
  unfold push
  split <;> rename_i h <;> simp [h]

/-- The holes that a stage leaves are those without a value, each once and in their order. -/
theorem bodies_remaining (arguments : Arguments) (t : Template) :
    (t.remaining arguments).holes.map Hole.body =
      (t.holes.map Hole.body).filter fun body => (value? arguments body).isNone := by
  obtain ⟨holes, last, unclosed⟩ := t
  induction holes with
  | nil => rfl
  | cons hole holes ih =>
    show (leave arguments hole _).holes.map Hole.body = _
    rw [leave, List.map_cons, List.filter_cons]
    cases value? arguments hole.body with
    | some value => exact (bodies_push ..).trans ih
    | none => exact congrArg (hole.body :: ·) ih

end Template

/-- **Filling in stages is filling at once**, when no value of the first stage has an opening brace:
the values of both stages count, those of the first one first, so a stage can be repeated at will. A
stage takes the holes with its names out of the template and leaves all others as they are. -/
theorem interpolate_interpolate {first : Template.Arguments}
    (h : ∀ argument ∈ first, '{' ∉ argument.2.toList) (template : String)
    (second : Template.Arguments) :
    interpolate (interpolate template first) second = interpolate template (first ++ second) ∧
      interpolate (interpolate template first) first = interpolate template first ∧
      (Template.ofText (interpolate template first).toList).holes.map Template.Hole.body =
        ((Template.ofText template.toList).holes.map Template.Hole.body).filter fun body =>
          (Template.value? first body).isNone := by
  have hparts := (Template.parts_ofText template.toList).fill h
  have hleft : Template.ofText (interpolate template first).toList =
      (Template.ofText template.toList).remaining first := by
    rw [interpolate_eq, String.toList_ofList, hparts.eq_ofText]
  have hstages : ∀ more, interpolate (interpolate template first) more =
      interpolate template (first ++ more) := by
    intro more
    rw [interpolate_eq, hleft, Template.fill_remaining, interpolate_eq]
  refine ⟨hstages second, ?_, ?_⟩
  · rw [hstages, interpolate_eq, interpolate_eq, Template.fill, Template.valueOf_append_self]
    rfl
  · rw [hleft, Template.bodies_remaining]

/-- A value that closes, and one that opens in the second stage, among braces that belong to names. -/
theorem interpolate_interpolate_of_braces :
    let template := "\x7b\x7b\x7ba\x7d\x7d\x7b\x7b b \x7d\x7d\x7d\x7d\x7b\x7bc"
    let first : Template.Arguments := [("\x7ba", "\x7d\x7d"), ("c", "")]
    let second : Template.Arguments := [("b", "\x7b\x7bc\x7d\x7d")]
    interpolate (interpolate template first) second = interpolate template (first ++ second) ∧
      interpolate (interpolate template first) first = interpolate template first := by
  intro template first second
  have hvalues : ∀ argument ∈ first, '{' ∉ argument.2.toList := by decide
  obtain ⟨hstages, htwice, -⟩ := interpolate_interpolate hvalues template second
  exact ⟨hstages, htwice⟩

end AdminPanel
