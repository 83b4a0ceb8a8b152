import AdminPanel.Proofs.Text.Occurrence
import AdminPanel.Proofs.Text.Trim
import AdminPanel.Template.Scan

/-! # The parts of a template

A text falls into holes and the texts between them in one way only, if every opening is the leftmost
one behind the hole before it and every closing the leftmost one behind its opening
(`parts_iff`). Filling leaves all parts as they are but the holes that have a value
(`interpolate_eq_render_parts`). -/
namespace AdminPanel
open Text (Leftmost Trimmed breakOn? breakOn?_eq_some_iff breakOn?_eq_none_iff)

namespace Template

/-! ## Parts -/

/-- A template with one more hole in front. -/
def cons (hole : Hole) (t : Template) : Template := { t with holes := hole :: t.holes }

/-- A text falls into the parts of a template. Braces that open or close nothing belong to the part
they stand in. -/
inductive Parts : List Char → Template → Prop
  | last {cs : List Char} : ¬ opening <:+: cs → Parts cs ⟨[], cs, none⟩
  | unclosed {cs before tail : List Char} : Leftmost opening cs before tail →
      ¬ closing <:+: tail → Parts cs ⟨[], before, some tail⟩
  | hole {cs before inside body rest : List Char} {t : Template} :
      Leftmost opening cs before inside → Leftmost closing inside body rest → Parts rest t →
      Parts cs (t.cons ⟨before, body⟩)

theorem parts_ofText (cs : List Char) : Parts cs (ofText cs) := by
  induction cs using ofText.induct with
  | case1 cs ho =>
    rw [ofText_of_no_opening ho]
    exact .last (breakOn?_eq_none_iff.mp ho)
  | case2 cs before tail ho hc =>
    rw [ofText_of_no_closing ho hc]
    exact .unclosed (breakOn?_eq_some_iff.mp ho) (breakOn?_eq_none_iff.mp hc)
  | case3 cs before inside ho body rest hc ih =>
    rw [ofText_of_hole ho hc]
    exact .hole (breakOn?_eq_some_iff.mp ho) (breakOn?_eq_some_iff.mp hc) ih

theorem Parts.eq_ofText {cs : List Char} {t : Template} (h : Parts cs t) : t = ofText cs := by
  induction h with
  | last ho => rw [ofText_of_no_opening (breakOn?_eq_none_iff.mpr ho)]
  | unclosed ho hc =>
    rw [ofText_of_no_closing (breakOn?_eq_some_iff.mpr ho) (breakOn?_eq_none_iff.mpr hc)]
  | hole ho hc _ ih =>
    rw [ofText_of_hole (breakOn?_eq_some_iff.mpr ho) (breakOn?_eq_some_iff.mpr hc), ← ih, cons]

/-- **A text falls into the parts of one template.** -/
theorem parts_iff {cs : List Char} {t : Template} : Parts cs t ↔ t = ofText cs :=
  ⟨Parts.eq_ofText, fun h => h ▸ parts_ofText cs⟩

/-! ## Values -/

/-- What a hole shows: the value of the first argument that has the name in the hole, blanks around
the name apart, or the hole as it is written. -/
inductive Shows (arguments : Arguments) (body : List Char) : List Char → Prop
  | value {earlier later : Arguments} {name value : String} :
      arguments = earlier ++ (name, value) :: later → Trimmed body name.toList →
      (∀ argument ∈ earlier, argument.1 ≠ name) → Shows arguments body value.toList
  | written : (∀ argument ∈ arguments, ¬ Trimmed body argument.1.toList) →
      Shows arguments body (opening ++ body ++ closing)

theorem trimmed_toList_iff {body : List Char} {name : String} :
    Trimmed body name.toList ↔ String.ofList (Text.trim body) = name := by
  rw [← Text.trim_eq_iff]
  constructor
  · intro h
    rw [h, String.ofList_toList]
  · rintro rfl
    rw [String.toList_ofList]

/-- A hole shows one text, and it is the one that filling puts in its place. -/
theorem shows_iff {arguments : Arguments} {body text : List Char} :
    Shows arguments body text ↔ text = valueOf arguments body := by
  rw [valueOf, valueOr]
  constructor
  · rintro (⟨he, hname, hfirst⟩ | hnone)
    · rw [trimmed_toList_iff.mp hname, List.lookup_eq_some_iff.mpr ⟨_, _, he, fun argument hmem =>
        bne_iff_ne.mpr (Ne.symm (hfirst argument hmem))⟩]
    · rw [List.lookup_eq_none_iff.mpr fun argument hmem => bne_iff_ne.mpr fun hn =>
        hnone argument hmem (trimmed_toList_iff.mpr hn)]
      rfl
  · rintro rfl
    cases hl : arguments.lookup (String.ofList (Text.trim body)) with
    | some value =>
      obtain ⟨earlier, later, he, hfirst⟩ := List.lookup_eq_some_iff.mp hl
      refine .value he (trimmed_toList_iff.mpr rfl) fun argument hmem hn => ?_
      exact bne_iff_ne.mp (hfirst argument hmem) hn.symm
    | none =>
      refine .written fun argument hmem hn => ?_
      have hne := List.lookup_eq_none_iff.mp hl argument hmem
      exact bne_iff_ne.mp hne (trimmed_toList_iff.mp hn)

end Template

/-- **Filling a text is by its parts.** The text has one decomposition into parts. Whatever the named
values are, all of it stays as it is but the holes; each hole becomes the one text that it shows,
which goes in as it is and is not read again. -/
theorem interpolate_eq_render_parts (template : String) :
    ∃ t : Template, (∀ other, Template.Parts template.toList other ↔ other = t) ∧
      t.text = template.toList ∧
      ∀ arguments : Template.Arguments, ∃ shown : List Char → List Char,
        (∀ body text, Template.Shows arguments body text ↔ text = shown body) ∧
          interpolate template arguments = String.ofList (t.render shown) := by
  refine ⟨Template.ofText template.toList, fun other => Template.parts_iff,
    Template.text_ofText _, fun arguments => ⟨Template.valueOf arguments, ?_, ?_⟩⟩
  · exact fun body text => Template.shows_iff
  · exact interpolate_eq template arguments

end AdminPanel
