import AdminPanel.Proofs.Template.Parts

/-! # Templates with one hole

A template whose only braces are those of one hole is filled by putting the value in the place of
the hole, and nothing else changes. -/
namespace AdminPanel
open Text (Leftmost breakOn?)

namespace Template

theorem ofText_of_one_hole {before body after : List Char} (hb : '{' ∉ before) (hy : '}' ∉ body)
    (ha : '{' ∉ after) :
    ofText (before ++ (written body ++ after)) = ⟨[⟨before, body⟩], after, none⟩ := by
  have ho : Leftmost opening (before ++ (written body ++ after)) before
      (body ++ (closing ++ after)) := by
    have := Leftmost.of_not_mem hb ['{'] (body ++ (closing ++ after))
    simpa [written, opening] using this
  have hc : Leftmost closing (body ++ (closing ++ after)) body after :=
    .of_not_mem hy ['}'] after
  exact (Parts.hole ho hc (.last (Text.not_infix_of_not_mem ha))).eq_ofText.symm

/-- The hole for a number, as the texts of the panel write it. -/
def numberHole : String := "\x7b\x7b number \x7d\x7d"

/-- A text is a template with a value in the place of its one hole. -/
def FillsHole (template value text : String) : Prop :=
  ∃ before after : String, template = before ++ numberHole ++ after ∧
    '{' ∉ before.toList ∧ '{' ∉ after.toList ∧ text = before ++ value ++ after

/-- A template has the hole, and no brace of another one. -/
def hasOneHole (template : String) : Bool :=
  match breakOn? numberHole.toList template.toList with
  | some (before, after) => !before.contains '{' && !after.contains '{'
  | none => false

theorem eq_append_of_hasOneHole {template : String} (h : hasOneHole template = true) :
    ∃ before after : String, template = before ++ numberHole ++ after ∧
      '{' ∉ before.toList ∧ '{' ∉ after.toList := by
  unfold hasOneHole at h
  split at h
  · rename_i before after hb
    have ht := congrArg String.ofList (Text.eq_append_of_breakOn? hb)
    simp only [String.ofList_toList, String.ofList_append] at ht
    obtain ⟨hl, hr⟩ := Bool.and_eq_true_iff.mp h
    refine ⟨String.ofList before, String.ofList after, ?_, by simpa using hl, by simpa using hr⟩
    rw [ht, String.append_assoc]
  · cases h

theorem interpolate_numberHole {before after : String} (hb : '{' ∉ before.toList)
    (ha : '{' ∉ after.toList) (value : String) :
    interpolate (before ++ numberHole ++ after) [("number", value)] = before ++ value ++ after := by
  have ht : (before ++ numberHole ++ after).toList =
      before.toList ++ (written " number ".toList ++ after.toList) := by
    rw [String.toList_append, String.toList_append, List.append_assoc]
    rfl
  have hv : valueOf [("number", value)] " number ".toList = value.toList := by
    have hn : String.ofList (Text.trim " number ".toList) = "number" := by decide +kernel
    rw [valueOf, valueOr, hn]
    rfl
  rw [interpolate_eq, ht, ofText_of_one_hole hb (by decide) ha]
  simp only [fill, render, List.flatMap_cons, List.flatMap_nil, List.append_nil, hv,
    String.ofList_append, String.ofList_toList]

end Template

end AdminPanel
