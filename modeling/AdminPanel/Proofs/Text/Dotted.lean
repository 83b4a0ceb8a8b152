import AdminPanel.Text.Basic
import Mathlib.Data.List.Basic

/-! # Dotted paths

Names joined by dots come apart into the same names, if there is at least one and none of them holds
a dot. Since every text is the join of its own parts, such names have one path and no other
(`dotted_eq_iff`). -/
namespace AdminPanel.Text

theorem splitWhere_eq_splitOnP (isSeparator : Char → Bool) (cs : List Char) :
    splitWhere isSeparator cs = cs.splitOnP isSeparator := by
  induction cs with
  | nil => rfl
  | cons c cs ih =>
    rw [splitWhere, List.splitOnP_cons_eq_if_modifyHead, ih]
    by_cases hc : isSeparator c = true
    · rw [if_pos hc, if_pos hc]
    · rw [if_neg hc, if_neg hc]
      cases hparts : cs.splitOnP isSeparator with
      | nil => exact absurd (ih.trans hparts) (splitWhere_ne_nil _ _)
      | cons part parts => rfl

theorem splitWhere_eq_splitOn (separator : Char) (cs : List Char) :
    splitWhere (· == separator) cs = cs.splitOn separator := by
  rw [splitWhere_eq_splitOnP, List.splitOn_eq_splitOnP]

/-- The path that names its parts. -/
def joined (names : List String) : String := ".".intercalate names

theorem joined_dotted (path : String) : joined (dotted path) = path := by
  have hparts : (dotted path).map String.toList = path.toList.splitOn '.' := by
    rw [dotted, List.map_map, splitWhere_eq_splitOn]
    simp
  rw [← String.toList_inj, joined, String.toList_intercalate, hparts]
  exact List.intercalate_splitOn '.'

theorem dotted_joined {names : List String} (hne : names ≠ [])
    (h : ∀ name ∈ names, '.' ∉ name.toList) : dotted (joined names) = names := by
  have hparts : (joined names).toList.splitOn '.' = names.map String.toList := by
    rw [joined, String.toList_intercalate]
    refine List.splitOn_intercalate '.' ?_ (by simpa using hne)
    intro part hp
    obtain ⟨name, hn, rfl⟩ := List.mem_map.mp hp
    exact h name hn
  rw [dotted, splitWhere_eq_splitOn, hparts, List.map_map]
  simp

/-- The only path with these names is their join. -/
theorem dotted_eq_iff {path : String} {names : List String} (hne : names ≠ [])
    (h : ∀ name ∈ names, '.' ∉ name.toList) : dotted path = names ↔ path = joined names := by
  constructor
  · rintro rfl
    exact (joined_dotted path).symm
  · rintro rfl
    exact dotted_joined hne h

end AdminPanel.Text
