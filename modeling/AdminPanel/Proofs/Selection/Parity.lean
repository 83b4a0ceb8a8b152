import AdminPanel.Selection.Basic
import Mathlib.Algebra.Ring.Parity
import Mathlib.Data.List.Sort

/-! # Toggled rows

A toggle changes one id and leaves all others, so a run of toggles works on each id by itself: what
counts is whether an id was toggled an odd number of times (`mem_toggled`). A selection is told by
its ids alone, hence neither the order of the toggles nor a pair of equal ones shows in what a run
leaves (`toggled_by_parity`). -/
namespace AdminPanel.Selection

/-- Two selections with the same ids are one. -/
theorem ext_mem {a b : Selection} (h : ∀ x, x ∈ a ↔ x ∈ b) : a = b := by
  have hids : a.ids = b.ids := a.ascending.eq_of_mem_iff b.ascending h
  cases a
  cases b
  cases hids
  rfl

theorem nodup_ids (s : Selection) : s.ids.Nodup := by
  refine s.ascending.imp ?_
  intro a b hlt he
  rw [he] at hlt
  exact String.lt_irrefl b hlt

/-! ## The order of the ids -/

def codePoints (id : String) : List Nat := id.toList.map Char.toNat

theorem codePoints_lt {a b : String} (h : a < b) : codePoints a < codePoints b :=
  List.map_lt (fun _ _ hc => hc) (String.lt_iff.mp h)

/-! ## Runs of toggles -/

/-- The selection after each id of a list has been toggled in turn. -/
def toggled (s : Selection) (ids : List String) : Selection := ids.foldl toggle s

/-- By induction on the toggles: the first one changes the presence of its id, and with it the
number of times that id is still to be toggled. -/
theorem mem_toggled {s : Selection} {ids : List String} {x : String} :
    x ∈ s.toggled ids ↔ Xor (x ∈ s) (Odd (ids.count x)) := by
  induction ids generalizing s with
  | nil => simp [toggled, Xor]
  | cons id ids ih =>
    have hstep : s.toggled (id :: ids) = (s.toggle id).toggled ids := rfl
    rw [hstep, ih, mem_toggle]
    by_cases hx : x = id
    · subst hx
      rw [if_pos rfl, List.count_cons_self, Nat.odd_add_one, xor_not_left, xor_iff_not_iff]
      tauto
    · rw [if_neg hx, List.count_cons_of_ne (Ne.symm hx)]

/-- Runs that toggle the same ids an odd number of times leave the same selection. -/
theorem toggled_congr (s : Selection) {ids others : List String}
    (h : ∀ x, Odd (ids.count x) ↔ Odd (others.count x)) : s.toggled ids = s.toggled others := by
  refine ext_mem fun x => ?_
  rw [mem_toggled, mem_toggled, h]

theorem toggle_toggle (s : Selection) (id : String) : (s.toggle id).toggle id = s := by
  have heven : ∀ x, Odd ([id, id].count x) ↔ Odd (([] : List String).count x) := by
    intro x
    by_cases hx : x = id
    · subst hx
      simp
    · simp [List.count_cons_of_ne (Ne.symm hx)]
  exact s.toggled_congr heven

/-- **Toggles act on each id by parity.** After any run of toggles an id is selected when it was
before, or else was toggled an odd number of times, but not both. The order of the toggles does not
matter, two toggles of an id take each other back, ids that are not toggled stay as they were, and
the ids ascend by code points, each of them once. -/
theorem toggled_by_parity (s : Selection) (ids : List String) :
    (∀ x, x ∈ s.toggled ids ↔ Xor (x ∈ s) (Odd (ids.count x))) ∧
    (∀ others, others.Perm ids → s.toggled others = s.toggled ids) ∧
    (∀ id, (s.toggle id).toggle id = s) ∧
    (∀ x, x ∉ ids → (x ∈ s.toggled ids ↔ x ∈ s)) ∧
    (s.toggled ids).ids.Pairwise (fun a b => codePoints a < codePoints b) ∧
    (s.toggled ids).ids.Nodup := by
  refine ⟨fun x => mem_toggled, fun others hp => ?_, s.toggle_toggle, fun x hx => ?_, ?_, ?_⟩
  · exact s.toggled_congr fun x => by rw [hp.count_eq]
  · have hnone : ids.count x = 0 := List.count_eq_zero.mpr hx
    rw [mem_toggled, hnone]
    simp [Xor]
  · exact (s.toggled ids).ascending.imp codePoints_lt
  · exact nodup_ids _

/-- An id that was selected goes, one that is toggled three times comes, one that is toggled twice or
not at all stays as it was; the order by code points is not that of the alphabet. -/
theorem toggled_of_five_toggles :
    let s := ofList ["b", "z"]
    let ids := ["é", "b", "é", "a", "a", "é"]
    ids.reverse.Perm ids ∧ s.toggled ids.reverse = s.toggled ids ∧
      "z" ∉ ids ∧ ("z" ∈ s.toggled ids ↔ "z" ∈ s) ∧ (s.toggled ids).ids = ["z", "é"] := by
  intro s ids
  obtain ⟨-, horder, -, hothers, -⟩ := toggled_by_parity s ids
  have hp : ids.reverse.Perm ids := List.reverse_perm ids
  have hz : "z" ∉ ids := by decide
  exact ⟨hp, horder _ hp, hz, hothers _ hz, by decide +kernel⟩

end AdminPanel.Selection
