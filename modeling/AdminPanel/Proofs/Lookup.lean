import Mathlib.Data.List.Nodup

/-! # Looking names up

Among entries with distinct names it does not matter where an entry stands: its name finds it. -/
namespace AdminPanel

variable {β : Type} {entries entries' : List (String × β)}

/-- Among entries with distinct names, looking a name up finds the entry that has it. -/
theorem lookup_eq_some_iff_mem (h : (entries.map Prod.fst).Nodup) (name : String) (value : β) :
    entries.lookup name = some value ↔ (name, value) ∈ entries := by
  induction entries with
  | nil => simp
  | cons entry entries ih =>
    obtain ⟨first, given⟩ := entry
    obtain ⟨hm, hd⟩ := List.nodup_cons.mp h
    by_cases hn : name = first
    · subst hn
      have hnot : (name, value) ∉ entries := fun hmem => hm (List.mem_map.mpr ⟨_, hmem, rfl⟩)
      simp [hnot, eq_comm]
    · have hb : (name == first) = false := by simpa using hn
      simp only [List.lookup_cons, hb, ih hd, List.mem_cons, Prod.mk.injEq, hn, false_and, false_or]

/-- An entry with a name of its own is found wherever it stands. -/
theorem lookup_eq_of_perm (hp : entries.Perm entries') (h : (entries.map Prod.fst).Nodup)
    (name : String) : entries.lookup name = entries'.lookup name := by
  have h' : (entries'.map Prod.fst).Nodup := (hp.map Prod.fst).nodup_iff.mp h
  refine Option.ext fun value => ?_
  rw [lookup_eq_some_iff_mem h, lookup_eq_some_iff_mem h', hp.mem_iff]

/-! ## Names and values side by side -/

theorem names_zip (names : List String) (values : List β) :
    (names.zip values).map Prod.fst <+: names := by
  induction names generalizing values with
  | nil => exact List.prefix_rfl
  | cons name names ih =>
    cases values with
    | nil => exact List.nil_prefix
    | cons value values => exact List.cons_prefix_cons.mpr ⟨rfl, ih values⟩

/-- Where names and values stand side by side, each name has the value at its own place. -/
theorem lookup_zip {names : List String} (h : names.Nodup) (values : List β) {i : Nat}
    {name : String} (hi : names[i]? = some name) :
    (names.zip values).lookup name = values[i]? := by
  induction names generalizing values i with
  | nil => cases hi
  | cons first names ih =>
    obtain ⟨hm, hd⟩ := List.nodup_cons.mp h
    cases values with
    | nil => simp
    | cons value values =>
      cases i with
      | zero =>
        cases hi
        simp
      | succ i =>
        have hi : names[i]? = some name := hi
        have hne : (name == first) = false :=
          beq_false_of_ne fun he => hm (he ▸ List.mem_of_getElem? hi)
        simp only [List.zip_cons_cons, List.getElem?_cons_succ, List.lookup_cons, hne,
          ih hd values hi]

end AdminPanel
