/-! # Selections

A selection is a set of row ids, kept as a list that ascends strictly by code points, so that two
selections with the same ids are equal. -/

namespace AdminPanel

structure Selection where
  ids : List String
  ascending : ids.Pairwise (· < ·)

namespace Selection

instance : DecidableEq Selection := fun a b =>
  decidable_of_iff (a.ids = b.ids) (by cases a; cases b; simp)

def empty : Selection := ⟨[], .nil⟩

instance : Inhabited Selection := ⟨empty⟩

def size (s : Selection) : Nat := s.ids.length

def isEmpty (s : Selection) : Bool := s.ids.isEmpty

def contains (s : Selection) (id : String) : Bool := s.ids.contains id

instance : Membership String Selection := ⟨fun s id => id ∈ s.ids⟩

instance (id : String) (s : Selection) : Decidable (id ∈ s) :=
  inferInstanceAs (Decidable (id ∈ s.ids))

/-! ## Insertion and removal -/

/-- The list with an id at its place; an id that is in the list stays there once. -/
def insertAt (id : String) : List String → List String
  | [] => [id]
  | other :: others =>
    if id < other then id :: other :: others
    else if id = other then other :: others
    else other :: insertAt id others

theorem mem_insertAt {id x : String} {ids : List String} :
    x ∈ insertAt id ids ↔ x = id ∨ x ∈ ids := by
  induction ids with
  | nil => simp [insertAt]
  | cons other others ih =>
    simp only [insertAt]
    split
    · simp
    · split
      · rename_i h; subst h; simp
      · simp only [List.mem_cons, ih]; grind

theorem pairwise_insertAt {id : String} {ids : List String} (h : ids.Pairwise (· < ·)) :
    (insertAt id ids).Pairwise (· < ·) := by
  induction ids with
  | nil => simp [insertAt]
  | cons other others ih =>
    obtain ⟨ha, ht⟩ := List.pairwise_cons.mp h
    simp only [insertAt]
    split
    · rename_i hlt
      refine List.pairwise_cons.mpr ⟨?_, h⟩
      intro x hx
      rcases List.mem_cons.mp hx with rfl | hx
      · exact hlt
      · exact String.lt_trans hlt (ha x hx)
    · split
      · exact h
      · rename_i hnlt hne
        have hgt : other < id := by
          rcases String.le_total other id with hle | hle
          · exact Decidable.byContradiction fun hn =>
              hne (String.le_antisymm (String.not_lt.mp hn) hle)
          · exact absurd (String.le_antisymm hle (String.not_lt.mp hnlt)) hne
        refine List.pairwise_cons.mpr ⟨?_, ih ht⟩
        intro x hx
        rcases mem_insertAt.mp hx with rfl | hx
        · exact hgt
        · exact ha x hx

def insert (s : Selection) (id : String) : Selection :=
  ⟨insertAt id s.ids, pairwise_insertAt s.ascending⟩

def erase (s : Selection) (id : String) : Selection :=
  ⟨s.ids.filter fun other => other != id, s.ascending.filter _⟩

/-- The selection of the ids in a list, which may repeat them. -/
def ofList (ids : List String) : Selection := ids.foldl insert empty

/-! ## Toggling -/

/-- The selection with the presence of one id changed. -/
def toggle (s : Selection) (id : String) : Selection :=
  if s.contains id then s.erase id else s.insert id

/-- Nothing when every item is selected already, and otherwise the items. -/
def selectAllOrClear (s : Selection) (items : List String) : Selection :=
  if !items.isEmpty && items.all s.contains then empty else ofList items

/-! ## Membership -/

theorem mem_iff {s : Selection} {id : String} : id ∈ s ↔ id ∈ s.ids := Iff.rfl

@[simp] theorem contains_iff {s : Selection} {id : String} : s.contains id = true ↔ id ∈ s := by
  simp [contains, mem_iff]

@[simp] theorem not_mem_empty (id : String) : id ∉ empty := by simp [mem_iff, empty]

@[simp] theorem size_eq_zero_iff {s : Selection} : s.size = 0 ↔ s = empty := by
  obtain ⟨ids, _⟩ := s
  simp [size, empty]

@[simp] theorem mem_insert {s : Selection} {id x : String} :
    x ∈ s.insert id ↔ x = id ∨ x ∈ s := mem_insertAt

@[simp] theorem mem_erase {s : Selection} {id x : String} : x ∈ s.erase id ↔ x ∈ s ∧ x ≠ id := by
  simp [mem_iff, erase]

@[simp] theorem mem_ofList {ids : List String} {x : String} : x ∈ ofList ids ↔ x ∈ ids := by
  have aux : ∀ (ids : List String) (s : Selection), x ∈ ids.foldl insert s ↔ x ∈ s ∨ x ∈ ids := by
    intro ids
    induction ids with
    | nil => simp
    | cons id ids ih => intro s; simp only [List.foldl_cons, ih, mem_insert, List.mem_cons]; grind
  simpa [ofList] using aux ids empty

/-- Toggling changes the presence of one id and no other. -/
theorem mem_toggle {s : Selection} {id x : String} :
    x ∈ s.toggle id ↔ if x = id then x ∉ s else x ∈ s := by
  by_cases hx : x = id
  · subst hx
    by_cases hs : x ∈ s <;> simp [toggle, hs]
  · by_cases hs : id ∈ s <;> simp [toggle, hs, hx]

end Selection

end AdminPanel
