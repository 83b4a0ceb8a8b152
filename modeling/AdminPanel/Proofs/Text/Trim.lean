import AdminPanel.Text.Basic

/-! # Runs and trimming

A run of characters that what follows does not go on with is taken off a text whole.

What is left of a text without the blanks at both ends, said without taking anything off it: a core
that neither begins nor ends with a blank, with nothing but blanks around it. Every text has one
such core (`trim_eq_iff`). -/
namespace AdminPanel.Text

/-! ## Runs -/

section Runs
variable {p : Char → Bool} {run rest : List Char}

theorem takeWhile_run_append (h : ∀ c ∈ run, p c = true)
    (hr : ∀ c tail, rest = c :: tail → p c = false) : (run ++ rest).takeWhile p = run := by
  rw [List.takeWhile_append_of_pos h]
  cases rest with
  | nil => exact List.append_nil run
  | cons c tail => rw [List.takeWhile_cons_of_neg (by simp [hr c tail rfl]), List.append_nil]

theorem dropWhile_run_append (h : ∀ c ∈ run, p c = true)
    (hr : ∀ c tail, rest = c :: tail → p c = false) : (run ++ rest).dropWhile p = rest := by
  rw [List.dropWhile_append_of_pos h]
  cases rest with
  | nil => rfl
  | cons c tail => rw [List.dropWhile_cons_of_neg (by simp [hr c tail rfl])]

end Runs

/-! ## Trimming -/

structure Trimmed (cs core : List Char) : Prop where
  around : ∃ left right, cs = left ++ (core ++ right) ∧
    (∀ c ∈ left, isBlank c = true) ∧ ∀ c ∈ right, isBlank c = true
  head : ∀ c, core.head? = some c → isBlank c = false
  last : ∀ c, core.getLast? = some c → isBlank c = false

theorem isBlank_of_head?_dropWhile {cs : List Char} {c : Char}
    (h : (cs.dropWhile isBlank).head? = some c) : isBlank c = false := by
  have hnot := List.head?_dropWhile_not isBlank cs
  rw [h] at hnot
  exact hnot

theorem dropWhile_eq_self_of_head {cs : List Char}
    (h : ∀ c, cs.head? = some c → isBlank c = false) : cs.dropWhile isBlank = cs := by
  cases cs with
  | nil => rfl
  | cons c cs => rw [List.dropWhile_cons_of_neg (by simp [h c rfl])]

theorem trim_of_trimmed {cs core : List Char} (h : Trimmed cs core) : trim cs = core := by
  obtain ⟨⟨left, right, rfl, hl, hr⟩, hhead, hlast⟩ := h
  cases hcore : core with
  | nil =>
    refine trim_eq_nil_of_all fun c hc => ?_
    rw [List.nil_append, List.mem_append] at hc
    exact hc.elim (hl c) (hr c)
  | cons d tail =>
    rw [← hcore]
    have hfront : (core ++ right).dropWhile isBlank = core ++ right :=
      dropWhile_eq_self_of_head fun c hc => hhead c (by rw [hcore] at hc ⊢; exact hc)
    have hback : core.reverse.dropWhile isBlank = core.reverse :=
      dropWhile_eq_self_of_head fun c hc => hlast c (by rwa [List.head?_reverse] at hc)
    have hright : ∀ c ∈ right.reverse, isBlank c = true := by simpa using hr
    rw [trim, List.dropWhile_append_of_pos hl, hfront, List.reverse_append,
      List.dropWhile_append_of_pos hright, hback, List.reverse_reverse]

theorem isBlank_of_mem_takeWhile {cs : List Char} {c : Char} (h : c ∈ cs.takeWhile isBlank) :
    isBlank c = true :=
  List.all_eq_true.mp List.all_takeWhile c h

theorem trimmed_trim (cs : List Char) : Trimmed cs (trim cs) := by
  obtain ⟨right, hright, hfront⟩ : ∃ right, (∀ c ∈ right, isBlank c = true) ∧
      cs.dropWhile isBlank = trim cs ++ right := by
    refine ⟨((cs.dropWhile isBlank).reverse.takeWhile isBlank).reverse, ?_, ?_⟩
    · intro c hc
      exact isBlank_of_mem_takeWhile (List.mem_reverse.mp hc)
    · rw [trim, ← List.reverse_append, List.takeWhile_append_dropWhile, List.reverse_reverse]
  refine ⟨⟨cs.takeWhile isBlank, right, ?_, fun c => isBlank_of_mem_takeWhile, hright⟩, ?_, ?_⟩
  · rw [← hfront, List.takeWhile_append_dropWhile]
  · intro c hc
    have hhead : (cs.dropWhile isBlank).head? = some c := by
      rw [hfront, List.head?_append, hc]
      rfl
    exact isBlank_of_head?_dropWhile hhead
  · intro c hc
    rw [trim, List.getLast?_reverse] at hc
    exact isBlank_of_head?_dropWhile hc

/-- Trimming gives the core of a text. -/
theorem trim_eq_iff {cs core : List Char} : trim cs = core ↔ Trimmed cs core :=
  ⟨fun h => h ▸ trimmed_trim cs, trim_of_trimmed⟩

/-! ## Cores of longer texts -/

/-- Blanks around a text leave its core as it is. -/
theorem Trimmed.padded {cs core left right : List Char} (h : Trimmed cs core)
    (hl : ∀ c ∈ left, isBlank c = true) (hr : ∀ c ∈ right, isBlank c = true) :
    Trimmed (left ++ (cs ++ right)) core := by
  obtain ⟨⟨before, after, rfl, hb, ha⟩, hhead, hlast⟩ := h
  refine ⟨⟨left ++ before, after ++ right, by simp, ?_, ?_⟩, hhead, hlast⟩
  · intro c hc
    exact (List.mem_append.mp hc).elim (hl c) (hb c)
  · intro c hc
    exact (List.mem_append.mp hc).elim (ha c) (hr c)

/-- A text that does not begin with a blank begins with its core. -/
theorem Trimmed.exists_right {cs core : List Char} (h : Trimmed cs core)
    (hhead : ∀ c, cs.head? = some c → isBlank c = false) :
    ∃ right, cs = core ++ right ∧ ∀ c ∈ right, isBlank c = true := by
  obtain ⟨⟨left, right, rfl, hl, hr⟩, -, -⟩ := h
  cases left with
  | nil => exact ⟨right, rfl, hr⟩
  | cons c left =>
    have hblank := hl c List.mem_cons_self
    rw [hhead c rfl] at hblank
    cases hblank

/-- A text that does not end with a blank ends with its core. -/
theorem Trimmed.exists_left {cs core : List Char} (h : Trimmed cs core)
    (hlast : ∀ c, cs.getLast? = some c → isBlank c = false) :
    ∃ left, cs = left ++ core ∧ ∀ c ∈ left, isBlank c = true := by
  obtain ⟨⟨left, right, rfl, hl, hr⟩, -, -⟩ := h
  cases hright : right.getLast? with
  | none =>
    rw [List.getLast?_eq_none_iff] at hright
    exact ⟨left, by rw [hright, List.append_nil], hl⟩
  | some c =>
    have hblank := hr c (List.mem_of_getLast? hright)
    rw [hlast c (by simp [List.getLast?_append, hright])] at hblank
    cases hblank

/-- Where no blanks meet, the cores of two texts meet too. -/
theorem Trimmed.append {cs core ds next : List Char} (hc : Trimmed cs core) (hd : Trimmed ds next)
    (hlast : ∀ c, cs.getLast? = some c → isBlank c = false)
    (hhead : ∀ c, ds.head? = some c → isBlank c = false) :
    Trimmed (cs ++ ds) (core ++ next) := by
  obtain ⟨left, rfl, hl⟩ := hc.exists_left hlast
  obtain ⟨right, rfl, hr⟩ := hd.exists_right hhead
  refine ⟨⟨left, right, by simp, hl, hr⟩, ?_, ?_⟩
  · intro c h
    rw [List.head?_append, Option.or_eq_some_iff] at h
    exact h.elim (hc.head c) fun h => hd.head c h.2
  · intro c h
    rw [List.getLast?_append, Option.or_eq_some_iff] at h
    exact h.elim (hd.last c) fun h => hc.last c h.2

end AdminPanel.Text
