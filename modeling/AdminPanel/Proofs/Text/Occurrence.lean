import AdminPanel.Text.Slice

/-! # Leftmost occurrences

Where a pattern stands first in a text, said without a search. Breaking a text finds that place
(`breakOn?_eq_some_iff`), and only what stands up to the end of the pattern decides where it is
(`Leftmost.congr`). -/
namespace AdminPanel.Text

/-- The first place of a pattern: a text before it and a text behind it, and no shorter one before
it. -/
structure Leftmost (pattern cs before after : List Char) : Prop where
  split : cs = before ++ (pattern ++ after)
  first : ∀ earlier later, cs = earlier ++ (pattern ++ later) → before.length ≤ earlier.length

section Leftmost
variable {pattern cs before after : List Char}

theorem Leftmost.unique {other rest : List Char} (h : Leftmost pattern cs before after)
    (ho : Leftmost pattern cs other rest) : before = other ∧ after = rest := by
  have hlength : before.length = other.length :=
    Nat.le_antisymm (h.first _ _ ho.split) (ho.first _ _ h.split)
  obtain ⟨hbefore, hbehind⟩ := List.append_inj (h.split.symm.trans ho.split) hlength
  exact ⟨hbefore, List.append_cancel_left hbehind⟩

/-- What follows the first place of a pattern can be anything. -/
theorem Leftmost.congr (h : Leftmost pattern cs before after) (rest : List Char) :
    Leftmost pattern (before ++ (pattern ++ rest)) before rest := by
  refine ⟨rfl, fun earlier later he => Nat.le_of_not_lt fun hlt => ?_⟩
  have hearly : earlier ++ pattern <+: before ++ (pattern ++ rest) := by
    rw [he, ← List.append_assoc]
    exact List.prefix_append ..
  have hwhole : before ++ pattern <+: before ++ (pattern ++ rest) := by
    rw [← List.append_assoc]
    exact List.prefix_append ..
  -- An earlier place would end within the pattern, so it would be one in the first text too.
  obtain ⟨between, hb⟩ := List.prefix_of_prefix_length_le hearly hwhole (by simp; omega)
  have hcs : cs = earlier ++ (pattern ++ (between ++ after)) := by
    rw [h.split, ← List.append_assoc, ← hb]
    simp only [List.append_assoc]
  exact absurd hlt (Nat.not_lt.mpr (h.first _ _ hcs))

/-- A pattern that begins within a text puts its first character there. -/
theorem exists_of_shorter {c : Char} {earlier later front : List Char}
    (he : front ++ cs = earlier ++ (c :: pattern ++ later)) (h : earlier.length < front.length) :
    ∃ rest, front = earlier ++ c :: rest := by
  have hfirst : earlier ++ [c] <+: front ++ cs := ⟨pattern ++ later, by simp [he]⟩
  obtain ⟨rest, hrest⟩ := List.prefix_of_prefix_length_le hfirst (List.prefix_append front cs)
    (by simpa using Nat.succ_le_of_lt h)
  exact ⟨rest, by simp [← hrest]⟩

/-- A pattern stands first behind a text without its first character. -/
theorem Leftmost.of_not_mem {c : Char} (h : c ∉ before) (pattern after : List Char) :
    Leftmost (c :: pattern) (before ++ (c :: pattern ++ after)) before after := by
  refine ⟨rfl, fun earlier later he => Nat.le_of_not_lt fun hlt => h ?_⟩
  obtain ⟨rest, hbefore⟩ := exists_of_shorter he hlt
  simp [hbefore]

theorem not_infix_of_not_mem {c : Char} (h : c ∉ cs) : ¬ c :: pattern <:+: cs :=
  fun hi => h (hi.subset List.mem_cons_self)

end Leftmost

/-! ## Breaking a text -/

theorem breakOn?_eq_none_iff {pattern cs : List Char} :
    breakOn? pattern cs = none ↔ ¬ pattern <:+: cs := by
  induction cs with
  | nil => cases pattern <;> simp [breakOn?]
  | cons c cs ih =>
    rw [breakOn?, List.infix_cons_iff, ← List.isPrefixOf_iff_prefix]
    split <;> rename_i hp <;> simp [hp, ih]

theorem leftmost_of_breakOn? {pattern cs before after : List Char}
    (h : breakOn? pattern cs = some (before, after)) : Leftmost pattern cs before after := by
  refine ⟨eq_append_of_breakOn? h, ?_⟩
  induction cs generalizing before with
  | nil =>
    intro earlier later _
    have hnil := congrArg List.length (eq_append_of_breakOn? h)
    simp only [List.length_nil, List.length_append] at hnil
    omega
  | cons c cs ih =>
    intro earlier later he
    rw [breakOn?] at h
    split at h
    · cases h
      exact Nat.zero_le _
    · rename_i hp
      obtain ⟨⟨front, back⟩, hb, heq⟩ := Option.map_eq_some_iff.mp h
      cases heq
      cases earlier with
      | nil =>
        have hprefix : pattern <+: c :: cs := by
          rw [he]
          exact List.prefix_append ..
        exact absurd (List.isPrefixOf_iff_prefix.mpr hprefix) hp
      | cons d earlier =>
        have hrest := ih hb earlier later (List.cons.inj he).2
        simp only [List.length_cons]
        omega

theorem breakOn?_eq_some_iff {pattern cs before after : List Char} :
    breakOn? pattern cs = some (before, after) ↔ Leftmost pattern cs before after := by
  refine ⟨leftmost_of_breakOn?, fun h => ?_⟩
  cases hb : breakOn? pattern cs with
  | none =>
    refine absurd ?_ (breakOn?_eq_none_iff.mp hb)
    exact ⟨before, after, by rw [h.split, List.append_assoc]⟩
  | some sides =>
    obtain ⟨front, back⟩ := sides
    obtain ⟨rfl, rfl⟩ := (leftmost_of_breakOn? hb).unique h
    rfl

end AdminPanel.Text
