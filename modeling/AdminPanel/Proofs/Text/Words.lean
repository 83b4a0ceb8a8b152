import AdminPanel.Proofs.Text.Dotted
import AdminPanel.Text.Basic
import Mathlib.Data.List.Induction

/-! # Words

A word of a text is a run of characters that are not blank, with a blank or nothing at all on either
side (`mem_words_iff`). Everything here comes from one equation: at a blank, the words of a text are
those before it and those behind it (`wordsOf_append_cons`). -/
namespace AdminPanel.Text

/-- The words of a text, as rows of characters. -/
def wordsOf (cs : List Char) : List (List Char) :=
  (splitWhere isBlank cs).filter fun word => !word.isEmpty

theorem words_eq_map (s : String) : words s = (wordsOf s.toList).map String.ofList := rfl

/-! ## Words at a blank -/

theorem wordsOf_append_cons {c : Char} (hc : isBlank c = true) (cs ds : List Char) :
    wordsOf (cs ++ c :: ds) = wordsOf cs ++ wordsOf ds := by
  simp only [wordsOf, splitWhere_eq_splitOnP, List.splitOnP_append_cons cs ds hc,
    List.filter_append]

/-- Characters that a word is made of. -/
def IsRun (cs : List Char) : Prop := cs ≠ [] ∧ ∀ c ∈ cs, isBlank c = false

theorem wordsOf_run {cs : List Char} (h : IsRun cs) : wordsOf cs = [cs] := by
  obtain ⟨hne, hrun⟩ := h
  rw [wordsOf, splitWhere_eq_splitOnP, List.splitOnP_eq_singleton hrun]
  simp [hne]

/-! ## Words as runs -/

/-- A run within a text that no other character but a blank stands next to. -/
structure WordIn (cs word : List Char) : Prop where
  run : IsRun word
  around : ∃ before after, cs = before ++ (word ++ after) ∧
    (∀ c, before.getLast? = some c → isBlank c = true) ∧
    ∀ c, after.head? = some c → isBlank c = true

theorem mem_wordsOf_of_wordIn {cs word : List Char} (h : WordIn cs word) : word ∈ wordsOf cs := by
  obtain ⟨hrun, before, after, rfl, hbefore, hafter⟩ := h
  have hfront : word ∈ wordsOf (word ++ after) := by
    cases after with
    | nil => simp [wordsOf_run hrun]
    | cons c after =>
      rw [wordsOf_append_cons (hafter c rfl), wordsOf_run hrun]
      exact List.mem_cons_self
  cases before using List.reverseRecOn with
  | nil => exact hfront
  | append_singleton before c =>
    have hc : isBlank c = true := hbefore c (by simp)
    rw [List.append_assoc, List.singleton_append, wordsOf_append_cons hc]
    exact List.mem_append_right _ hfront

/-- A word behind a blank is a word of the whole text. -/
theorem WordIn.behind {cs word : List Char} (h : WordIn cs word) {c : Char}
    (hc : isBlank c = true) (front : List Char) : WordIn (front ++ c :: cs) word := by
  obtain ⟨hrun, before, after, rfl, hbefore, hafter⟩ := h
  refine ⟨hrun, front ++ c :: before, after, by simp, fun d hd => ?_, hafter⟩
  rw [List.getLast?_append, List.getLast?_cons] at hd
  cases hlast : before.getLast? with
  | none =>
    rw [hlast] at hd
    cases hd
    exact hc
  | some e =>
    rw [hlast] at hd
    cases hd
    exact hbefore e hlast

theorem eq_of_mem_wordsOf {cs word : List Char} (h : ∀ c ∈ cs, isBlank c = false)
    (hmem : word ∈ wordsOf cs) : word = cs ∧ IsRun cs := by
  by_cases hnil : cs = []
  · rw [hnil] at hmem
    cases hmem
  · rw [wordsOf_run ⟨hnil, h⟩, List.mem_singleton] at hmem
    exact ⟨hmem, hnil, h⟩

/-- A text without blanks, or one up to its first blank and the text behind that. -/
theorem exists_first_blank (cs : List Char) : (∀ c ∈ cs, isBlank c = false) ∨
    ∃ front c rest, cs = front ++ c :: rest ∧ (∀ d ∈ front, isBlank d = false) ∧
      isBlank c = true := by
  induction cs with
  | nil => exact .inl (List.forall_mem_nil _)
  | cons c cs ih =>
    cases hc : isBlank c with
    | true => exact .inr ⟨[], c, cs, rfl, List.forall_mem_nil _, hc⟩
    | false =>
      rcases ih with hnone | ⟨front, d, rest, rfl, hfront, hd⟩
      · exact .inl (List.forall_mem_cons.mpr ⟨hc, hnone⟩)
      · exact .inr ⟨c :: front, d, rest, rfl, List.forall_mem_cons.mpr ⟨hc, hfront⟩, hd⟩

/-- By induction on the length: what stands behind the first blank is shorter. -/
theorem wordIn_of_mem_wordsOf {cs word : List Char} (h : word ∈ wordsOf cs) : WordIn cs word := by
  generalize hn : cs.length = n
  induction n using Nat.strongRecOn generalizing cs with
  | ind n ih =>
    rcases exists_first_blank cs with hnone | ⟨front, c, rest, rfl, hfront, hc⟩
    · obtain ⟨rfl, hrun⟩ := eq_of_mem_wordsOf hnone h
      exact ⟨hrun, [], [], by simp, by simp, by simp⟩
    · rw [wordsOf_append_cons hc, List.mem_append] at h
      rcases h with h | h
      · obtain ⟨rfl, hrun⟩ := eq_of_mem_wordsOf hfront h
        exact ⟨hrun, [], c :: rest, rfl, by simp, by simpa using hc⟩
      · have hshorter : rest.length < n := by
          rw [← hn, List.length_append, List.length_cons]
          omega
        exact (ih _ hshorter h rfl).behind hc front

theorem mem_wordsOf_iff {cs word : List Char} : word ∈ wordsOf cs ↔ WordIn cs word :=
  ⟨wordIn_of_mem_wordsOf, mem_wordsOf_of_wordIn⟩

/-! ## Texts of words -/

def IsWord (name : String) : Prop := IsRun name.toList

instance (name : String) : Decidable (IsWord name) :=
  decidable_of_iff (name.toList ≠ [] ∧ name.toList.all (fun c => !isBlank c) = true)
    (by simp [IsWord, IsRun])

theorem IsWord.append {a b : String} (ha : IsWord a) (hb : IsWord b) : IsWord (a ++ b) := by
  rw [IsWord, String.toList_append]
  exact ⟨List.append_ne_nil_of_left_ne_nil ha.1 _, List.forall_mem_append.mpr ⟨ha.2, hb.2⟩⟩

theorem mem_words_iff {s name : String} : name ∈ words s ↔ WordIn s.toList name.toList := by
  rw [words_eq_map, ← mem_wordsOf_iff]
  constructor
  · intro hmem
    obtain ⟨word, hword, rfl⟩ := List.mem_map.mp hmem
    rwa [String.toList_ofList]
  · intro hmem
    exact List.mem_map.mpr ⟨name.toList, hmem, String.ofList_toList⟩

theorem isWord_of_mem_words {s name : String} (h : name ∈ words s) : IsWord name :=
  (mem_words_iff.mp h).run

theorem words_of_isWord {name : String} (h : IsWord name) : words name = [name] := by
  rw [words_eq_map, wordsOf_run h, List.map_singleton, String.ofList_toList]

theorem wordsOf_intercalate {runs : List (List Char)} (h : ∀ run ∈ runs, IsRun run) :
    wordsOf ([' '].intercalate runs) = runs := by
  have hblank : isBlank ' ' = true := by decide
  induction runs with
  | nil => rfl
  | cons run runs ih =>
    obtain ⟨hrun, hruns⟩ := List.forall_mem_cons.mp h
    cases runs with
    | nil => rw [List.intercalate_singleton, wordsOf_run hrun]
    | cons next runs =>
      rw [List.intercalate_cons_cons, List.append_assoc, List.singleton_append,
        wordsOf_append_cons hblank, wordsOf_run hrun, ih hruns]
      rfl

/-- Words with a blank between each two of them are read back. -/
theorem words_intercalate {names : List String} (h : ∀ name ∈ names, IsWord name) :
    words (" ".intercalate names) = names := by
  have hruns : ∀ run ∈ names.map String.toList, IsRun run := List.forall_mem_map.mpr h
  have htext : (" ".intercalate names).toList = [' '].intercalate (names.map String.toList) :=
    String.toList_intercalate
  rw [words_eq_map, htext, wordsOf_intercalate hruns, List.map_map]
  simp

end AdminPanel.Text
