import AdminPanel.Locale.Bundle
import AdminPanel.Proofs.Lookup
import AdminPanel.Proofs.Text.Dotted

/-! # The texts of a tree

The texts of a tree are listed with the names on the way to each of them. Where names are distinct
and hold no dots, a path finds a text exactly when it joins the names of one (`text?_eq_some_iff`):
no section, no flag, and no other spelling of a path is ever found. The trees of all locales list
the same names, so none of them leaves a text to English (`Bundle.text_eq_own_or_default`). -/
namespace AdminPanel

namespace Messages

/-! ## The leaves -/

mutual

/-- The texts of a tree, each under the names on the way to it. -/
def leaves : Messages → List (List String × String)
  | .text value => [([], value)]
  | .flag _ => []
  | .group entries => leavesOfAll entries

def leavesOfAll : List (String × Messages) → List (List String × String)
  | [] => []
  | (name, child) :: entries =>
    child.leaves.map (fun leaf => (name :: leaf.1, leaf.2)) ++ leavesOfAll entries

end

mutual

/-- The names within each group are distinct, and none of them holds a dot. -/
def plain : Messages → Bool
  | .group entries => decide (entries.map Prod.fst).Nodup && plainOfAll entries
  | _ => true

def plainOfAll : List (String × Messages) → Bool
  | [] => true
  | (name, child) :: entries => (!name.toList.contains '.' && child.plain) && plainOfAll entries

end

/-- The dotted paths of a tree's texts. -/
def paths (tree : Messages) : List String := tree.leaves.map fun leaf => Text.joined leaf.1

variable {tree : Messages} {entries : List (String × Messages)} {names : List String}
  {path value : String}

theorem mem_leavesOfAll : (names, value) ∈ leavesOfAll entries ↔
    ∃ name child rest, (name, child) ∈ entries ∧ names = name :: rest ∧
      (rest, value) ∈ child.leaves := by
  induction entries with
  | nil => simp [leavesOfAll]
  | cons entry entries ih =>
    obtain ⟨first, tree⟩ := entry
    rw [leavesOfAll, List.mem_append, List.mem_map, ih]
    constructor
    · rintro (⟨⟨rest, text⟩, hleaf, he⟩ | ⟨name, child, rest, hmem, he, hleaf⟩)
      · cases he
        exact ⟨first, tree, rest, List.mem_cons_self, rfl, hleaf⟩
      · exact ⟨name, child, rest, List.mem_cons_of_mem _ hmem, he, hleaf⟩
    · rintro ⟨name, child, rest, hmem, rfl, hleaf⟩
      rcases List.mem_cons.mp hmem with he | hmem
      · cases he
        exact .inl ⟨(rest, value), hleaf, rfl⟩
      · exact .inr ⟨name, child, rest, hmem, rfl, hleaf⟩

theorem plainOfAll_iff : plainOfAll entries = true ↔
    ∀ entry ∈ entries, '.' ∉ entry.1.toList ∧ entry.2.plain = true := by
  induction entries with
  | nil => simp [plainOfAll]
  | cons entry entries ih =>
    obtain ⟨name, child⟩ := entry
    rw [plainOfAll, Bool.and_eq_true, Bool.and_eq_true, ih, List.forall_mem_cons]
    simp

theorem plain_group_iff : (group entries).plain = true ↔ (entries.map Prod.fst).Nodup ∧
    ∀ entry ∈ entries, '.' ∉ entry.1.toList ∧ entry.2.plain = true := by
  rw [plain, Bool.and_eq_true, decide_eq_true_iff, plainOfAll_iff]

/-! ## Finding a text -/

/-- By induction on the names: each one takes a step down the tree, to the one entry that has it. -/
theorem at?_eq_text_iff (h : tree.plain = true) :
    tree.at? names = some (.text value) ↔ (names, value) ∈ tree.leaves := by
  induction names generalizing tree with
  | nil =>
    cases tree with
    | text given => simp [at?, leaves, eq_comm]
    | flag given => simp [at?, leaves]
    | group entries => simp [at?, leaves, mem_leavesOfAll]
  | cons name names ih =>
    cases tree with
    | text given => simp [at?, child?, leaves]
    | flag given => simp [at?, child?, leaves]
    | group entries =>
      obtain ⟨hd, hentries⟩ := plain_group_iff.mp h
      rw [at?, Option.bind_eq_some_iff, leaves, mem_leavesOfAll]
      constructor
      · rintro ⟨child, hc, hat⟩
        have hmem := (lookup_eq_some_iff_mem hd name child).mp hc
        exact ⟨name, child, names, hmem, rfl, (ih (hentries _ hmem).2).mp hat⟩
      · rintro ⟨_, child, _, hmem, he, hleaf⟩
        cases he
        exact ⟨child, (lookup_eq_some_iff_mem hd name child).mpr hmem,
          (ih (hentries _ hmem).2).mpr hleaf⟩

theorem not_mem_dot (h : tree.plain = true) (hleaf : (names, value) ∈ tree.leaves) :
    ∀ name ∈ names, '.' ∉ name.toList := by
  induction names generalizing tree with
  | nil => exact fun _ hn => absurd hn List.not_mem_nil
  | cons name names ih =>
    cases tree with
    | text given => simp [leaves] at hleaf
    | flag given => simp [leaves] at hleaf
    | group entries =>
      obtain ⟨-, hentries⟩ := plain_group_iff.mp h
      obtain ⟨_, child, _, hmem, he, hleaf⟩ := mem_leavesOfAll.mp hleaf
      cases he
      obtain ⟨hname, hchild⟩ := hentries _ hmem
      exact List.forall_mem_cons.mpr ⟨hname, ih hchild hleaf⟩

/-- A path finds a text exactly when it is the dotted path of a leaf with that text. A tree that is
itself a text has no path to it. -/
theorem text?_eq_some_iff (h : tree.plain = true) (hroot : ∀ leaf ∈ tree.leaves, leaf.1 ≠ []) :
    tree.text? path = some value ↔
      ∃ names, path = Text.joined names ∧ (names, value) ∈ tree.leaves := by
  have htext : tree.text? path = some value ↔
      tree.at? (Text.dotted path) = some (.text value) := by
    rw [text?]
    split
    · rename_i given hat
      simp [hat]
    · rename_i hat
      simpa using hat value
  rw [htext, at?_eq_text_iff h]
  constructor
  · intro hleaf
    exact ⟨_, (Text.dotted_eq_iff (hroot _ hleaf) (not_mem_dot h hleaf)).mp rfl, hleaf⟩
  · rintro ⟨names, hp, hleaf⟩
    rwa [(Text.dotted_eq_iff (hroot _ hleaf) (not_mem_dot h hleaf)).mpr hp]

end Messages

/-! ## The trees of the locales -/

namespace Locale

theorem plain_messages (locale : Locale) : locale.messages.plain = true := by
  cases locale <;> decide +kernel

/-- All trees have the same names, for texts that none of them leaves empty. -/
theorem names_leaves (locale : Locale) :
    locale.messages.leaves.map Prod.fst = english.messages.leaves.map Prod.fst := by
  cases locale <;> rfl

theorem leaves_ne_empty (locale : Locale) :
    ∀ leaf ∈ locale.messages.leaves, leaf.1 ≠ [] ∧ leaf.2 ≠ "" := by
  cases locale <;> decide +kernel

theorem paths_messages (locale : Locale) : locale.messages.paths = english.messages.paths := by
  have hjoined := congrArg (List.map Text.joined) locale.names_leaves
  rwa [List.map_map, List.map_map] at hjoined

example : english.messages.paths = ["table_head.selected_items", "table_head.select_all",
    "price_field.label", "price_field.hint", "demo.title", "demo.name", "demo.delete",
    "demo.publish", "demo.locale"] := by decide +kernel

theorem text?_eq_some_iff {locale : Locale} {path value : String} :
    locale.messages.text? path = some value ↔
      ∃ names, path = Text.joined names ∧ (names, value) ∈ locale.messages.leaves :=
  Messages.text?_eq_some_iff locale.plain_messages fun _ hleaf => (locale.leaves_ne_empty _ hleaf).1

theorem isSome_text?_iff {locale : Locale} {path : String} :
    (locale.messages.text? path).isSome = true ↔ path ∈ english.messages.paths := by
  rw [← locale.paths_messages, Option.isSome_iff_exists, Messages.paths, List.mem_map]
  constructor
  · rintro ⟨value, ht⟩
    obtain ⟨names, rfl, hleaf⟩ := text?_eq_some_iff.mp ht
    exact ⟨(names, value), hleaf, rfl⟩
  · rintro ⟨⟨names, value⟩, hleaf, rfl⟩
    exact ⟨value, text?_eq_some_iff.mpr ⟨names, rfl, hleaf⟩⟩

theorem text?_eq_none {path : String} (h : path ∉ english.messages.paths) (locale : Locale) :
    locale.messages.text? path = none := by
  rwa [← Option.not_isSome_iff_eq_none, isSome_text?_iff]

theorem text?_ne_empty {locale : Locale} {path value : String}
    (h : locale.messages.text? path = some value) : value ≠ "" := by
  obtain ⟨names, -, hleaf⟩ := text?_eq_some_iff.mp h
  exact (locale.leaves_ne_empty _ hleaf).2

end Locale

namespace Bundle
variable {path : String}

theorem text?_eq_some_text (h : path ∈ Locale.english.messages.paths) (locale : Locale)
    (fallback : String) :
    locale.messages.text? path = some ((ofLocale locale).text path fallback) := by
  obtain ⟨value, ht⟩ := Option.isSome_iff_exists.mp (Locale.isSome_text?_iff.mpr h)
  have hown : (ofLocale locale).messages.text? path = some value := ht
  rw [text, hown, ht]

theorem text_eq_fallback (h : path ∉ Locale.english.messages.paths) (locale : Locale)
    (fallback : String) : (ofLocale locale).text path fallback = fallback := by
  have hown : (ofLocale locale).messages.text? path = none := Locale.text?_eq_none h locale
  have henglish : Locale.fallback.messages.text? path = none := Locale.text?_eq_none h .english
  rw [text, hown, henglish]
  rfl

/-- **Every locale says the same things, in its own words.** A path finds a text in the tree of a
locale exactly when it finds one in the English tree, and that is when it is the dotted path of an
English text. For such a path a bundle has the text of its own locale, and for any other the default
of the caller: English never stands in for another locale. -/
theorem text_eq_own_or_default (locale : Locale) (path fallback : String) :
    ((locale.messages.text? path).isSome = true ↔
      (Locale.english.messages.text? path).isSome = true) ∧
    ((Locale.english.messages.text? path).isSome = true ↔ path ∈ Locale.english.messages.paths) ∧
    (path ∈ Locale.english.messages.paths →
      locale.messages.text? path = some ((ofLocale locale).text path fallback)) ∧
    (path ∉ Locale.english.messages.paths → (ofLocale locale).text path fallback = fallback) :=
  ⟨Locale.isSome_text?_iff.trans Locale.isSome_text?_iff.symm, Locale.isSome_text?_iff,
    fun h => text?_eq_some_text h locale fallback, fun h => text_eq_fallback h locale fallback⟩

/-- The title is there in Polish, but neither behind one dot too many nor among the flags. -/
theorem text_of_polish_title :
    "demo.title" ∈ Locale.english.messages.paths ∧
      (ofLocale .polish).text "demo.title" "Title" = "Produkty" ∧
      "demo..title" ∉ Locale.english.messages.paths ∧
      (ofLocale .polish).text "demo..title" "Title" = "Title" ∧
      "meta.rtl" ∉ Locale.english.messages.paths ∧
      (ofLocale .polish).text "meta.rtl" "Title" = "Title" := by
  have htitle : "demo.title" ∈ Locale.english.messages.paths := by decide +kernel
  have hdots : "demo..title" ∉ Locale.english.messages.paths := by decide +kernel
  have hflag : "meta.rtl" ∉ Locale.english.messages.paths := by decide +kernel
  have hpolish : Locale.polish.messages.text? "demo.title" = some "Produkty" := by decide +kernel
  have hown := (text_eq_own_or_default .polish "demo.title" "Title").2.2.1 htitle
  refine ⟨htitle, ?_, hdots, (text_eq_own_or_default .polish "demo..title" "Title").2.2.2 hdots,
    hflag, (text_eq_own_or_default .polish "meta.rtl" "Title").2.2.2 hflag⟩
  exact Option.some.inj (hown.symm.trans hpolish)

end Bundle

end AdminPanel
