import AdminPanel.Proofs.Html.RoundTrip
import AdminPanel.Proofs.Text.Words
import AdminPanel.Widget.Controls

/-! # The classes that a widget shows

A widget puts its own classes around the extra ones that its owner gives, and a class that comes
again is left out (`classList`). A list that was made so is stable: put between the same classes
once more, it stays as it is, because it begins with the classes in front of it and holds those
behind it already (`eraseDups_between`). What is shown is read off the tag that the markup begins
with. -/
namespace AdminPanel
open Text (IsWord WordIn words)

/-! ## Lists without repeats -/

theorem eraseDups_of_nodup {names : List String} (h : names.Nodup) : names.eraseDups = names := by
  induction names with
  | nil => rfl
  | cons name names ih =>
    obtain ⟨hname, hnames⟩ := List.nodup_cons.mp h
    have hothers : names.filter (fun other => !other == name) = names := by
      refine List.filter_eq_self.mpr fun other hmem => ?_
      have hne : other ≠ name := fun he => hname (he ▸ hmem)
      simpa using hne
    rw [List.eraseDups_cons, hothers, ih hnames]

/-- Names that a list has already add nothing behind it. -/
theorem eraseDups_append_of_subset {names more : List String} (h : more ⊆ names) :
    (names ++ more).eraseDups = names.eraseDups := by
  have hnone : more.removeAll names = [] :=
    List.filter_eq_nil_iff.mpr fun name hmem => by simpa using h hmem
  rw [List.eraseDups_append, hnone, List.eraseDups_nil, List.append_nil]

/-- Names that a list without repeats begins with add nothing in front of it. -/
theorem eraseDups_append_of_front {front rest : List String}
    (h : (front.eraseDups ++ rest).Nodup) :
    (front ++ (front.eraseDups ++ rest)).eraseDups = front.eraseDups ++ rest := by
  obtain ⟨-, hrest, hapart⟩ := List.nodup_append.mp h
  have hleft : (front.eraseDups ++ rest).removeAll front = rest := by
    have hfront : front.eraseDups.filter (fun name => !front.elem name) = [] :=
      List.filter_eq_nil_iff.mpr fun name hmem => by simpa using hmem
    have hkept : rest.filter (fun name => !front.elem name) = rest := by
      refine List.filter_eq_self.mpr fun name hmem => ?_
      have hnot : name ∉ front := fun hin =>
        hapart name (List.mem_eraseDups.mpr hin) name hmem rfl
      simpa using hnot
    rw [List.removeAll, List.filter_append, hfront, hkept, List.nil_append]
  rw [List.eraseDups_append, hleft, eraseDups_of_nodup hrest]

/-- A list without repeats that was made between other names stays as it is between them. -/
theorem eraseDups_between (front names behind : List String) :
    (front ++ ((front ++ (names ++ behind)).eraseDups ++ behind)).eraseDups =
      (front ++ (names ++ behind)).eraseDups := by
  have hnodup := nodup_eraseDups (front ++ (names ++ behind))
  have hbehind : behind ⊆ front ++ (front ++ (names ++ behind)).eraseDups := by
    intro name hmem
    refine List.mem_append_right _ (List.mem_eraseDups.mpr ?_)
    exact List.mem_append_right _ (List.mem_append_right _ hmem)
  rw [← List.append_assoc, eraseDups_append_of_subset hbehind]
  rw [List.eraseDups_append] at hnodup
  have hfront := eraseDups_append_of_front hnodup
  rwa [← List.eraseDups_append] at hfront

/-! ## Class lists -/

theorem isWord_of_mem_classList {texts : List String} {name : String}
    (h : name ∈ classList texts) : IsWord name := by
  obtain ⟨text, -, hword⟩ := mem_classList.mp h
  exact Text.isWord_of_mem_words hword

theorem flatMap_words {texts : List String} (h : ∀ text ∈ texts, IsWord text) :
    texts.flatMap words = texts := by
  have hsame : ∀ text ∈ texts, words text = [text] := fun text hmem =>
    Text.words_of_isWord (h text hmem)
  rw [List.flatMap_congr hsame, List.flatMap_singleton' texts]

theorem mem_classList_between {front behind : List String}
    (h : ∀ name ∈ front ++ behind, IsWord name) {extra name : String} :
    name ∈ classList (front ++ ([extra] ++ behind)) ↔
      name ∈ front ++ behind ∨ WordIn extra.toList name.toList := by
  obtain ⟨hfront, hbehind⟩ := List.forall_mem_append.mp h
  rw [classList, List.flatMap_append, List.flatMap_append, List.flatMap_singleton,
    flatMap_words hfront, flatMap_words hbehind, List.mem_eraseDups, List.mem_append,
    List.mem_append, List.mem_append, ← Text.mem_words_iff]
  tauto

theorem classList_between (front : List String) (extra : String) (behind : List String) :
    classList (front ++ ([" ".intercalate (classList (front ++ ([extra] ++ behind)))] ++ behind)) =
      classList (front ++ ([extra] ++ behind)) := by
  have hread : words (" ".intercalate (classList (front ++ ([extra] ++ behind)))) =
      classList (front ++ ([extra] ++ behind)) :=
    Text.words_intercalate fun name => isWord_of_mem_classList
  simp only [classList, List.flatMap_append, List.flatMap_singleton] at hread ⊢
  rw [hread, eraseDups_between]

theorem value_classes (texts : List String) :
    (Attribute.classes texts).value = some (" ".intercalate (classList texts)) := rfl

/-! ## The first tag -/

namespace Html

/-- The classes of the tag that markup begins with. -/
def frontClasses? (markup : String) : Option String :=
  match readPiece? markup.toList with
  | some (.opening _ attributes, _) => Attribute.lookup? "class" attributes
  | _ => none

theorem frontClasses?_eq {markup tag : String} {attrs : List Attribute} {rest : List Char}
    (h : IsName tag ∧ Named attrs) (hm : markup.toList = openingChars tag attrs ++ rest) :
    frontClasses? markup = Attribute.lookup? "class" attrs := by
  have hnamed : (Piece.opening tag attrs).Named := h
  have hread : readPiece? (openingChars tag attrs ++ rest) = some (.opening tag attrs, rest) :=
    readPiece?_chars hnamed rest
  rw [frontClasses?, hm, hread]

theorem frontClasses?_element {tag : String} {attrs : List Attribute}
    (h : IsName tag ∧ Named attrs) (children : List Html) :
    frontClasses? (Html.element tag attrs children).markup = Attribute.lookup? "class" attrs :=
  frontClasses?_eq h (by rw [markup, String.toList_ofList, chars])

theorem frontClasses?_void {tag : String} {attrs : List Attribute} (h : IsName tag ∧ Named attrs) :
    frontClasses? (Html.void tag attrs).markup = Attribute.lookup? "class" attrs :=
  frontClasses?_eq h (by rw [markup, String.toList_ofList, chars, List.append_nil])

/-- What a widget shows when it is drawn with extra classes: its own classes and the words of the
extra ones, each of them once. Drawn with what it shows, it shows the same. -/
def ShowsClasses (own : List String) (draw : String → Html) : Prop :=
  ∀ extra : String, ∃ names : List String,
    frontClasses? (draw extra).markup = some (" ".intercalate names) ∧
    names.Nodup ∧ (∀ name ∈ names, IsWord name) ∧
    (∀ name, name ∈ names ↔ name ∈ own ∨ WordIn extra.toList name.toList) ∧
    frontClasses? (draw (" ".intercalate names)).markup = some (" ".intercalate names)

/-- A widget that puts its own classes around the extra ones. -/
theorem showsClasses_of_between {front behind : List String} {draw : String → Html}
    (hown : ∀ name ∈ front ++ behind, IsWord name)
    (hdraw : ∀ extra, frontClasses? (draw extra).markup =
      some (" ".intercalate (classList (front ++ ([extra] ++ behind))))) :
    ShowsClasses (front ++ behind) draw := by
  intro extra
  refine ⟨classList (front ++ ([extra] ++ behind)), hdraw extra, nodup_classList _,
    fun name => isWord_of_mem_classList, fun name => mem_classList_between hown, ?_⟩
  rw [hdraw, classList_between]

theorem showsClasses_of_front {front : List String} {draw : String → Html}
    (hown : ∀ name ∈ front, IsWord name)
    (hdraw : ∀ extra, frontClasses? (draw extra).markup =
      some (" ".intercalate (classList (front ++ [extra])))) :
    ShowsClasses front draw := by
  rw [← List.append_nil front] at hown ⊢
  exact showsClasses_of_between hown hdraw

end Html

/-! ## The classes of the style sheet

What the style sheet has for each widget, one list for every size and tone that the widget comes
in. -/

def Checkbox.ownClasses : Size → Option Tone → List String
  | .small, none => ["checkbox", "checkbox-sm"]
  | .small, some .primary => ["checkbox", "checkbox-sm", "checkbox-primary"]
  | .small, some .error => ["checkbox", "checkbox-sm", "checkbox-error"]
  | .medium, none => ["checkbox", "checkbox-md"]
  | .medium, some .primary => ["checkbox", "checkbox-md", "checkbox-primary"]
  | .medium, some .error => ["checkbox", "checkbox-md", "checkbox-error"]

def Input.ownClasses : Size → Option Tone → List String
  | .small, none => ["input", "input-sm"]
  | .small, some .primary => ["input", "input-sm", "input-primary"]
  | .small, some .error => ["input", "input-sm", "input-error"]
  | .medium, none => ["input", "input-md"]
  | .medium, some .primary => ["input", "input-md", "input-primary"]
  | .medium, some .error => ["input", "input-md", "input-error"]

def Select.ownClasses : Size → List String
  | .small => ["select", "select-sm"]
  | .medium => ["select", "select-md"]

def Fieldset.ownClasses : List String := ["fieldset"]

/-! The classes that a widget composes are these, in this order. -/

theorem Checkbox.composed_eq (size : Size) (tone : Option Tone) :
    ["checkbox", size.className "checkbox"] ++ toneClasses tone "checkbox" =
      ownClasses size tone := by
  cases size with
  | small | medium =>
    cases tone with
    | none => rfl
    | some tone => cases tone <;> rfl

theorem Input.composed_eq (size : Size) (tone : Option Tone) :
    ["input", size.className "input"] ++ toneClasses tone "input" = ownClasses size tone := by
  cases size with
  | small | medium =>
    cases tone with
    | none => rfl
    | some tone => cases tone <;> rfl

theorem Select.composed_eq (size : Size) :
    ["select", size.className "select"] = ownClasses size := by
  cases size <;> rfl

/-! ## Widgets -/

theorem isWord_className {control : String} (h : IsWord control) (size : Size) :
    IsWord (size.className control) := by
  have hword : IsWord ("-" ++ size.word) := by cases size <;> decide
  rw [Size.className, String.append_assoc]
  exact h.append hword

theorem isWord_toneClasses {control : String} (h : IsWord control) (tone : Option Tone) :
    ∀ name ∈ toneClasses tone control, IsWord name := by
  cases tone with
  | none => exact List.forall_mem_nil _
  | some tone =>
    have hword : IsWord ("-" ++ tone.word) := by cases tone <;> decide
    intro name hmem
    rw [List.mem_singleton.mp hmem, String.append_assoc]
    exact h.append hword

/-- The base class of a control, its size, and its tone if it has one. -/
theorem isWord_own {control : String} (h : IsWord control) (size : Size) (tone : Option Tone) :
    ∀ name ∈ [control, size.className control] ++ toneClasses tone control, IsWord name := by
  refine List.forall_mem_append.mpr ⟨?_, isWord_toneClasses h tone⟩
  exact List.forall_mem_cons.mpr ⟨h, List.forall_mem_singleton.mpr (isWord_className h size)⟩

theorem Checkbox.frontClasses?_html (box : Checkbox) :
    Html.frontClasses? box.html.markup = some (" ".intercalate (classList box.classes)) := by
  rw [html, Html.frontClasses?_void (by simp +decide)]
  simp [value_classes]

theorem Input.frontClasses?_html (input : Input) :
    Html.frontClasses? input.html.markup = some (" ".intercalate (classList input.classes)) := by
  rw [html, Html.frontClasses?_element (by simp +decide)]
  simp [value_classes]

theorem Select.frontClasses?_html (select : Select) :
    Html.frontClasses? select.html.markup = some (" ".intercalate (classList select.classes)) := by
  rw [html, Html.frontClasses?_element (by simp +decide)]
  simp [value_classes]

theorem Fieldset.frontClasses?_html (fields : Fieldset) :
    Html.frontClasses? fields.html.markup = some (" ".intercalate (classList fields.classes)) := by
  rw [html, Html.frontClasses?_element (by simp +decide)]
  simp [value_classes]

/-- **Every widget shows its classes once, and shows them stably.** Whatever the extra classes are,
the tag of a checkbox, an input, a drop-down list or a field set shows distinct words with one blank
between each two: exactly the classes that the style sheet has for the widget in its size and tone,
and the words of the extra ones. A widget that is drawn again with what it shows as its extra
classes shows the same. -/
theorem every_widget_showsClasses :
    (∀ box : Checkbox, Html.ShowsClasses (Checkbox.ownClasses box.size box.tone)
      fun extra => { box with extraClasses := extra }.html) ∧
    (∀ input : Input, Html.ShowsClasses (Input.ownClasses input.size input.tone)
      fun extra => { input with extraClasses := extra }.html) ∧
    (∀ select : Select, Html.ShowsClasses (Select.ownClasses select.size)
      fun extra => { select with extraClasses := extra }.html) ∧
    ∀ fields : Fieldset, Html.ShowsClasses Fieldset.ownClasses
      fun extra => { fields with extraClasses := [extra] }.html := by
  have hcheckbox : IsWord "checkbox" := by decide
  have hinput : IsWord "input" := by decide
  have hselect : IsWord "select" := by decide
  have hfieldset : IsWord "fieldset" := by decide
  refine ⟨fun box => ?_, fun input => ?_, fun select => ?_, fun fields => ?_⟩
  · rw [← Checkbox.composed_eq]
    refine Html.showsClasses_of_front (isWord_own hcheckbox box.size box.tone) fun extra => ?_
    exact Checkbox.frontClasses?_html _
  · rw [← Input.composed_eq]
    refine Html.showsClasses_of_between (isWord_own hinput input.size input.tone) fun extra => ?_
    exact Input.frontClasses?_html _
  · rw [← Select.composed_eq]
    refine Html.showsClasses_of_front (isWord_own hselect select.size none) fun extra => ?_
    exact Select.frontClasses?_html _
  · refine Html.showsClasses_of_front (List.forall_mem_singleton.mpr hfieldset) fun extra => ?_
    exact Fieldset.frontClasses?_html _

/-- The tone of an input stands behind the extra classes, unless they name it. -/
example :
    classList
        ({ tone := some .error, extraClasses := "a input-error\u3000input" } : Input).classes =
      ["input", "input-md", "a", "input-error"] := by decide +kernel

end AdminPanel
