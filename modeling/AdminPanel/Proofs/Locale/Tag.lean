import AdminPanel.Locale.Basic
import AdminPanel.Proofs.Text.Trim
import Mathlib

/-! # Language tags

Without the blanks around it a tag comes apart into its primary subtag, up to the first separator,
and whatever stands behind that. The primary subtag alone decides: the tag asks for a locale when
these are the two letters of the locale's code, each in either case (`ofTag?_eq_some_iff_asksFor`).
So neither blanks around a tag nor the case of its letters nor anything behind a separator shows in
the locale it selects. -/
namespace AdminPanel.Locale
open Text (isBlank Trimmed trim)

/-! ## The parts of a tag -/

/-- What may stand behind the primary subtag: nothing, or a separator and any text. -/
inductive Suffix : List Char → Prop
  | none : Suffix []
  | separated {separator : Char} (h : separator = '-' ∨ separator = '_') (text : List Char) :
      Suffix (separator :: text)

structure Subtags (tag : String) (primary rest : List Char) : Prop where
  trimmed : Trimmed tag.toList (primary ++ rest)
  whole : ∀ c ∈ primary, c ≠ '-' ∧ c ≠ '_'
  suffix : Suffix rest

/-- A small letter itself, or its capital. -/
def InEitherCase (c letter : Char) : Prop := c = letter ∨ c = letter.toUpper

def AsksFor (tag : String) (locale : Locale) : Prop :=
  ∃ letters rest, Trimmed tag.toList (letters ++ rest) ∧
    List.Forall₂ InEitherCase letters locale.code.toList ∧ Suffix rest

/-- The ways to write a tag anew that do not matter. A suffix goes behind a tag that does not end
with a blank, for within a tag blanks count. -/
inductive Respelled (tag : String) : String → Prop
  | padded {left right : String} (hl : ∀ c ∈ left.toList, isBlank c = true)
      (hr : ∀ c ∈ right.toList, isBlank c = true) : Respelled tag (left ++ (tag ++ right))
  | recased {other : String} (h : other.toLower = tag.toLower) : Respelled tag other
  | extended {suffix : String} (h : Suffix suffix.toList)
      (hb : ∀ c, tag.toList.getLast? = some c → isBlank c = false) : Respelled tag (tag ++ suffix)

/-! ## Letter case -/

theorem lowerAscii_eq_toLower (c : Char) : lowerAscii c = c.toLower := by
  have hrange : c.isUpper = true ↔ 'A' ≤ c ∧ c ≤ 'Z' := decide_eq_true_iff
  by_cases h : c.isUpper = true
  · rw [lowerAscii, if_pos (hrange.mp h), Char.toLower_eq_of_isUpper h]
  · rw [lowerAscii, if_neg (mt hrange.mpr h), Char.toLower_eq_of_not_isUpper h]

theorem lowerAscii_eq_iff {c letter : Char} (h : letter.isLower = true) :
    lowerAscii c = letter ↔ InEitherCase c letter := by
  rw [lowerAscii_eq_toLower]
  constructor
  · rintro rfl
    by_cases hc : c.isUpper = true
    · refine .inr ?_
      rw [Char.toUpper_toLower_eq_toUpper,
        Char.toUpper_eq_of_not_isLower (Char.not_isLower_of_isUpper hc)]
    · exact .inl (Char.toLower_eq_of_not_isUpper hc).symm
  · have hletter := Char.toLower_eq_of_not_isUpper (Char.not_isUpper_of_isLower h)
    rintro (rfl | rfl)
    · exact hletter
    · rw [Char.toLower_toUpper_eq_toLower, hletter]

theorem InEitherCase.isAlpha {c letter : Char} (h : InEitherCase c letter)
    (hl : letter.isLower = true) : c.isAlpha = true := by
  have hletter : letter.isAlpha = true := by simp [Char.isAlpha, hl]
  rcases h with rfl | rfl
  · exact hletter
  · rw [Char.isAlpha_toUpper_eq_isAlpha, hletter]

theorem isAlpha_of_forall₂ {cs letters : List Char} (h : List.Forall₂ InEitherCase cs letters)
    (hl : ∀ letter ∈ letters, letter.isLower = true) : ∀ c ∈ cs, c.isAlpha = true := by
  induction h with
  | nil => exact fun _ hc => absurd hc List.not_mem_nil
  | cons hcase _ ih =>
    obtain ⟨hletter, hl⟩ := List.forall_mem_cons.mp hl
    exact List.forall_mem_cons.mpr ⟨hcase.isAlpha hletter, ih hl⟩

theorem map_lowerAscii_eq_iff {cs letters : List Char}
    (h : ∀ letter ∈ letters, letter.isLower = true) :
    cs.map lowerAscii = letters ↔ List.Forall₂ InEitherCase cs letters := by
  induction letters generalizing cs with
  | nil => simp
  | cons letter letters ih =>
    obtain ⟨hl, h⟩ := List.forall_mem_cons.mp h
    cases cs with
    | nil => simp
    | cons c cs =>
      rw [List.map_cons, List.cons.injEq, List.forall₂_cons, lowerAscii_eq_iff hl, ih h]

/-- A property that no letter has does not change with the case. -/
theorem apply_lowerAscii {p : Char → Bool} (h : ∀ c, c.isAlpha = true → p c = false) (c : Char) :
    p (lowerAscii c) = p c := by
  rw [lowerAscii_eq_toLower]
  by_cases hc : c.isUpper = true
  · have ha : c.isAlpha = true := by simp [Char.isAlpha, hc]
    rw [h c ha, h c.toLower (by rw [Char.isAlpha_toLower_eq_isAlpha, ha])]
  · rw [Char.toLower_eq_of_not_isUpper hc]

theorem isBlank_of_isAlpha {c : Char} (h : c.isAlpha = true) : isBlank c = false := by
  have hrange : (65 ≤ c.toNat ∧ c.toNat ≤ 90) ∨ (97 ≤ c.toNat ∧ c.toNat ≤ 122) := by
    simpa [Char.isAlpha, Char.isUpper, Char.isLower, UInt32.le_iff_toNat_le] using h
  rw [Bool.eq_false_iff]
  intro hc
  obtain ⟨range, hr, hin⟩ := List.any_eq_true.mp hc
  simp only [Text.blankRanges, List.mem_cons, List.not_mem_nil, or_false] at hr
  simp only [Bool.and_eq_true, decide_eq_true_eq] at hin
  rcases hr with rfl | rfl | rfl | rfl | rfl | rfl | rfl | rfl | rfl | rfl <;> omega

theorem endsSubtag_iff {c : Char} : endsSubtag c = true ↔ c = '-' ∨ c = '_' := by
  simp [endsSubtag]

theorem endsSubtag_of_isAlpha {c : Char} (h : c.isAlpha = true) : endsSubtag c = false := by
  rw [Bool.eq_false_iff]
  intro hc
  rcases endsSubtag_iff.mp hc with rfl | rfl <;> cases h

/-! ## Only the primary subtag counts -/

section Subtags
variable {tag : String} {primary rest : List Char}

theorem Suffix.head {c : Char} {tail : List Char} (h : Suffix rest) (he : rest = c :: tail) :
    endsSubtag c = true := by
  cases h with
  | none => cases he
  | separated hs =>
    cases he
    exact endsSubtag_iff.mpr hs

theorem exists_subtags (tag : String) : ∃ primary rest, Subtags tag primary rest := by
  refine ⟨(trim tag.toList).takeWhile fun c => !endsSubtag c,
    (trim tag.toList).dropWhile fun c => !endsSubtag c, ?_, ?_, ?_⟩
  · rw [List.takeWhile_append_dropWhile]
    exact Text.trimmed_trim _
  · intro c hc
    have hnot := List.all_eq_true.mp List.all_takeWhile c hc
    simpa [endsSubtag] using hnot
  · have hhead := List.head?_dropWhile_not (fun c => !endsSubtag c) (trim tag.toList)
    cases hd : (trim tag.toList).dropWhile fun c => !endsSubtag c with
    | nil => exact .none
    | cons c tail =>
      rw [hd] at hhead
      exact .separated (endsSubtag_iff.mp (by simpa using hhead)) tail

theorem Subtags.primarySubtag (h : Subtags tag primary rest) :
    primarySubtag tag = String.ofList (primary.map lowerAscii) := by
  have hwhole : ∀ c ∈ primary.map lowerAscii, (!endsSubtag c) = true := by
    intro c hc
    obtain ⟨d, hd, rfl⟩ := List.mem_map.mp hc
    have hne := h.whole d hd
    rw [apply_lowerAscii (fun _ => endsSubtag_of_isAlpha)]
    simpa [endsSubtag] using hne
  have hrest : ∀ c tail, rest.map lowerAscii = c :: tail → (!endsSubtag c) = false := by
    intro c tail he
    obtain ⟨d, ds, hd, rfl, -⟩ := List.map_eq_cons_iff.mp he
    rw [apply_lowerAscii (fun _ => endsSubtag_of_isAlpha), h.suffix.head hd]
    rfl
  rw [Locale.primarySubtag, Text.trim_of_trimmed h.trimmed, List.map_append,
    Text.takeWhile_run_append hwhole hrest]

theorem isLower_of_mem_code {locale : Locale} :
    ∀ letter ∈ locale.code.toList, letter.isLower = true := by
  refine List.all_eq_true.mp ?_
  cases locale <;> rfl

/-- A tag selects a locale by its primary subtag. -/
theorem Subtags.ofTag?_eq_some_iff (h : Subtags tag primary rest) {locale : Locale} :
    ofTag? tag = some locale ↔ List.Forall₂ InEitherCase primary locale.code.toList := by
  rw [ofTag?, ofCode?_eq_some_iff, h.primarySubtag, ← String.toList_inj, String.toList_ofList,
    eq_comm, map_lowerAscii_eq_iff isLower_of_mem_code]

/-- A subtag that is longer than a code, or holds anything but letters, selects nothing. -/
theorem Subtags.ofTag?_eq_none (h : Subtags tag primary rest)
    (hp : primary.length ≠ 2 ∨ ∃ c ∈ primary, c.isAlpha = false) : ofTag? tag = none := by
  cases hl : ofTag? tag with
  | none => rfl
  | some locale =>
    have hletters := h.ofTag?_eq_some_iff.mp hl
    rcases hp with hp | ⟨c, hc, ha⟩
    · have hlength : locale.code.toList.length = 2 := by cases locale <;> decide +kernel
      exact absurd (hletters.length_eq.trans hlength) hp
    · rw [isAlpha_of_forall₂ hletters isLower_of_mem_code c hc] at ha
      cases ha

theorem asksFor_iff {locale : Locale} : AsksFor tag locale ↔ ofTag? tag = some locale := by
  constructor
  · rintro ⟨letters, rest, ht, hletters, hs⟩
    have hwhole : ∀ c ∈ letters, c ≠ '-' ∧ c ≠ '_' := by
      intro c hc
      have hends :=
        endsSubtag_of_isAlpha (isAlpha_of_forall₂ hletters isLower_of_mem_code c hc)
      simpa [endsSubtag] using hends
    exact Subtags.ofTag?_eq_some_iff ⟨ht, hwhole, hs⟩ |>.mpr hletters
  · intro h
    obtain ⟨primary, rest, hparts⟩ := exists_subtags tag
    exact ⟨primary, rest, hparts.trimmed, hparts.ofTag?_eq_some_iff.mp h, hparts.suffix⟩

end Subtags

/-! ## Respelled tags -/

theorem map_trim_lowerAscii (cs : List Char) :
    (trim cs).map lowerAscii = trim (cs.map lowerAscii) := by
  have hblank : isBlank ∘ lowerAscii = isBlank :=
    funext (apply_lowerAscii fun _ => isBlank_of_isAlpha)
  simp only [trim, List.dropWhile_map, hblank, ← List.map_reverse]

theorem toList_toLower (tag : String) : tag.toLower.toList = tag.toList.map lowerAscii := by
  rw [String.toLower, String.toList_map]
  exact List.map_congr_left fun c _ => (lowerAscii_eq_toLower c).symm

theorem Suffix.append {rest suffix : List Char} (h : Suffix rest) (hs : Suffix suffix) :
    Suffix (rest ++ suffix) := by
  cases h with
  | none => exact hs
  | separated h text => exact .separated h (text ++ suffix)

theorem Suffix.head_not_blank {suffix : List Char} (h : Suffix suffix) :
    ∀ c, suffix.head? = some c → isBlank c = false := by
  intro c hc
  cases h with
  | none => cases hc
  | separated hs =>
    cases hc
    rcases hs with rfl | rfl <;> decide

/-- A suffix without the blanks at its end is a suffix: its separator is no blank. -/
theorem Suffix.trim {suffix : List Char} (h : Suffix suffix) : Suffix (Text.trim suffix) := by
  obtain ⟨right, hsplit, hright⟩ := (Text.trimmed_trim suffix).exists_right h.head_not_blank
  cases hcore : Text.trim suffix with
  | nil => exact .none
  | cons c core =>
    rw [hcore] at hsplit
    exact .separated (endsSubtag_iff.mp (h.head hsplit)) core

theorem primarySubtag_of_respelled {tag other : String} (h : Respelled tag other) :
    primarySubtag other = primarySubtag tag := by
  obtain ⟨primary, rest, hparts⟩ := exists_subtags tag
  cases h with
  | @padded left right hl hr =>
    have hpadded : Subtags (left ++ (tag ++ right)) primary rest := by
      refine ⟨?_, hparts.whole, hparts.suffix⟩
      simpa using hparts.trimmed.padded hl hr
    rw [hpadded.primarySubtag, hparts.primarySubtag]
  | recased h =>
    rw [primarySubtag, primarySubtag, map_trim_lowerAscii, map_trim_lowerAscii, ← toList_toLower,
      ← toList_toLower, h]
  | @extended suffix h hb =>
    have hextended : Subtags (tag ++ suffix) primary (rest ++ trim suffix.toList) := by
      refine ⟨?_, hparts.whole, hparts.suffix.append h.trim⟩
      rw [String.toList_append, ← List.append_assoc]
      exact hparts.trimmed.append (Text.trimmed_trim _) hb h.head_not_blank
    rw [hextended.primarySubtag, hparts.primarySubtag]

/-- **Only the primary subtag of a tag counts.** A tag selects a locale exactly when it asks for it:
blanks around it apart, it is the two letters of the locale's code, each in either case, and then
nothing or a separator and anything. It asks for one locale at most; blanks around it, the case of
its letters and what follows it behind a separator make no difference; and a primary subtag that is
longer or shorter than a code, or holds a character that is no plain letter, selects nothing. -/
theorem ofTag?_eq_some_iff_asksFor (tag : String) (locale : Locale) :
    (ofTag? tag = some locale ↔ AsksFor tag locale) ∧
    (∀ other, AsksFor tag locale → AsksFor tag other → other = locale) ∧
    (∀ other, Respelled tag other → ofTag? other = ofTag? tag) ∧
    ∀ primary rest, Subtags tag primary rest →
      primary.length ≠ 2 ∨ (∃ c ∈ primary, c.isAlpha = false) → ofTag? tag = none := by
  refine ⟨asksFor_iff.symm, fun other h ho => ?_, fun other h => ?_, fun primary rest h hp => ?_⟩
  · rw [asksFor_iff] at h ho
    exact Option.some.inj (ho.symm.trans h)
  · rw [ofTag?, primarySubtag_of_respelled h, ofTag?]
  · exact h.ofTag?_eq_none hp

/-- A blank that is no ASCII character, a capital and a region leave German what it is. The capital
dotted I, whose small form outside of ASCII is two characters, is no letter of any code. -/
theorem ofTag?_of_swiss_german :
    AsksFor "\u00A0De_ch " .german ∧ ofTag? "\u00A0De_ch " = some .german ∧
      Respelled "\u00A0De_ch " "\u00A0dE_CH " ∧ ofTag? "\u00A0dE_CH " = some .german ∧
      Subtags "İt-CH" ['İ', 't'] ['-', 'C', 'H'] ∧ ofTag? "İt-CH" = none := by
  have hcore : Trimmed "\u00A0De_ch ".toList ['D', 'e', '_', 'c', 'h'] :=
    Text.trim_eq_iff.mp (by decide +kernel)
  have hasks : AsksFor "\u00A0De_ch " .german :=
    ⟨['D', 'e'], ['_', 'c', 'h'], hcore, .cons (.inr (by decide)) (.cons (.inl rfl) .nil),
      .separated (.inr rfl) ['c', 'h']⟩
  have hcase : "\u00A0dE_CH ".toLower = "\u00A0De_ch ".toLower := by
    rw [← String.toList_inj, toList_toLower, toList_toLower]
    decide +kernel
  have hrespelled : Respelled "\u00A0De_ch " "\u00A0dE_CH " := .recased hcase
  have hdotted : Trimmed "İt-CH".toList ['İ', 't', '-', 'C', 'H'] :=
    Text.trim_eq_iff.mp (by decide +kernel)
  have hparts : Subtags "İt-CH" ['İ', 't'] ['-', 'C', 'H'] :=
    ⟨hdotted, by simp, .separated (.inl rfl) ['C', 'H']⟩
  obtain ⟨hiff, -, hsame, -⟩ := ofTag?_eq_some_iff_asksFor "\u00A0De_ch " .german
  obtain ⟨-, -, -, hnone⟩ := ofTag?_eq_some_iff_asksFor "İt-CH" .german
  refine ⟨hasks, hiff.mpr hasks, hrespelled, (hsame _ hrespelled).trans (hiff.mpr hasks), hparts,
    hnone _ _ hparts (.inr ⟨'İ', List.mem_cons_self, by decide⟩)⟩

end AdminPanel.Locale
