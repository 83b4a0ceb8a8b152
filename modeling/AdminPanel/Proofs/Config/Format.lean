import AdminPanel.Config
import AdminPanel.Proofs.Json.Value
import AdminPanel.Proofs.Lookup

/-! # The format of a configuration

The format is said over the grammar of JSON: a text writes a document when it writes an object with
some of four members, each once and of its type, or an array that gives the same four by position.
Every text then has one outcome. A text that writes no document is malformed, whatever language it
names; a document with a language that is not spoken is rejected for that language; every other
document is accepted (`ofText_eq_iff_outcome`). -/
namespace AdminPanel.Config
open Text (isBlank)

/-! ## Documents -/

/-- Every value `given` is null or a string, and `text` is the string among them. -/
structure GivesText (given : Json → Prop) (text : Option String) : Prop where
  typed : ∀ value, given value → value = .null ∨ ∃ s, value = .string s
  text_iff : ∀ s, text = some s ↔ given (.string s)

/-- Every value `given` is a boolean, and `flag` is set when one of them is true. -/
structure GivesFlag (given : Json → Prop) (flag : Bool) : Prop where
  typed : ∀ value, given value → ∃ b, value = .bool b
  flag_iff : flag = true ↔ given (.bool true)

inductive Denotes : Json → Document → Prop
  | object {members : List (String × Json)} {document : Document}
      (distinct : (members.map Prod.fst).Nodup) (known : ∀ m ∈ members, m.1 ∈ memberNames)
      (locale : GivesText (fun value => ("locale", value) ∈ members) document.locale)
      (name : GivesText (fun value => ("price_field_name", value) ∈ members)
        document.priceFieldName)
      (symbol : GivesText (fun value => ("currency_symbol", value) ∈ members)
        document.currencySymbol)
      (sync : GivesFlag (fun value => ("sync_select_all", value) ∈ members)
        document.syncSelectAll) :
      Denotes (.object members) document
  | array {elements : List Json} {document : Document} (short : elements.length ≤ 4)
      (locale : GivesText (fun value => elements[0]? = some value) document.locale)
      (name : GivesText (fun value => elements[1]? = some value) document.priceFieldName)
      (symbol : GivesText (fun value => elements[2]? = some value) document.currencySymbol)
      (sync : GivesFlag (fun value => elements[3]? = some value) document.syncSelectAll) :
      Denotes (.array elements) document

/-- A text writes a document: it is one JSON document whose value stands for it. -/
def Written (text : String) (document : Document) : Prop :=
  ∃ value, Json.Writes text value ∧ Denotes value document

/-! ## Outcomes -/

/-- The name of price inputs: the one given if it has a character that is not blank. -/
inductive NameOf : Option String → String → Prop
  | given {name : String} {c : Char} (hc : c ∈ name.toList) (hb : isBlank c = false) :
      NameOf (some name) name
  | blank {given : Option String}
      (h : ∀ name, given = some name → ∀ c ∈ name.toList, isBlank c = true) : NameOf given "price"

inductive Outcome (text : String) : Except ConfigError Config → Prop
  | malformed (h : ∀ document, ¬ Written text document) : Outcome text (.error .malformed)
  | unknownLocale {document : Document} {tag : String} (h : Written text document)
      (ht : document.locale = some tag) (hl : Locale.ofTag? tag = none) :
      Outcome text (.error (.unknownLocale tag))
  | accepted {document : Document} {name : String} (h : Written text document)
      (ht : ∀ tag, document.locale = some tag → Locale.ofTag? tag ≠ none)
      (hn : NameOf document.priceFieldName name) :
      Outcome text (.ok {
        locale := document.locale.bind Locale.ofTag?
        priceFieldName := name
        currencySymbol := document.currencySymbol
        syncSelectAll := document.syncSelectAll })

/-! ## Reading documents -/

theorem textOf?_eq_some_iff {value : Option Json} {text : Option String} :
    textOf? value = some text ↔ GivesText (fun v => value = some v) text := by
  constructor
  · intro h
    unfold textOf? at h
    split at h
    · cases h
      exact ⟨by simp, by simp⟩
    · cases h
      exact ⟨by simp, by simp⟩
    · cases h
      exact ⟨by simp, by simp⟩
    · cases h
  · rintro ⟨ht, hs⟩
    cases value with
    | none =>
      cases text with
      | none => rfl
      | some s => cases (hs s).mp rfl
    | some v =>
      rcases ht v rfl with rfl | ⟨s, rfl⟩
      · cases text with
        | none => rfl
        | some s => cases (hs s).mp rfl
      · rw [(hs s).mpr rfl]
        rfl

theorem flagOf?_eq_some_iff {value : Option Json} {flag : Bool} :
    flagOf? value = some flag ↔ GivesFlag (fun v => value = some v) flag := by
  constructor
  · intro h
    unfold flagOf? at h
    split at h
    · cases h
      exact ⟨by simp, by simp⟩
    · cases h
      exact ⟨by simp, by simp⟩
    · cases h
  · rintro ⟨ht, hf⟩
    cases value with
    | none =>
      cases flag with
      | false => rfl
      | true => cases hf.mp rfl
    | some v =>
      obtain ⟨b, rfl⟩ := ht v rfl
      cases flag with
      | true =>
        cases hf.mp rfl
        rfl
      | false =>
        cases b with
        | false => rfl
        | true => exact absurd (hf.mpr rfl) (by simp)

theorem ofValues?_eq_some_iff {locale name symbol sync : Option Json} {document : Document} :
    Document.ofValues? locale name symbol sync = some document ↔
      GivesText (fun v => locale = some v) document.locale ∧
      GivesText (fun v => name = some v) document.priceFieldName ∧
      GivesText (fun v => symbol = some v) document.currencySymbol ∧
      GivesFlag (fun v => sync = some v) document.syncSelectAll := by
  simp only [← textOf?_eq_some_iff, ← flagOf?_eq_some_iff, Document.ofValues?,
    Option.bind_eq_bind, Option.bind_eq_some_iff, Option.pure_def, Option.some.injEq]
  constructor
  · rintro ⟨_, h1, _, h2, _, h3, _, h4, rfl⟩
    exact ⟨h1, h2, h3, h4⟩
  · rintro ⟨h1, h2, h3, h4⟩
    exact ⟨_, h1, _, h2, _, h3, _, h4, rfl⟩

theorem ofJson?_eq_some_iff {value : Json} {document : Document} :
    Document.ofJson? value = some document ↔ Denotes value document := by
  constructor
  · intro h
    cases value with
    | null | bool _ | number _ | string _ => cases h
    | object members =>
      simp only [Document.ofJson?, Document.ofMembers?] at h
      split at h
      · rename_i hc
        obtain ⟨h1, h2, h3, h4⟩ := ofValues?_eq_some_iff.mp h
        simp only [lookup_eq_some_iff_mem hc.1] at h1 h2 h3 h4
        exact .object hc.1 (fun m hm => hc.2 _ (List.mem_map.mpr ⟨m, hm, rfl⟩)) h1 h2 h3 h4
      · cases h
    | array elements =>
      simp only [Document.ofJson?, Document.ofElements?] at h
      split at h
      · rename_i hc
        obtain ⟨h1, h2, h3, h4⟩ := ofValues?_eq_some_iff.mp h
        exact .array hc h1 h2 h3 h4
      · cases h
  · intro h
    cases h with
    | @object members _ hd hk h1 h2 h3 h4 =>
      have hk : ∀ name ∈ members.map Prod.fst, name ∈ memberNames := by
        intro name hn
        obtain ⟨m, hm, rfl⟩ := List.mem_map.mp hn
        exact hk m hm
      simp only [← lookup_eq_some_iff_mem hd] at h1 h2 h3 h4
      rw [Document.ofJson?, Document.ofMembers?, if_pos ⟨hd, hk⟩]
      exact ofValues?_eq_some_iff.mpr ⟨h1, h2, h3, h4⟩
    | @array elements _ hs h1 h2 h3 h4 =>
      have hs : elements.length ≤ memberNames.length := hs
      rw [Document.ofJson?, Document.ofElements?, if_pos hs]
      exact ofValues?_eq_some_iff.mpr ⟨h1, h2, h3, h4⟩

/-- A text is read as a document exactly when it writes the document. -/
theorem written_iff {text : String} {document : Document} :
    Written text document ↔ (Json.ofText? text).bind Document.ofJson? = some document := by
  simp only [Written, ← Json.ofText?_eq_some_iff, ← ofJson?_eq_some_iff, Option.bind_eq_some_iff]

/-! ## Resolving documents -/

theorem nameOf_resolveName (given : Option String) : NameOf given (resolveName given) := by
  unfold resolveName
  split
  · rename_i name h
    obtain ⟨rfl, hb⟩ := Option.filter_eq_some_iff.mp h
    rw [Text.allBlank, Bool.not_eq_true', List.all_eq_false] at hb
    obtain ⟨c, hc, hn⟩ := hb
    exact .given hc (by simpa using hn)
  · rename_i h
    refine .blank fun name hn c hc => ?_
    subst hn
    rw [Option.filter_eq_none_iff] at h
    have hb := h name rfl
    rw [Bool.not_eq_true', Bool.not_eq_false, Text.allBlank] at hb
    exact List.all_eq_true.mp hb c hc

theorem NameOf.unique {given : Option String} {a b : String} (ha : NameOf given a)
    (hb : NameOf given b) : a = b := by
  cases ha with
  | given hc hn =>
    cases hb with
    | given => rfl
    | blank h => rw [h _ rfl _ hc] at hn; cases hn
  | blank h =>
    cases hb with
    | given hc hn => rw [h _ rfl _ hc] at hn; cases hn
    | blank => rfl

theorem NameOf.not_blank {given : Option String} {name : String} (h : NameOf given name) :
    ∃ c ∈ name.toList, isBlank c = false := by
  cases h with
  | given hc hn => exact ⟨_, hc, hn⟩
  | blank => exact ⟨'p', by decide, by decide⟩

theorem outcome_ofText (text : String) : Outcome text (ofText text) := by
  unfold ofText
  split
  · rename_i document hd
    have hw := written_iff.mpr hd
    cases hl : document.locale with
    | none =>
      have h := Outcome.accepted hw (by simp [hl]) (nameOf_resolveName document.priceFieldName)
      simpa [ofDocument, resolveLocale, hl] using h
    | some tag =>
      cases ht : Locale.ofTag? tag with
      | none =>
        have h := Outcome.unknownLocale hw hl ht
        simpa [ofDocument, resolveLocale, hl, ht] using h
      | some locale =>
        have h := Outcome.accepted hw (by simp [hl, ht])
          (nameOf_resolveName document.priceFieldName)
        simpa [ofDocument, resolveLocale, hl, ht] using h
  · rename_i h
    refine .malformed fun document hw => ?_
    rw [written_iff] at hw
    exact absurd (h.symm.trans hw) (by simp)

theorem Written.unique {text : String} {a b : Document} (ha : Written text a)
    (hb : Written text b) : a = b := by
  rw [written_iff] at ha hb
  exact Option.some.inj (ha.symm.trans hb)

theorem Outcome.unique {text : String} {a b : Except ConfigError Config} (ha : Outcome text a)
    (hb : Outcome text b) : a = b := by
  cases ha with
  | malformed h =>
    cases hb with
    | malformed => rfl
    | unknownLocale hw => exact absurd hw (h _)
    | accepted hw => exact absurd hw (h _)
  | unknownLocale hw ht hl =>
    cases hb with
    | malformed h => exact absurd hw (h _)
    | unknownLocale hw' ht' =>
      obtain rfl := hw.unique hw'
      rw [Option.some.inj (ht.symm.trans ht')]
    | accepted hw' ht' =>
      obtain rfl := hw.unique hw'
      exact absurd hl (ht' _ ht)
  | accepted hw ht hn =>
    cases hb with
    | malformed h => exact absurd hw (h _)
    | unknownLocale hw' ht' hl =>
      obtain rfl := hw.unique hw'
      exact absurd hl (ht _ ht')
    | accepted hw' _ hn' =>
      obtain rfl := hw.unique hw'
      rw [hn.unique hn']

/-- **Every text has the outcome that the format gives it, and no other.** The name in an accepted
configuration is never blank. -/
theorem ofText_eq_iff_outcome (text : String) (result : Except ConfigError Config) :
    (ofText text = result ↔ Outcome text result) ∧
      ∀ config, Outcome text (.ok config) →
        ∃ c ∈ config.priceFieldName.toList, isBlank c = false := by
  refine ⟨⟨?_, fun h => (outcome_ofText text).unique h⟩, ?_⟩
  · rintro rfl
    exact outcome_ofText text
  · intro config h
    cases h with
    | accepted _ _ hn => exact hn.not_blank

theorem ofText_blank_name_by_position :
    let config : Config := ⟨some .polish, "price", none, false⟩
    ofText "[\"pl\",\" \"]" = .ok config ∧
      ∃ c ∈ config.priceFieldName.toList, isBlank c = false := by
  intro config
  have hw : Json.Writes "[\"pl\",\" \"]" (.array [.string "pl", .string " "]) :=
    Json.Spells.next .openBracket <| .next (Json.tokenSpelling_quoted "pl") <| .next .comma <|
      .next (Json.tokenSpelling_quoted " ") <| .next .closeBracket .done
  have hd : Written "[\"pl\",\" \"]" ⟨some "pl", some " ", none, false⟩ :=
    ⟨_, hw, ofJson?_eq_some_iff.mp rfl⟩
  have ho : Outcome "[\"pl\",\" \"]" (.ok config) := by
    refine .accepted hd ?_ (.blank ?_)
    · rintro tag ⟨⟩
      decide
    · rintro name ⟨⟩ c hc
      cases List.mem_singleton.mp hc
      decide
  obtain ⟨hiff, hname⟩ := ofText_eq_iff_outcome "[\"pl\",\" \"]" (.ok config)
  exact ⟨hiff.mpr ho, hname config ho⟩

end AdminPanel.Config
