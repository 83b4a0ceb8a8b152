import AdminPanel.Page.Step
import AdminPanel.Proofs.Config.Format

/-! # Starting a page

Three sources may give the locale of the first page: the storage, the configuration and the browser.
The first that gives one decides, and English stands behind the last. What it takes to give a locale
is said over the formats of the sources, so that a source which is missing, cannot be read or names
a language that is not spoken gives none and leaves the choice to the next (`locale_start_eq_iff`).

A configuration is taken whole or not at all. One that is rejected gives no locale, no name, no
currency and no mode, and its page goes through every run like a page without a configuration; only
the console says so, once and first (`run_of_rejected_config`). -/
namespace AdminPanel

/-! ## The first source that gives a value -/

inductive FirstOf {α : Type} (a : α) : List (α → Prop) → Prop
  | here {gives : α → Prop} {rest : List (α → Prop)} (h : gives a) : FirstOf a (gives :: rest)
  | later {gives : α → Prop} {rest : List (α → Prop)} (hn : ∀ b, ¬ gives b) (h : FirstOf a rest) :
      FirstOf a (gives :: rest)

theorem firstOf_cons_iff {α : Type} {gives : α → Prop} {rest : List (α → Prop)} {given : Option α}
    {next : α} (hg : ∀ a, gives a ↔ given = some a) (hr : ∀ a, FirstOf a rest ↔ next = a) (a : α) :
    FirstOf a (gives :: rest) ↔ given.getD next = a := by
  cases given with
  | none =>
    have hn : ∀ b, ¬ gives b := by simp [hg]
    rw [Option.getD_none, ← hr]
    constructor
    · rintro (h | ⟨-, h⟩)
      · exact absurd h (hn a)
      · exact h
    · exact .later hn
  | some b =>
    rw [Option.getD_some]
    constructor
    · rintro (h | ⟨hn, -⟩)
      · exact Option.some.inj ((hg a).mp h)
      · exact absurd ((hg b).mpr rfl) (hn b)
    · rintro rfl
      exact .here ((hg b).mpr rfl)

theorem firstOf_singleton_iff {α : Type} (a b : α) : FirstOf a [(· = b)] ↔ b = a := by
  constructor
  · rintro (h | ⟨-, h⟩)
    · exact h.symm
    · cases h
  · rintro rfl
    exact .here rfl

namespace Environment

/-! ## What the sources give -/

/-- The storage has the JSON string of a tag of the locale. -/
def StorageGives (env : Environment) (locale : Locale) : Prop :=
  ∃ raw tag, env.storage.get? localeKey = some raw ∧ Json.Writes raw (.string tag) ∧
    Locale.ofTag? tag = some locale

/-- The text of the configuration element, empty when it has none, is accepted and names the
locale. -/
def ConfigGives (env : Environment) (locale : Locale) : Prop :=
  ∃ text config, env.configElement = some text ∧ Config.Outcome (text.getD "") (.ok config) ∧
    config.locale = some locale

def BrowserGives (env : Environment) (locale : Locale) : Prop :=
  ∃ tag, env.language = some tag ∧ Locale.ofTag? tag = some locale

theorem storageGives_iff {env : Environment} (locale : Locale) :
    env.StorageGives locale ↔ env.storedLocale? = some locale := by
  have hs : ∀ value tag, Json.string? value = some tag ↔ value = .string tag := by
    intro value tag
    cases value <;> simp [Json.string?]
  simp only [StorageGives, storedLocale?, Storage.string?, Option.bind_eq_some_iff,
    Json.ofText?_eq_some_iff, hs]
  constructor
  · rintro ⟨raw, tag, hr, hw, ht⟩
    exact ⟨tag, ⟨_, ⟨raw, hr, hw⟩, rfl⟩, ht⟩
  · rintro ⟨tag, ⟨_, ⟨raw, hr, hw⟩, rfl⟩, ht⟩
    exact ⟨raw, tag, hr, hw, ht⟩

theorem loadConfig_of_ok {env : Environment} {text : Option String} {config : Config}
    (ht : env.configElement = some text) (h : Config.ofText (text.getD "") = .ok config) :
    env.loadConfig = (some config, []) := by
  simp only [loadConfig, ht, h]

theorem loadConfig_of_error {env : Environment} {text : Option String} {error : ConfigError}
    (ht : env.configElement = some text) (h : Config.ofText (text.getD "") = .error error) :
    env.loadConfig = (none, [.configRejected configElementId error]) := by
  simp only [loadConfig, ht, h]

/-- What is loaded is what the text of the element is accepted as. -/
theorem loadConfig_eq_some_iff {env : Environment} (config : Config) :
    env.loadConfig.1 = some config ↔
      ∃ text, env.configElement = some text ∧ Config.Outcome (text.getD "") (.ok config) := by
  cases ht : env.configElement with
  | none => simp [loadConfig, ht]
  | some text =>
    have ho := Config.outcome_ofText (text.getD "")
    simp only [Option.some.injEq, exists_eq_left']
    cases hr : Config.ofText (text.getD "") with
    | ok accepted =>
      rw [hr] at ho
      rw [loadConfig_of_ok ht hr]
      constructor
      · rintro ⟨⟩
        exact ho
      · intro h
        rw [Except.ok.inj (ho.unique h)]
    | error error =>
      rw [hr] at ho
      rw [loadConfig_of_error ht hr]
      constructor
      · intro h
        cases h
      · intro h
        cases ho.unique h

theorem configGives_iff {env : Environment} (locale : Locale) :
    env.ConfigGives locale ↔ env.loadConfig.1.bind Config.locale = some locale := by
  simp only [ConfigGives, Option.bind_eq_some_iff, loadConfig_eq_some_iff]
  constructor
  · rintro ⟨text, config, ht, ho, hl⟩
    exact ⟨config, ⟨text, ht, ho⟩, hl⟩
  · rintro ⟨config, ⟨text, ht, ho⟩, hl⟩
    exact ⟨text, config, ht, ho, hl⟩

theorem browserGives_iff {env : Environment} (locale : Locale) :
    env.BrowserGives locale ↔ env.browserLocale? = some locale := by
  simp only [BrowserGives, browserLocale?, Option.bind_eq_some_iff]

theorem startLocale_eq (env : Environment) (config : Option Config) :
    env.startLocale config =
      env.storedLocale?.getD
        ((config.bind Config.locale).getD (env.browserLocale?.getD .english)) := by
  unfold startLocale
  cases env.storedLocale? <;> cases config.bind Config.locale <;> rfl

end Environment

namespace Page
open Environment

/-! ## The locale of the first page -/

/-- **The first source that gives a locale decides.** A configuration that is rejected, for whatever
reason, gives none. -/
theorem locale_start_eq_iff (env : Environment) :
    (∀ locale, (start env).1.locale = locale ↔
      FirstOf locale [env.StorageGives, env.ConfigGives, env.BrowserGives, (· = .english)]) ∧
    ∀ text error, env.configElement = some text → Config.Outcome (text.getD "") (.error error) →
      ∀ locale, ¬ env.ConfigGives locale := by
  refine ⟨fun locale => ?_, ?_⟩
  · have hs : (start env).1.locale = _ := startLocale_eq env env.loadConfig.1
    rw [hs]
    symm
    refine firstOf_cons_iff storageGives_iff (fun a => ?_) locale
    refine firstOf_cons_iff configGives_iff (fun a => ?_) a
    refine firstOf_cons_iff browserGives_iff (fun a => ?_) a
    exact firstOf_singleton_iff a .english
  · rintro text error ht he locale ⟨_, config, ht', ho, -⟩
    obtain rfl := Option.some.inj (ht.symm.trans ht')
    cases he.unique ho

/-- A stored null, a configuration in a language that is not spoken, and a browser in Polish. -/
theorem polish_of_browser :
    let env : Environment := {
      configElement := some (some "[\"ja\"]")
      language := some "PL-pl"
      storage := ⟨[("backoffice.locale", "null")]⟩ }
    (start env).1.locale = .polish ∧
      Config.Outcome "[\"ja\"]" (.error (.unknownLocale "ja")) ∧
      ∀ locale, ¬ env.ConfigGives locale := by
  intro env
  have hw : Json.Writes "[\"ja\"]" (.array [.string "ja"]) :=
    Json.Spells.next .openBracket <| .next (Json.tokenSpelling_quoted "ja") <|
      .next .closeBracket .done
  have hd : Config.Written "[\"ja\"]" ⟨some "ja", none, none, false⟩ :=
    ⟨_, hw, Config.ofJson?_eq_some_iff.mp rfl⟩
  have ho : Config.Outcome "[\"ja\"]" (.error (.unknownLocale "ja")) :=
    .unknownLocale hd rfl (by decide)
  obtain ⟨hfirst, hrejected⟩ := locale_start_eq_iff env
  have hc : ∀ locale, ¬ env.ConfigGives locale := hrejected (some "[\"ja\"]") _ rfl ho
  have hs : ∀ locale, ¬ env.StorageGives locale := by
    rintro locale ⟨raw, tag, hr, hw, -⟩
    obtain rfl : "null" = raw := Option.some.inj hr
    have hn : Json.Writes "null" .null := Json.Spells.next .nullWord .done
    cases hw.unique hn
  refine ⟨(hfirst .polish).mpr ?_, ho, hc⟩
  exact .later hs (.later hc (.here ⟨"PL-pl", rfl, by decide +kernel⟩))

/-! ## Rejected configurations -/

/-- All that is written to the console, from the start of a page to the end of a run. -/
def transcript (env : Environment) (actions : List Action) : List ConsoleEntry :=
  (start env).2 ++ ((start env).1.run actions).flatMap fun entry => entry.2.console

theorem start_of_error {env : Environment} {text : Option String} {error : ConfigError}
    (ht : env.configElement = some text) (h : Config.ofText (text.getD "") = .error error) :
    start env = ((start { env with configElement := none }).1,
      [.configRejected configElementId error]) := by
  rw [start, loadConfig_of_error ht h]
  rfl

/-- **A rejected configuration leaves no trace but one entry in the console.** Whatever else its
text holds and whichever way it fails, the page is the one of a host page without a configuration,
from the first drawing on; the entry comes first and tells the element and the error. -/
theorem run_of_rejected_config {env : Environment} {text : Option String} {error : ConfigError}
    (ht : env.configElement = some text) (h : Config.ofText (text.getD "") = .error error)
    (actions : List Action) :
    let bare : Environment := { env with configElement := none }
    (start env).1 = (start bare).1 ∧
    (start env).1.run actions = (start bare).1.run actions ∧
    ∃ entry, transcript env actions = entry :: transcript bare actions ∧ entry.level = .error ∧
      entry.arguments =
        [.text "widget config rejected", .text "backoffice-config", .text error.message] := by
  intro bare
  have hstart : start env = ((start bare).1, [.configRejected configElementId error]) :=
    start_of_error ht h
  have hpage : (start env).1 = (start bare).1 := by rw [hstart]
  -- Without a configuration there is nothing to reject, so starting writes nothing.
  have hquiet : (start bare).2 = [] := rfl
  refine ⟨hpage, by rw [hpage], .configRejected configElementId error, ?_, rfl, rfl⟩
  rw [transcript, transcript, hstart, hquiet]
  rfl

def japaneseConfig : String := "[\"ja\",\"gross\",\"$\",true]"

theorem writes_japaneseConfig :
    Json.Writes japaneseConfig
      (.array [.string "ja", .string "gross", .string "$", .bool true]) :=
  Json.Spells.next .openBracket <| .next (Json.tokenSpelling_quoted "ja") <| .next .comma <|
    .next (Json.tokenSpelling_quoted "gross") <| .next .comma <|
    .next (Json.tokenSpelling_quoted "$") <| .next .comma <| .next .trueWord <|
    .next .closeBracket .done

/-- The currency and the mode of a document in a language that is not spoken count for nothing. -/
theorem run_of_config_in_japanese :
    let env : Environment := { configElement := some (some japaneseConfig), language := some "de" }
    let actions : List Action := [.selectAll, .pickLocale (some "fr"), .delete]
    Config.ofText japaneseConfig = .error (.unknownLocale "ja") ∧
      ∃ entry, transcript env actions = entry :: transcript { language := some "de" } actions ∧
        entry.arguments = [.text "widget config rejected", .text "backoffice-config",
          .text "unsupported locale 'ja'"] := by
  intro env actions
  have ht : Config.ofText japaneseConfig = .error (.unknownLocale "ja") := by
    rw [Config.ofText, Json.ofText?_eq_some_iff.mpr writes_japaneseConfig]
    rfl
  have hc : env.configElement = some (some japaneseConfig) := rfl
  obtain ⟨-, -, entry, he, -, ha⟩ := run_of_rejected_config hc ht actions
  exact ⟨ht, entry, he, ha⟩

end Page

end AdminPanel
