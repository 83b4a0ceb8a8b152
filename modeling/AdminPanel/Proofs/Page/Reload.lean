import AdminPanel.Proofs.Json.Value
import AdminPanel.Proofs.Page.Run

/-! # Reloading the page

A pick of a locale is the only action that writes to the storage, and it writes under one key. So
after a run the storage is the one that the page was started with, but for the last locale that was
picked, which stands there as a JSON string. What was written is what a new page reads, and a stored
locale comes before every other source: the new page starts in the locale of the last pick,
whatever its configuration and its browser say. -/
namespace AdminPanel

/-! ## Writing and reading back -/

namespace Storage

theorem putEntry_putEntry (key value next : String) (entries : List (String × String)) :
    putEntry key next (putEntry key value entries) = putEntry key next entries := by
  induction entries with
  | nil => simp [putEntry]
  | cons entry entries ih =>
    by_cases h : entry.1 = key
    · simp [putEntry, h]
    · simp [putEntry, h, ih]

/-- Of two texts put under one key the later counts. -/
theorem put_put (storage : Storage) (key value next : String) :
    (storage.put key value).put key next = storage.put key next := by
  simp only [put, putEntry_putEntry]

theorem string?_putString (storage : Storage) (key value : String) :
    (storage.putString key value).string? key = some value := by
  simp [string?, putString, get?_put, Json.ofText?_quoted, Json.string?]

end Storage

/-- Codes hold nothing that is escaped. -/
theorem Locale.quoted_code (locale : Locale) :
    Json.quoted locale.code = "\"" ++ locale.code ++ "\"" := by
  cases locale <;> decide +kernel

/-- A locale that is stored decides, whatever else is there. -/
theorem Environment.startLocale_of_stored {env : Environment} {storage : Storage} {locale : Locale}
    (h : env.storage = storage.putString localeKey locale.code) (config : Option Config) :
    env.startLocale config = locale := by
  have hs : env.storedLocale? = some locale := by
    rw [storedLocale?, h, Storage.string?_putString, Option.bind_some, Locale.ofTag?_code]
  simp [startLocale, hs]

namespace Page

/-! ## The storage of a run -/

theorem storage_step {page : Page} (h : page.writeError = none) (action : Action) :
    (page.step action).1.storage =
      match action.locale? with
      | some locale => page.storage.putString Environment.localeKey locale.code
      | none => page.storage := by
  cases ha : action.locale? with
  | none =>
    obtain ⟨_, _, _, he⟩ := step_of_no_locale ha page
    rw [he]
  | some locale =>
    rw [step_of_locale ha]
    simp only [persistLocale, h]
    rfl

theorem storage_after {page : Page} (h : page.writeError = none) (actions : List Action) :
    (page.after actions).storage =
      match lastPick? actions with
      | some locale => page.storage.putString Environment.localeKey locale.code
      | none => page.storage := by
  induction actions using List.reverseRecOn with
  | nil => rfl
  | append_singleton actions action ih =>
    have hw : (page.after actions).writeError = none := (settings_after page actions).2.2.trans h
    rw [after_append_singleton, storage_step hw, lastPick?_append_singleton, ih]
    cases action.locale? with
    | none => rfl
    | some locale =>
      cases lastPick? actions with
      | none => rfl
      -- What an earlier pick wrote is under the same key and lost.
      | some _ => exact Storage.put_put ..

/-! ## The page after it -/

theorem locale_start (env : Environment) :
    (start env).1.locale = env.startLocale env.loadConfig.1 := rfl

/-- Surroundings with one storage, configuration and language start in one locale. -/
theorem locale_start_congr {env again : Environment} (hs : again.storage = env.storage)
    (hc : again.configElement = env.configElement) (hl : again.language = env.language) :
    (start again).1.locale = (start env).1.locale := by
  simp only [locale_start, Environment.startLocale, Environment.storedLocale?,
    Environment.browserLocale?, Environment.loadConfig, hs, hc, hl]

/-- **The last pick survives a reload, and nothing else in the storage changes.** When writing
works, the storage after a run differs from the one before it at most under the key of the locale,
which then holds the code of the last pick as a JSON string. Every page that is started on this
storage is in the locale of that pick; without a pick it is in the locale of the first page again,
given the same configuration and language. -/
theorem locale_survives_reload {env : Environment} (h : env.writeError = none)
    (actions : List Action) :
    let left := ((start env).1.after actions).storage
    (∀ key, left.get? key =
      if key = Environment.localeKey then
        match lastPick? actions with
        | some locale => some ("\"" ++ locale.code ++ "\"")
        | none => env.storage.get? key
      else env.storage.get? key) ∧
    ∀ again : Environment, again.storage = left →
      match lastPick? actions with
      | some locale => (start again).1.locale = locale
      | none =>
        again.configElement = env.configElement → again.language = env.language →
          (start again).1.locale = (start env).1.locale := by
  intro left
  have hw : (start env).1.writeError = none := h
  have hleft : left = match lastPick? actions with
      | some locale => env.storage.putString Environment.localeKey locale.code
      | none => env.storage := storage_after hw actions
  cases hp : lastPick? actions with
  | none =>
    rw [hp] at hleft
    refine ⟨fun key => ?_, fun again hs hc hl => ?_⟩
    · rw [hleft, ite_self]
    · exact locale_start_congr (hs.trans hleft) hc hl
  | some locale =>
    rw [hp] at hleft
    refine ⟨fun key => ?_, fun again hs => ?_⟩
    · rw [hleft]
      simp only [Storage.putString, Storage.get?_put, Locale.quoted_code]
    · exact Environment.startLocale_of_stored (hs.trans hleft) _

/-- Of four picks the first and the third count. -/
theorem arabic_survives_reload :
    let env : Environment := { storage := .ofList [("backoffice.theme", "\"dark\"")] }
    let actions : List Action := [.pickLocale (some " DE-at"), .selectAll,
      .pickLocale (some "Ar_eg"), .pickLocale (some "ja"), .pickLocale none, .delete]
    let left := ((start env).1.after actions).storage
    let again : Environment := { storage := left, configElement := some (some "[\"pl\"]") }
    env.writeError = none ∧ left.get? Environment.localeKey = some "\"ar\"" ∧
      left.get? Environment.modeKey = some "\"dark\"" ∧ (start again).1.locale = .arabic := by
  intro env actions left again
  have hp : lastPick? actions = some .arabic := by decide +kernel
  have hw : env.writeError = none := rfl
  obtain ⟨hkeys, hagain⟩ := locale_survives_reload hw actions
  simp only [hp] at hkeys hagain
  refine ⟨hw, ?_, ?_, hagain again rfl⟩
  · exact hkeys Environment.localeKey
  · exact hkeys Environment.modeKey

end Page

end AdminPanel
