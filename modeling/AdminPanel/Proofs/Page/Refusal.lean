import AdminPanel.Proofs.Page.Frame

/-! # A storage that refuses

A page reads the storage when it starts and never again, and a pick changes the locale whether the
write went through or not. So a page whose storage refuses every write goes through a run side by
side with one whose storage takes them: the two differ in what is stored, and in the console by one
entry for each pick that counts. -/
namespace AdminPanel.Page

/-- The page on a storage that refuses every write, each with what goes wrong then. -/
def refusing (page : Page) (storage : Storage) (detail : String → String → String) : Page :=
  { page with storage := storage, writeError := some detail }

/-- What the refusal to store a locale is told by. -/
def refusal (detail : String → String → String) (locale : Locale) : ConsoleEntry :=
  .storageFailed Environment.localeKey (detail Environment.localeKey (Json.quoted locale.code))

/-- The refusals that an action meets; only picks that count write. -/
def refusals (detail : String → String → String) (action : Action) : List ConsoleEntry :=
  (action.locale?.map (refusal detail)).toList

def Reply.followedBy (reply : Reply) (entries : List ConsoleEntry) : Reply :=
  { reply with console := reply.console ++ entries }

variable (storage : Storage) (detail : String → String → String)

theorem html_refusing (page : Page) : (page.refusing storage detail).html = page.html := rfl

/-! ## Side by side -/

/-- A pick that counts is the one action that meets the refusal. -/
theorem step_refusing_of_locale {page : Page} (h : page.writeError = none) {action : Action}
    {locale : Locale} (ha : action.locale? = some locale) :
    (page.refusing storage detail).step action =
      ((page.step action).1.refusing storage detail,
        (page.step action).2.followedBy [refusal detail locale]) := by
  cases action with
  | pickLocale target =>
    cases target with
    | none => cases ha
    | some tag =>
      have ht : Locale.ofTag? tag = some locale := ha
      simp only [step, pickLocale, pickTag, ht, persistLocale, refusing, h]
      rfl
  | _ => cases ha

theorem step_refusing_of_no_locale (page : Page) {action : Action} (hl : action.locale? = none) :
    (page.refusing storage detail).step action =
      ((page.step action).1.refusing storage detail, (page.step action).2) := by
  cases ht : action.typed? with
  | none =>
    have hsync : (page.refusing storage detail).config.syncSelectAll = page.config.syncSelectAll :=
      rfl
    have hr : (page.refusing storage detail).withTable (page.step action).1 =
        (page.withTable (page.step action).1).refusing storage detail := rfl
    rw [← step_eq_withTable page hl ht] at hr
    rw [← hr]
    exact step_withTable hsync hl ht
  | some typed =>
    obtain rfl := Action.eq_typePrice ht
    rfl

theorem step_refusing {page : Page} (h : page.writeError = none) (action : Action) :
    (page.refusing storage detail).step action =
      ((page.step action).1.refusing storage detail,
        (page.step action).2.followedBy (refusals detail action)) := by
  cases ha : action.locale? with
  | none =>
    rw [step_refusing_of_no_locale storage detail page ha, refusals, ha]
    simp only [Reply.followedBy, Option.map_none, Option.toList_none, List.append_nil]
  | some locale =>
    rw [step_refusing_of_locale storage detail h ha, refusals, ha, Option.map_some,
      Option.toList_some]

theorem run_refusing {page : Page} (h : page.writeError = none) (actions : List Action) :
    (page.refusing storage detail).run actions =
      (actions.zip (page.run actions)).map fun step =>
        (step.2.1.refusing storage detail, step.2.2.followedBy (refusals detail step.1)) := by
  induction actions generalizing page with
  | nil => rfl
  | cons action actions ih =>
    have hw : (page.step action).1.writeError = none := (settings_step page action).2.2.trans h
    rw [run, step_refusing storage detail h, run, List.zip_cons_cons, List.map_cons, ← ih hw]

theorem length_run (page : Page) (actions : List Action) :
    (page.run actions).length = actions.length := by
  induction actions generalizing page with
  | nil => rfl
  | cons action actions ih => rw [run, List.length_cons, List.length_cons, ih]

/-! ## The whole run -/

theorem start_refusing (env : Environment) :
    start { env with writeError := some detail } =
      ((start { env with writeError := none }).1.refusing env.storage detail,
        (start { env with writeError := none }).2) := rfl

/-- **A storage that refuses every write does not disturb the run**, whatever goes wrong with each
of them. After each action the page is drawn as it would be if writing worked, and its storage is
still the first one. The console has one entry more for each pick that counts, behind what else the
pick wrote, and no other: what went wrong when the code of this locale was to be stored. -/
theorem run_of_refusing_storage (env : Environment) (actions : List Action) :
    let works := start { env with writeError := none }
    let fails := start { env with writeError := some detail }
    let entry := fun locale : Locale => ConsoleEntry.storageFailed Environment.localeKey
      (detail Environment.localeKey (Json.quoted locale.code))
    fails.1.html = works.1.html ∧ fails.2 = works.2 ∧
    (fails.1.run actions).map (fun step => step.1.html) =
      (works.1.run actions).map (fun step => step.1.html) ∧
    (fails.1.run actions).map (fun step => step.1.storage) = actions.map (fun _ => env.storage) ∧
    (fails.1.run actions).map (fun step => step.2.console) =
      List.zipWith
        (fun action console => console ++ (action.locale?.map entry).toList)
        actions ((works.1.run actions).map fun step => step.2.console) ∧
    ∀ locale : Locale, (entry locale).level = .error ∧
      (entry locale).arguments = [.text "storage operation failed", .text "set",
        .text "backoffice.locale", .text (detail "backoffice.locale" (Json.quoted locale.code))] := by
  intro works fails entry
  have hstart : fails = (works.1.refusing env.storage detail, works.2) :=
    start_refusing detail env
  have hworks : works.1.writeError = none := rfl
  have hrun := run_refusing env.storage detail hworks actions
  -- The two runs have a page for each action, so pairing them drops none.
  have hlength := length_run works.1 actions
  refine ⟨by rw [hstart, html_refusing], by rw [hstart], ?_, ?_, ?_, fun locale => ⟨rfl, rfl⟩⟩
  · rw [hstart, hrun, List.map_map]
    show (actions.zip (works.1.run actions)).map
      ((fun step : Page × Reply => step.1.html) ∘ Prod.snd) = _
    rw [← List.map_map, List.map_snd_zip (Nat.le_of_eq hlength)]
  · rw [hstart, hrun, List.map_map]
    show (actions.zip (works.1.run actions)).map ((fun _ => env.storage) ∘ Prod.fst) = _
    rw [← List.map_map, List.map_fst_zip (Nat.le_of_eq hlength.symm)]
  · rw [hstart, hrun, List.map_map, List.zipWith_map_right, ← List.map_uncurry_zip_eq_zipWith]
    refine List.map_congr_left fun step _ => ?_
    simp only [Function.comp_apply, Function.uncurry_def, Reply.followedBy, refusals]
    rfl

end AdminPanel.Page
