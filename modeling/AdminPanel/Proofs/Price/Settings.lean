import AdminPanel.Proofs.Timeline
import AdminPanel.Widget.PriceField
import Mathlib.Data.List.Induction
import Mathlib.Data.List.Pairwise

/-! # The last setting of each kind

Two settings of one kind leave what the second of them leaves (`set_set`), and two of different
kinds leave the same in either order (`set_comm`). A setting is therefore lost when another of its
kind follows anywhere behind it, and those that are not lost can be put into any order. What each
part of a view shows is told by the last setting of its own kind (`tells_setAll`). -/
namespace AdminPanel

namespace PriceView

/-! ## Kinds of settings -/

inductive Kind where
  | label
  | hint
  | value
  | currency
  | flags
deriving DecidableEq, Repr

namespace Setting

def kind : Setting → Kind
  | .label _ => .label
  | .hint _ => .hint
  | .value _ => .value
  | .currency _ => .currency
  | .flags _ _ => .flags

/-! What a setting of one kind says; those of the other kinds say nothing. -/

def label? : Setting → Option (Option String)
  | .label text => some text
  | _ => none

def hint? : Setting → Option (Option String)
  | .hint text => some text
  | _ => none

def value? : Setting → Option (Option Price)
  | .value price => some price
  | _ => none

def currency? : Setting → Option (Option String)
  | .currency symbol => some symbol
  | _ => none

def flags? : Setting → Option (Bool × Bool)
  | .flags error disabled => some (error, disabled)
  | _ => none

end Setting

theorem set_set (view : PriceView) {a b : Setting} (h : a.kind = b.kind) :
    (view.set a).set b = view.set b := by
  cases a <;> cases b <;> simp_all [set, Setting.kind]

theorem set_comm (view : PriceView) {a b : Setting} (h : a.kind ≠ b.kind) :
    (view.set a).set b = (view.set b).set a := by
  cases a <;> cases b <;> simp_all [set, Setting.kind]

/-! ## Settings that are lost -/

theorem setAll_cons (view : PriceView) (setting : Setting) (settings : List Setting) :
    view.setAll (setting :: settings) = (view.set setting).setAll settings := rfl

theorem setAll_append_singleton (view : PriceView) (settings : List Setting) (setting : Setting) :
    view.setAll (settings ++ [setting]) = (view.setAll settings).set setting := by
  rw [setAll, List.foldl_append]
  rfl

/-- A setting is lost when another of its kind follows. By induction on what follows: the setting
moves behind the next one until that is of its own kind. -/
theorem setAll_set_of_mem {setting : Setting} {settings : List Setting}
    (h : ∃ other ∈ settings, other.kind = setting.kind) (view : PriceView) :
    (view.set setting).setAll settings = view.setAll settings := by
  induction settings generalizing view with
  | nil =>
    obtain ⟨other, hmem, -⟩ := h
    cases hmem
  | cons next settings ih =>
    rw [setAll_cons, setAll_cons]
    by_cases hk : setting.kind = next.kind
    · rw [set_set view hk]
    · obtain ⟨other, hmem, ho⟩ := h
      have hbehind : other ∈ settings := by
        refine (List.mem_cons.mp hmem).resolve_left fun he => hk ?_
        rw [← ho, he]
      rw [set_comm view hk, ih ⟨other, hbehind, ho⟩]

/-- The settings that no other of their kind follows. -/
def lastOfEach : List Setting → List Setting
  | [] => []
  | setting :: settings =>
    if ∃ other ∈ settings, other.kind = setting.kind then lastOfEach settings
    else setting :: lastOfEach settings

theorem setAll_lastOfEach (view : PriceView) (settings : List Setting) :
    view.setAll (lastOfEach settings) = view.setAll settings := by
  induction settings generalizing view with
  | nil => rfl
  | cons setting settings ih =>
    rw [lastOfEach]
    split
    · rename_i hlost
      rw [ih, setAll_cons, setAll_set_of_mem hlost]
    · rw [setAll_cons, setAll_cons, ih]

theorem lastOfEach_sublist (settings : List Setting) :
    (lastOfEach settings).Sublist settings := by
  induction settings with
  | nil => exact .slnil
  | cons setting settings ih =>
    rw [lastOfEach]
    split
    · exact ih.cons setting
    · exact ih.cons_cons setting

theorem pairwise_lastOfEach (settings : List Setting) :
    (lastOfEach settings).Pairwise fun a b => a.kind ≠ b.kind := by
  induction settings with
  | nil => exact .nil
  | cons setting settings ih =>
    rw [lastOfEach]
    split
    · exact ih
    · rename_i hkept
      refine List.pairwise_cons.mpr ⟨fun other hmem he => hkept ?_, ih⟩
      exact ⟨other, (lastOfEach_sublist settings).subset hmem, he.symm⟩

/-- Settings of different kinds can be put into any order. -/
theorem setAll_of_perm {settings others : List Setting} (hp : others.Perm settings)
    (hd : settings.Pairwise fun a b => a.kind ≠ b.kind) (view : PriceView) :
    view.setAll others = view.setAll settings := by
  have hsymm : Std.Symm fun a b : Setting => a.kind ≠ b.kind := ⟨fun _ _ hne => hne.symm⟩
  refine (hp.symm.foldl_eq' (fun a ha b hb view => ?_) view).symm
  by_cases he : a = b
  · rw [he]
  · exact view.set_comm (hd.forall ha hb he)

/-! ## What the parts of a view tell -/

/-- Each part of a view is what the last setting of its own kind says, or what it was at first. The
name is never set, and a currency without a character is as good as none. -/
structure Tells (name : Option String) (settings : List Setting) (view : PriceView) : Prop where
  name : view.name = name.getD "price"
  label : view.label = (lastOf Setting.label? settings).join
  hint : view.hint = (lastOf Setting.hint? settings).join
  value : view.value = ((lastOf Setting.value? settings).join.map Price.shown).getD ""
  adornment : view.adornment =
    if (lastOf Setting.currency? settings).join = some "" then none
    else (lastOf Setting.currency? settings).join
  error : view.error = ((lastOf Setting.flags? settings).map Prod.fst).getD false
  disabled : view.disabled = ((lastOf Setting.flags? settings).map Prod.snd).getD false

theorem currencyAdornment_eq (symbol : Option String) :
    currencyAdornment symbol = if symbol = some "" then none else symbol := by
  cases symbol with
  | none => rfl
  | some symbol => by_cases h : symbol = "" <;> simp [currencyAdornment, Option.filter, h]

theorem tells_ofName (name : Option String) : Tells name [] (ofName name) := by
  constructor <;> rfl

theorem Tells.set {name : Option String} {settings : List Setting} {view : PriceView}
    (h : Tells name settings view) (setting : Setting) :
    Tells name (settings ++ [setting]) (view.set setting) := by
  obtain ⟨hname, hlabel, hhint, hvalue, hadornment, herror, hdisabled⟩ := h
  cases setting <;> constructor <;>
    simp [lastOf_append_singleton, PriceView.set, Setting.label?, Setting.hint?, Setting.value?,
      Setting.currency?, Setting.flags?, currencyAdornment_eq, *]

theorem tells_setAll (name : Option String) (settings : List Setting) :
    Tells name settings ((ofName name).setAll settings) := by
  induction settings using List.reverseRecOn with
  | nil => exact tells_ofName name
  | append_singleton settings setting ih =>
    rw [setAll_append_singleton]
    exact ih.set setting

end PriceView

/-! ## The settings of a price field -/

namespace PriceField
open PriceView (Setting)

def settings (field : PriceField) : List Setting := [
  .label field.label, .hint field.hint, .value field.value, .currency field.currency,
  .flags field.error field.disabled]

theorem view_eq_setAll (field : PriceField) :
    field.view = (PriceView.ofName (some field.name)).setAll field.settings := rfl

theorem pairwise_settings (field : PriceField) :
    field.settings.Pairwise fun a b => a.kind ≠ b.kind := by
  simp [settings, Setting.kind]

end PriceField

namespace PriceView

/-- **The last setting of each kind wins.** A series of settings leaves what the last ones of each
kind leave in any order, and each part of the view is told by the last setting of its own kind
alone. The adornment is never empty. Settings of different kinds commute, so the view of a price
field does not depend on the order in which it is set. -/
theorem setAll_by_last_settings (name : Option String) (settings : List Setting) :
    let view := (ofName name).setAll settings
    (∀ kept : List Setting, kept.Perm (lastOfEach settings) → (ofName name).setAll kept = view) ∧
    Tells name settings view ∧
    view.adornment ≠ some "" ∧
    (∀ a b : Setting, a.kind ≠ b.kind →
      ∀ view : PriceView, (view.set a).set b = (view.set b).set a) ∧
    ∀ (field : PriceField) (order : List Setting), order.Perm field.settings →
      (ofName (some field.name)).setAll order = field.view := by
  intro view
  have htells : Tells name settings view := tells_setAll name settings
  refine ⟨fun kept hp => ?_, htells, ?_, fun a b hk view => view.set_comm hk,
    fun field order hp => ?_⟩
  · rw [setAll_of_perm hp (pairwise_lastOfEach settings), setAll_lastOfEach]
  · rw [htells.adornment, ← currencyAdornment_eq]
    exact currencyAdornment_ne_empty _
  · rw [field.view_eq_setAll, setAll_of_perm hp field.pairwise_settings]

/-- A label and a currency that are taken back, a value and flags that are set twice, and the last
of each put backwards; then a currency that is set again, in blanks, and shown as it is. -/
theorem setAll_of_repeated_settings :
    let settings : List Setting := [
      .label (some "Net"), .flags true true, .currency (some "€"), .value (some (.text "1")),
      .label none, .value (some (.text "10")), .flags false true, .currency (some "")]
    let kept := (lastOfEach settings).reverse
    kept.Perm (lastOfEach settings) ∧
      kept = [.currency (some ""), .flags false true, .value (some (.text "10")), .label none] ∧
      (ofName (some "net")).setAll settings = ⟨"net", none, none, "10", none, false, true⟩ ∧
      (ofName (some "net")).setAll kept = (ofName (some "net")).setAll settings ∧
      ((ofName (some "net")).setAll (settings ++ [.currency (some " zł ")])).adornment =
        some " zł " ∧
      (∀ view : PriceView, (view.set (.label none)).set (.hint none) =
        (view.set (.hint none)).set (.label none)) ∧
      ∀ field : PriceField,
        (ofName (some field.name)).setAll field.settings.reverse = field.view := by
  intro settings kept
  obtain ⟨hkept, -, -, hcomm, hfield⟩ := setAll_by_last_settings (some "net") settings
  obtain ⟨-, hagain, -⟩ :=
    setAll_by_last_settings (some "net") (settings ++ [.currency (some " zł ")])
  have hp : kept.Perm (lastOfEach settings) := List.reverse_perm _
  have hk : (Setting.label none).kind ≠ (Setting.hint none).kind := by decide
  exact ⟨hp, by decide, by decide, hkept _ hp, hagain.adornment, hcomm _ _ hk,
    fun field => hfield field _ (List.reverse_perm _)⟩

end PriceView

end AdminPanel
