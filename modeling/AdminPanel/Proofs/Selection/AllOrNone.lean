import AdminPanel.Proofs.Selection.Parity
import AdminPanel.Selection.Session
import Mathlib.Data.List.Dedup

/-! # All or none

A click on the select-all checkbox leaves all of the items or nothing, and which of the two is told
by whether an item was missing (`selectAllOrClear_eq`). Both are sets of items, so neither the order
of the items nor their repeats matter, and ids from elsewhere are gone after the first click. From
there on each click turns one into the other (`selectAllOrClear_alternates`). -/
namespace AdminPanel

namespace Selection

/-! ## Selections of items -/

theorem ofList_congr {items others : List String} (h : ∀ x, x ∈ others ↔ x ∈ items) :
    ofList others = ofList items :=
  ext_mem fun x => by rw [mem_ofList, mem_ofList, h]

theorem ofList_eq_empty_iff {items : List String} : ofList items = empty ↔ items = [] := by
  constructor
  · intro he
    refine List.eq_nil_iff_forall_not_mem.mpr fun item hmem => ?_
    have hin : item ∈ ofList items := mem_ofList.mpr hmem
    rw [he] at hin
    exact not_mem_empty item hin
  · rintro rfl
    rfl

/-- A selection of items has each of them once. -/
theorem size_ofList (items : List String) : (ofList items).size = items.dedup.length := by
  refine List.Perm.length_eq ?_
  refine (List.perm_ext_iff_of_nodup (nodup_ids _) (List.nodup_dedup items)).mpr fun x => ?_
  rw [← mem_iff, mem_ofList, List.mem_dedup]

/-! ## What one click leaves -/

theorem selectAllOrClear_eq (s : Selection) (items : List String) :
    s.selectAllOrClear items =
      if items ≠ [] ∧ ∀ x ∈ items, x ∈ s then empty else ofList items := by
  simp [selectAllOrClear]

theorem selectAllOrClear_of_full {s : Selection} {items : List String} (hne : items ≠ [])
    (hall : ∀ x ∈ items, x ∈ s) : s.selectAllOrClear items = empty := by
  rw [selectAllOrClear_eq, if_pos ⟨hne, hall⟩]

theorem selectAllOrClear_of_missing {s : Selection} {items : List String}
    (h : items = [] ∨ ∃ x ∈ items, x ∉ s) : s.selectAllOrClear items = ofList items := by
  rw [selectAllOrClear_eq, if_neg]
  intro hfull
  rcases h with hnil | ⟨x, hmem, hx⟩
  · exact hfull.1 hnil
  · exact hx (hfull.2 x hmem)

theorem selectAllOrClear_eq_or (s : Selection) (items : List String) :
    s.selectAllOrClear items = empty ∨ s.selectAllOrClear items = ofList items := by
  rw [selectAllOrClear_eq]
  split
  · exact .inl rfl
  · exact .inr rfl

theorem selectAllOrClear_congr (s : Selection) {items others : List String}
    (h : ∀ x, x ∈ others ↔ x ∈ items) : s.selectAllOrClear others = s.selectAllOrClear items := by
  have hne : others ≠ [] ↔ items ≠ [] := by
    rw [Ne, Ne, ← ofList_eq_empty_iff, ← ofList_eq_empty_iff, ofList_congr h]
  rw [selectAllOrClear_eq, selectAllOrClear_eq, ofList_congr h]
  simp only [hne, h]

/-! ## One click after another -/

theorem selectAllOrClear_empty (items : List String) :
    empty.selectAllOrClear items = ofList items := by
  refine selectAllOrClear_of_missing ?_
  cases items with
  | nil => exact .inl rfl
  | cons item items => exact .inr ⟨item, List.mem_cons_self, not_mem_empty item⟩

theorem selectAllOrClear_ofList (items : List String) :
    (ofList items).selectAllOrClear items = empty := by
  by_cases hne : items = []
  · subst hne
    rfl
  · exact selectAllOrClear_of_full hne fun x hmem => mem_ofList.mpr hmem

/-- Of two selections one has all of the items, and the other has nothing. -/
def Turns (items : List String) (a b : Selection) : Prop :=
  a = ofList items ∧ b = empty ∨ a = empty ∧ b = ofList items

/-- A click on what another click has left turns it, whatever the first of them was made on. -/
theorem turns_selectAllOrClear (s : Selection) (items : List String) :
    Turns items (s.selectAllOrClear items)
      ((s.selectAllOrClear items).selectAllOrClear items) := by
  rcases s.selectAllOrClear_eq_or items with hs | hs
  · exact .inr ⟨hs, by rw [hs, selectAllOrClear_empty]⟩
  · exact .inl ⟨hs, by rw [hs, selectAllOrClear_ofList]⟩

theorem Turns.ne {items : List String} {a b : Selection} (h : Turns items a b)
    (hne : items ≠ []) : b ≠ a := by
  have hall : ofList items ≠ empty := fun he => hne (ofList_eq_empty_iff.mp he)
  rcases h with ⟨rfl, rfl⟩ | ⟨rfl, rfl⟩
  · exact hall.symm
  · exact hall

/-- Three clicks in a row leave what the first of them left. -/
theorem selectAllOrClear_thrice (s : Selection) (items : List String) :
    ((s.selectAllOrClear items).selectAllOrClear items).selectAllOrClear items =
      s.selectAllOrClear items := by
  rcases s.turns_selectAllOrClear items with ⟨ha, hb⟩ | ⟨ha, hb⟩
  · rw [hb, ha, selectAllOrClear_empty]
  · rw [hb, ha, selectAllOrClear_ofList]

end Selection

/-! ## Clicks in a session -/

namespace Session
open Selection (Turns)

/-- The session after a series of actions. -/
def after (session : Session) (actions : List Action) : Session :=
  actions.foldl (fun session action => (session.step action).1) session

theorem after_append_singleton (session : Session) (actions : List Action) (action : Action) :
    session.after (actions ++ [action]) = ((session.after actions).step action).1 := by
  rw [after, List.foldl_append]
  rfl

/-- The items stay until they are replaced. -/
theorem items_step {action : Action} (h : ∀ items, action ≠ .setItems items) (session : Session) :
    (session.step action).1.items = session.items := by
  cases action with
  | setItems items => exact absurd rfl (h items)
  | _ => rfl

theorem items_after {actions : List Action}
    (h : ∀ action ∈ actions, ∀ items, action ≠ .setItems items) (session : Session) :
    (session.after actions).items = session.items := by
  induction actions generalizing session with
  | nil => rfl
  | cons action actions ih =>
    obtain ⟨haction, hactions⟩ := List.forall_mem_cons.mp h
    rw [after, List.foldl_cons, ← after, ih hactions, items_step haction]

/-- The session after toggles of rows, and then clicks on the select-all checkbox, each with the
count that it is made with. -/
def clicked (session : Session) (toggles : List String) (counts : List (Option Nat)) : Session :=
  session.after (toggles.map .toggleRow ++ counts.map .selectAll)

theorem items_clicked (session : Session) (toggles : List String) (counts : List (Option Nat)) :
    (session.clicked toggles counts).items = session.items := by
  refine items_after ?_ session
  intro action hmem items he
  subst he
  simp at hmem

/-- One click more is answered by the owner, whatever count it was made with. -/
theorem selection_clicked_append (session : Session) (toggles : List String)
    (counts : List (Option Nat)) (count : Option Nat) :
    (session.clicked toggles (counts ++ [count])).selection =
      (session.clicked toggles counts).selection.selectAllOrClear session.items := by
  rw [clicked, List.map_append, List.map_singleton, ← List.append_assoc, after_append_singleton,
    ← clicked, ← items_clicked session toggles counts]
  rfl

theorem turns_clicked (session : Session) (toggles : List String) (counts : List (Option Nat))
    (count next : Option Nat) :
    Turns session.items (session.clicked toggles (counts ++ [count])).selection
      (session.clicked toggles (counts ++ [count] ++ [next])).selection := by
  rw [selection_clicked_append _ _ (counts ++ [count]), selection_clicked_append]
  exact Selection.turns_selectAllOrClear _ _

end Session

namespace Selection

/-- **Select-all turns between all and none.** A click leaves nothing when there are items and all of
them were selected, and otherwise the items, each of them once; no other id is left. The items count
as a set. A third click in a row leaves what the first one left. When there are items the second one
leaves something else: in a session, whatever rows were toggled before, each click from the second
on turns what the click before it has left, which is all of the items or nothing. -/
theorem selectAllOrClear_alternates (s : Selection) (items : List String) :
    let f := fun t : Selection => t.selectAllOrClear items
    (items ≠ [] → (∀ x ∈ items, x ∈ s) → f s = empty) ∧
    (items = [] ∨ (∃ x ∈ items, x ∉ s) → ∀ x, x ∈ f s ↔ x ∈ items) ∧
    (∀ x ∈ f s, x ∈ items) ∧
    ((f s).size = 0 ∨ (f s).size = items.dedup.length) ∧
    (∀ others : List String, (∀ x, x ∈ others ↔ x ∈ items) → s.selectAllOrClear others = f s) ∧
    f (f (f s)) = f s ∧
    (items ≠ [] → f (f s) ≠ f s ∧
      ∀ (session : Session) (toggles : List String) (counts : List (Option Nat))
        (count next : Option Nat), session.selection = s → session.items = items →
          let left := (session.clicked toggles (counts ++ [count])).selection
          let turned := (session.clicked toggles (counts ++ [count] ++ [next])).selection
          Turns items left turned ∧ turned ≠ left) := by
  intro f
  refine ⟨selectAllOrClear_of_full, fun h x => ?_, fun x hx => ?_, ?_, fun others h => ?_, ?_,
    fun hne => ⟨(turns_selectAllOrClear s items).ne hne, ?_⟩⟩
  · rw [show f s = ofList items from selectAllOrClear_of_missing h, mem_ofList]
  · rcases s.selectAllOrClear_eq_or items with hs | hs
    · rw [show f s = empty from hs] at hx
      exact absurd hx (not_mem_empty x)
    · rw [show f s = ofList items from hs] at hx
      exact mem_ofList.mp hx
  · rcases s.selectAllOrClear_eq_or items with hs | hs
    · exact .inl (size_eq_zero_iff.mpr hs)
    · exact .inr ((congrArg size hs).trans (size_ofList items))
  · exact s.selectAllOrClear_congr h
  · exact s.selectAllOrClear_thrice items
  · intro session toggles counts count next _ hitems left turned
    have hturns : Turns items left turned :=
      hitems ▸ session.turns_clicked toggles counts count next
    exact ⟨hturns, hturns.ne hne⟩

/-- Two items, one of them given twice, and an id from elsewhere. A toggle completes the items, so the
first click after it clears them and the second one selects them. -/
theorem selectAllOrClear_of_repeated_item :
    let items := ["b", "é", "b"]
    let s := ofList ["b", "z"]
    let session : Session := ⟨.initial, items, s, .english⟩
    items ≠ [] ∧ (∃ x ∈ items, x ∉ s) ∧ (∀ x, x ∈ s.selectAllOrClear items ↔ x ∈ items) ∧
      (s.selectAllOrClear items).ids = ["b", "é"] ∧
      (∀ x ∈ items, x ∈ s.toggle "é") ∧ (s.toggle "é").selectAllOrClear items = empty ∧
      (∀ x, x ∈ items.reverse.dedup ↔ x ∈ items) ∧
      s.selectAllOrClear items.reverse.dedup = s.selectAllOrClear items ∧
      (session.clicked ["é"] ([] ++ [none])).selection.ids = [] ∧
      (session.clicked ["é"] ([] ++ [none] ++ [some 7])).selection.ids = ["b", "é"] ∧
      Turns items (session.clicked ["é"] ([] ++ [none])).selection
        (session.clicked ["é"] ([] ++ [none] ++ [some 7])).selection := by
  intro items s session
  obtain ⟨-, hselected, -, -, hset, -, hturns⟩ := selectAllOrClear_alternates s items
  obtain ⟨hcleared, -⟩ := selectAllOrClear_alternates (s.toggle "é") items
  have hne : items ≠ [] := List.cons_ne_nil _ _
  have hmissing : ∃ x ∈ items, x ∉ s := ⟨"é", by decide, by decide +kernel⟩
  have hfull : ∀ x ∈ items, x ∈ s.toggle "é" := by decide +kernel
  have hsame : ∀ x, x ∈ items.reverse.dedup ↔ x ∈ items := fun x => by simp
  exact ⟨hne, hmissing, hselected (.inr hmissing), by decide +kernel, hfull,
    hcleared hne hfull, hsame, hset _ hsame, by decide +kernel, by decide +kernel,
    ((hturns hne).2 session ["é"] [] none (some 7) rfl rfl).1⟩

end Selection

end AdminPanel
