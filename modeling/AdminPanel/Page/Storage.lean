import AdminPanel.Json.Parser

/-! # Local storage

A store of texts under keys, each key once. Preferences are stored as JSON strings; a text that is
not JSON, or not the JSON of a string, counts as nothing stored. -/

namespace AdminPanel

structure Storage where
  entries : List (String × String)
deriving DecidableEq, Repr

namespace Storage

def empty : Storage := ⟨[]⟩

def get? (storage : Storage) (key : String) : Option String := storage.entries.lookup key

/-- The entries with a text under a key, which stays at its place if it has one. -/
def putEntry (key value : String) : List (String × String) → List (String × String)
  | [] => [(key, value)]
  | entry :: entries =>
    if entry.1 = key then (key, value) :: entries else entry :: putEntry key value entries

def put (storage : Storage) (key value : String) : Storage := ⟨putEntry key value storage.entries⟩

def putString (storage : Storage) (key value : String) : Storage :=
  storage.put key (Json.quoted value)

def string? (storage : Storage) (key : String) : Option String :=
  ((storage.get? key).bind Json.ofText?).bind Json.string?

/-- The store of a list of entries; of two under one key the later counts. -/
def ofList (entries : List (String × String)) : Storage :=
  entries.foldl (fun storage entry => storage.put entry.1 entry.2) empty

/-! ## Small facts -/

theorem lookup_cons_eq (key value other : String) (entries : List (String × String)) :
    List.lookup other ((key, value) :: entries) =
      if other = key then some value else List.lookup other entries := by
  rw [List.lookup_cons]
  by_cases h : other = key
  · simp [h]
  · have hb : (other == key) = false := by simpa using h
    simp [h, hb]

/-- A text put under a key is found there, and the other keys are as before. -/
theorem get?_put (storage : Storage) (key value other : String) :
    (storage.put key value).get? other =
      if other = key then some value else storage.get? other := by
  obtain ⟨entries⟩ := storage
  simp only [put, get?]
  induction entries with
  | nil => exact lookup_cons_eq key value other []
  | cons entry entries ih =>
    obtain ⟨name, text⟩ := entry
    simp only [putEntry]
    split
    · rename_i hk
      subst hk
      rw [lookup_cons_eq, lookup_cons_eq]
      split <;> rfl
    · rename_i hk
      rw [lookup_cons_eq, lookup_cons_eq, ih]
      by_cases h : other = name
      · have hn : other ≠ key := fun he => hk (h ▸ he)
        rw [if_pos h, if_neg hn, if_pos h]
      · rw [if_neg h, if_neg h]

end Storage

end AdminPanel
