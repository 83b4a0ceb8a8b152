/-! # Byte offsets

Positions in a text count the bytes of its UTF-8 form. A cut is defined only at an offset that
lies within the text and between two characters; every slice is made of cuts, so an offset out of
place shows as `none` instead of being rounded. -/

namespace AdminPanel.Text

def byteLength : List Char → Nat
  | [] => 0
  | c :: cs => c.utf8Size + byteLength cs

/-- The text before and after a byte offset; `none` past the end or inside a character. -/
def cut? : List Char → Nat → Option (List Char × List Char)
  | cs, 0 => some ([], cs)
  | [], _ + 1 => none
  | c :: cs, n + 1 =>
    if c.utf8Size ≤ n + 1 then
      (cut? cs (n + 1 - c.utf8Size)).map fun sides => (c :: sides.1, sides.2)
    else none

def slice? (cs : List Char) (first last : Nat) : Option (List Char) :=
  if first ≤ last then
    (cut? cs first).bind fun sides => (cut? sides.2 (last - first)).map Prod.fst
  else none

def sliceFrom? (cs : List Char) (first : Nat) : Option (List Char) :=
  (cut? cs first).map Prod.snd

/-- The byte offset of the leftmost occurrence of a pattern. -/
def find? (pattern : List Char) : List Char → Option Nat
  | [] => if pattern.isEmpty then some 0 else none
  | c :: cs =>
    if pattern.isPrefixOf (c :: cs) then some 0
    else (find? pattern cs).map fun offset => c.utf8Size + offset

/-- The text before the leftmost occurrence of a pattern, and the text after that occurrence. -/
def breakOn? (pattern : List Char) : List Char → Option (List Char × List Char)
  | [] => if pattern.isEmpty then some ([], []) else none
  | c :: cs =>
    if pattern.isPrefixOf (c :: cs) then some ([], (c :: cs).drop pattern.length)
    else (breakOn? pattern cs).map fun sides => (c :: sides.1, sides.2)

/-! ## Byte lengths and cuts -/

@[simp] theorem byteLength_nil : byteLength [] = 0 := rfl

@[simp] theorem byteLength_cons (c : Char) (cs : List Char) :
    byteLength (c :: cs) = c.utf8Size + byteLength cs := rfl

@[simp] theorem byteLength_append (a b : List Char) :
    byteLength (a ++ b) = byteLength a + byteLength b := by
  induction a with
  | nil => simp
  | cons c a ih => simp [ih, Nat.add_assoc]

theorem length_le_byteLength (cs : List Char) : cs.length ≤ byteLength cs := by
  induction cs with
  | nil => simp
  | cons c cs ih =>
    have := c.utf8Size_pos
    simp only [List.length_cons, byteLength_cons]
    omega

/-- A cut falls exactly where the bytes before it add up to the offset. -/
theorem cut?_eq_some_iff {cs a b : List Char} {n : Nat} :
    cut? cs n = some (a, b) ↔ cs = a ++ b ∧ byteLength a = n := by
  induction cs generalizing a n with
  | nil =>
    cases n with
    | zero => cases a <;> cases b <;> simp [cut?]
    | succ n => cases a <;> simp [cut?]
  | cons c cs ih =>
    have hpos := c.utf8Size_pos
    cases n with
    | zero =>
      cases a with
      | nil => simp [cut?, eq_comm]
      | cons d a => have := d.utf8Size_pos; simp [cut?]; omega
    | succ n =>
      simp only [cut?]
      cases a with
      | nil => split <;> simp
      | cons d a =>
        split
        · simp only [Option.map_eq_some_iff, Prod.exists, Prod.mk.injEq, List.cons.injEq,
            List.cons_append, byteLength_cons]
          constructor
          · rintro ⟨a', b', h, ⟨rfl, rfl⟩, rfl⟩
            obtain ⟨rfl, hn⟩ := ih.mp h
            exact ⟨⟨rfl, rfl⟩, by omega⟩
          · rintro ⟨⟨rfl, rfl⟩, hn⟩
            exact ⟨a, b, ih.mpr ⟨rfl, by omega⟩, ⟨rfl, rfl⟩, rfl⟩
        · simp only [List.cons_append, List.cons.injEq, byteLength_cons, reduceCtorEq, false_iff]
          rintro ⟨⟨rfl, -⟩, hn⟩
          omega

theorem cut?_append (a b : List Char) : cut? (a ++ b) (byteLength a) = some (a, b) :=
  cut?_eq_some_iff.mpr ⟨rfl, rfl⟩

/-- Offsets that are the byte lengths of two leading parts slice out what lies between. -/
theorem slice?_append (a b c : List Char) :
    slice? (a ++ (b ++ c)) (byteLength a) (byteLength a + byteLength b) = some b := by
  simp [slice?, cut?_append]

theorem sliceFrom?_append (a b : List Char) : sliceFrom? (a ++ b) (byteLength a) = some b := by
  simp [sliceFrom?, cut?_append]

/-! ## Searching -/

/-- Searching by offset and breaking the text find the same place. -/
theorem find?_eq_breakOn? (pattern cs : List Char) :
    find? pattern cs = (breakOn? pattern cs).map fun sides => byteLength sides.1 := by
  induction cs with
  | nil => simp only [find?, breakOn?]; split <;> simp
  | cons c cs ih =>
    simp only [find?, breakOn?]
    split
    · simp
    · simp [ih, Option.map_map, Function.comp_def]

/-- The two sides of a broken text and the pattern make up the text. -/
theorem eq_append_of_breakOn? {pattern cs a b : List Char} (h : breakOn? pattern cs = some (a, b)) :
    cs = a ++ (pattern ++ b) := by
  induction cs generalizing a with
  | nil =>
    simp only [breakOn?] at h
    split at h <;> simp_all
  | cons c cs ih =>
    simp only [breakOn?] at h
    split at h
    · rename_i hp
      obtain ⟨rest, hr⟩ := List.isPrefixOf_iff_prefix.mp hp
      simp only [Option.some.injEq, Prod.mk.injEq] at h
      obtain ⟨rfl, rfl⟩ := h
      simp [← hr]
    · obtain ⟨⟨a', b'⟩, h', he⟩ := Option.map_eq_some_iff.mp h
      simp only [Prod.mk.injEq] at he
      obtain ⟨rfl, rfl⟩ := he
      simpa using ih h'

end AdminPanel.Text
