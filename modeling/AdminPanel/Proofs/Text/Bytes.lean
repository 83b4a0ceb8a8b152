import AdminPanel.Proofs.Text.Occurrence

/-! # Texts as bytes

Offsets count the bytes of the UTF-8 form of a text, and not every row of bytes taken from it is a
text again. A slice has a result exactly when both of its offsets are between characters, and then
it is the bytes between them (`slice?_eq_some_iff`). A search finds the first place where the bytes
of a pattern stand, wherever that may be among the bytes of the text (`find?_eq_some_iff`): the
bytes of a character never begin within another one, so a place that fits is between characters. -/
namespace AdminPanel.Text

/-- An offset within the bytes of a text that is not inside of a character. -/
def IsBoundary (cs : List Char) (offset : Nat) : Prop :=
  String.Pos.Raw.IsValid (String.ofList cs) ⟨offset⟩

/-- A text made of the bytes of another one between two offsets, both of them boundaries. -/
structure IsSlice (cs : List Char) (first last : Nat) (part : List Char) : Prop where
  ordered : first ≤ last
  first_boundary : IsBoundary cs first
  last_boundary : IsBoundary cs last
  bytes : part.utf8Encode = cs.utf8Encode.extract first last

/-- The bytes of a pattern stand at an offset of a text. -/
def StandsAt (pattern cs : List Char) (offset : Nat) : Prop :=
  cs.utf8Encode.extract offset (offset + pattern.utf8Encode.size) = pattern.utf8Encode

/-- The first offset where they stand. -/
structure FirstAt (pattern cs : List Char) (offset : Nat) : Prop where
  stands : StandsAt pattern cs offset
  first : ∀ earlier, StandsAt pattern cs earlier → offset ≤ earlier

/-! ## Boundaries -/

theorem size_utf8Encode (cs : List Char) : cs.utf8Encode.size = byteLength cs := by
  induction cs with
  | nil => rfl
  | cons c cs ih =>
    rw [List.utf8Encode_cons, ByteArray.size_append, ih, List.utf8Encode_singleton]
    simp

theorem utf8Encode_inj {a b : List Char} : a.utf8Encode = b.utf8Encode ↔ a = b := by
  rw [← String.toByteArray_ofList, ← String.toByteArray_ofList, String.toByteArray_inj,
    String.ofList_inj]

theorem byteLength_toList (s : String) : byteLength s.toList = s.utf8ByteSize := by
  rw [← size_utf8Encode, String.utf8Encode_toList, String.size_toByteArray]

theorem isBoundary_iff {cs : List Char} {offset : Nat} :
    IsBoundary cs offset ↔ ∃ a b, cs = a ++ b ∧ byteLength a = offset := by
  rw [IsBoundary, String.Pos.Raw.isValid_ofList]
  constructor
  · intro h
    obtain ⟨i, hi⟩ := h
    refine ⟨cs.take i, cs.drop i, (List.take_append_drop i cs).symm, ?_⟩
    have hsize : offset = (String.ofList (cs.take i)).utf8ByteSize := hi
    rw [hsize, ← byteLength_toList, String.toList_ofList]
  · intro h
    obtain ⟨a, b, rfl, rfl⟩ := h
    refine ⟨a.length, ?_⟩
    rw [List.take_left, ← byteLength_toList, String.toList_ofList]

/-- Of two texts that another one begins with, the one of fewer bytes begins the other. -/
theorem prefix_of_byteLength_le {a b cs : List Char} (ha : a <+: cs) (hb : b <+: cs)
    (h : byteLength a ≤ byteLength b) : a <+: b := by
  rcases List.prefix_or_prefix_of_prefix ha hb with hab | ⟨rest, rfl⟩
  · exact hab
  · have hlength := length_le_byteLength rest
    rw [byteLength_append] at h
    have hrest : rest = [] := List.length_eq_zero_iff.mp (by omega)
    exact ⟨[], by rw [hrest, List.append_nil, List.append_nil]⟩

/-! ## Slices -/

theorem extract_utf8Encode (a part b : List Char) :
    (a ++ (part ++ b)).utf8Encode.extract (byteLength a) (byteLength a + byteLength part) =
      part.utf8Encode := by
  rw [List.utf8Encode_append, List.utf8Encode_append, ← size_utf8Encode, ← size_utf8Encode]
  exact (ByteArray.extract_append_size_add (i := 0)).trans (ByteArray.extract_append_eq_left rfl)

theorem isSlice_iff {cs part : List Char} {first last : Nat} : IsSlice cs first last part ↔
    ∃ a b, cs = a ++ (part ++ b) ∧ byteLength a = first ∧ first + byteLength part = last := by
  constructor
  · intro h
    obtain ⟨hordered, hfirst, hlast, hbytes⟩ := h
    obtain ⟨a, rest, rfl, rfl⟩ := isBoundary_iff.mp hfirst
    obtain ⟨front, b, hcs, rfl⟩ := isBoundary_iff.mp hlast
    obtain ⟨between, rfl⟩ :=
      prefix_of_byteLength_le (List.prefix_append a rest) (hcs ▸ List.prefix_append front b) hordered
    rw [hcs, List.append_assoc, byteLength_append, extract_utf8Encode, utf8Encode_inj] at hbytes
    rw [hcs, hbytes, List.append_assoc, byteLength_append]
    exact ⟨a, b, rfl, rfl, rfl⟩
  · intro h
    obtain ⟨a, b, rfl, rfl, rfl⟩ := h
    refine ⟨Nat.le_add_right _ _, isBoundary_iff.mpr ⟨a, part ++ b, rfl, rfl⟩,
      isBoundary_iff.mpr ⟨a ++ part, b, (List.append_assoc ..).symm, byteLength_append a part⟩, ?_⟩
    exact (extract_utf8Encode a part b).symm

theorem IsSlice.byteLength_eq {cs part : List Char} {first last : Nat}
    (h : IsSlice cs first last part) : first + byteLength part = last := by
  obtain ⟨-, -, -, -, hlast⟩ := isSlice_iff.mp h
  exact hlast

/-- The bytes up to an offset and those from it on make up the text. -/
theorem IsSlice.eq_append {cs before after : List Char} {offset : Nat}
    (hb : IsSlice cs 0 offset before) (ha : IsSlice cs offset (byteLength cs) after) :
    cs = before ++ after := by
  rw [← utf8Encode_inj, List.utf8Encode_append, hb.bytes, ha.bytes,
    ← ByteArray.extract_eq_extract_append_extract offset hb.ordered ha.ordered, ← size_utf8Encode,
    ByteArray.extract_zero_size]

/-- **A slice has a result exactly when it is in place**, and then it is the bytes between its
offsets. -/
theorem slice?_eq_some_iff {cs part : List Char} {first last : Nat} :
    slice? cs first last = some part ↔ IsSlice cs first last part := by
  rw [isSlice_iff, slice?]
  split
  · simp only [Option.bind_eq_some_iff, Option.map_eq_some_iff, Prod.exists, cut?_eq_some_iff]
    constructor
    · intro h
      obtain ⟨a, rest, ⟨rfl, rfl⟩, between, b, ⟨rfl, hbetween⟩, rfl⟩ := h
      exact ⟨a, b, rfl, rfl, by omega⟩
    · intro h
      obtain ⟨a, b, rfl, rfl, rfl⟩ := h
      exact ⟨a, part ++ b, ⟨rfl, rfl⟩, part, b, ⟨rfl, by omega⟩, rfl⟩
  · rename_i hordered
    simp only [reduceCtorEq, false_iff]
    rintro ⟨a, b, -, -, hlast⟩
    omega

/-- A slice to the end of a text has the byte length of the text for its second offset. -/
theorem sliceFrom?_eq_some_iff {cs part : List Char} {first : Nat} :
    sliceFrom? cs first = some part ↔ IsSlice cs first (byteLength cs) part := by
  rw [isSlice_iff, sliceFrom?]
  simp only [Option.map_eq_some_iff, Prod.exists, cut?_eq_some_iff]
  constructor
  · intro h
    obtain ⟨a, b, ⟨rfl, rfl⟩, rfl⟩ := h
    exact ⟨a, [], by simp⟩
  · intro h
    obtain ⟨a, b, hcs, rfl, hlast⟩ := h
    refine ⟨a, part, ⟨?_, rfl⟩, rfl⟩
    have hlength := length_le_byteLength b
    rw [hcs, byteLength_append, byteLength_append] at hlast
    have hb : b = [] := List.length_eq_zero_iff.mp (by omega)
    rw [hcs, hb, List.append_nil]

/-! ## Searching -/

/-- The bytes of a pattern stand nowhere but between characters, since what they spell is a text. -/
theorem StandsAt.isSlice {pattern cs : List Char} {offset : Nat} (hp : pattern ≠ [])
    (h : StandsAt pattern cs offset) : IsSlice cs offset (offset + byteLength pattern) pattern := by
  rw [StandsAt, size_utf8Encode] at h
  have hpos : 0 < byteLength pattern :=
    Nat.lt_of_lt_of_le (List.length_pos_iff.mpr hp) (length_le_byteLength pattern)
  have hsize := congrArg ByteArray.size h
  rw [ByteArray.size_extract, size_utf8Encode, size_utf8Encode] at hsize
  have hlast : offset + byteLength pattern ≤ (String.ofList cs).utf8ByteSize := by
    rw [← byteLength_toList, String.toList_ofList]
    omega
  have hvalid : ((String.ofList cs).toByteArray.extract offset
      (offset + byteLength pattern)).IsValidUTF8 := by
    rw [String.toByteArray_ofList, h]
    exact ByteArray.isValidUTF8_utf8Encode
  have hboth := (String.Pos.Raw.isValidUTF8_extract_iff ⟨offset⟩ ⟨offset + byteLength pattern⟩
    (Nat.le_add_right ..) hlast).mp hvalid
  rcases hboth with heq | ⟨hfirst, hend⟩
  · have := congrArg String.Pos.Raw.byteIdx heq
    simp at this
    omega
  · exact ⟨Nat.le_add_right .., hfirst, hend, h.symm⟩

theorem standsAt_iff {pattern cs : List Char} {offset : Nat} (hp : pattern ≠ []) :
    StandsAt pattern cs offset ↔ ∃ a b, cs = a ++ (pattern ++ b) ∧ byteLength a = offset := by
  constructor
  · intro h
    obtain ⟨a, b, hcs, ha, -⟩ := isSlice_iff.mp (h.isSlice hp)
    exact ⟨a, b, hcs, ha⟩
  · intro h
    obtain ⟨a, b, rfl, rfl⟩ := h
    rw [StandsAt, size_utf8Encode]
    exact extract_utf8Encode a pattern b

theorem FirstAt.unique {pattern cs : List Char} {offset other : Nat}
    (h : FirstAt pattern cs offset) (ho : FirstAt pattern cs other) : offset = other :=
  Nat.le_antisymm (h.first _ ho.stands) (ho.first _ h.stands)

/-- The leftmost place by characters is the first one by bytes. -/
theorem Leftmost.firstAt {pattern cs before after : List Char} (hp : pattern ≠ [])
    (h : Leftmost pattern cs before after) : FirstAt pattern cs (byteLength before) := by
  refine ⟨(standsAt_iff hp).mpr ⟨before, after, h.split, rfl⟩, fun earlier hs => ?_⟩
  obtain ⟨front, later, hcs, rfl⟩ := (standsAt_iff hp).mp hs
  obtain ⟨between, rfl⟩ : before <+: front :=
    List.prefix_of_prefix_length_le ⟨_, h.split.symm⟩ ⟨_, hcs.symm⟩ (h.first _ _ hcs)
  rw [byteLength_append]
  exact Nat.le_add_right ..

theorem find?_eq_none_iff {pattern cs : List Char} (hp : pattern ≠ []) :
    find? pattern cs = none ↔ ∀ offset, ¬ StandsAt pattern cs offset := by
  rw [find?_eq_breakOn?, Option.map_eq_none_iff, breakOn?_eq_none_iff]
  constructor
  · intro h offset hs
    obtain ⟨a, b, rfl, -⟩ := (standsAt_iff hp).mp hs
    exact h ⟨a, b, List.append_assoc ..⟩
  · rintro h ⟨a, b, hcs⟩
    rw [List.append_assoc] at hcs
    exact h (byteLength a) ((standsAt_iff hp).mpr ⟨a, b, hcs.symm, rfl⟩)

/-- **A search finds the first place where the bytes of the pattern stand.** -/
theorem find?_eq_some_iff {pattern cs : List Char} {offset : Nat} (hp : pattern ≠ []) :
    find? pattern cs = some offset ↔ FirstAt pattern cs offset := by
  have hfound : ∀ {found}, find? pattern cs = some found → FirstAt pattern cs found := by
    intro found h
    rw [find?_eq_breakOn?] at h
    obtain ⟨⟨before, after⟩, hb, rfl⟩ := Option.map_eq_some_iff.mp h
    exact (breakOn?_eq_some_iff.mp hb).firstAt hp
  refine ⟨hfound, fun h => ?_⟩
  cases hf : find? pattern cs with
  | none => exact absurd h.stands ((find?_eq_none_iff hp).mp hf offset)
  | some found => rw [(hfound hf).unique h]

end AdminPanel.Text
