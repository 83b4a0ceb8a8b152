import AdminPanel.Proofs.Text.Bytes
import AdminPanel.Proofs.Theme.HexColour

/-! # Reading a colour is in place and in range

The length of a colour is a number of bytes, and so are the offsets that its channels are sliced out
by; a channel of one digit is multiplied in eight bits. `Reads` says which slices and products a text
leads to, each with what makes it safe: a slice begins and ends at boundaries, and a product is what
it is among all numbers. Reading has a result exactly when this can be said of all its steps
(`read?_eq_some_iff`), and it has one for every text (`fade_in_place`). -/
namespace AdminPanel
open Text (hexDigit? hexDigit?_lt byteLength IsSlice slice?_eq_some_iff size_utf8Encode)

namespace Colour

/-! ## Slices and products -/

/-- A channel of two digits is the number in two bytes. -/
inductive ReadsPair (digits : List Char) (first : Nat) : Option UInt8 → Prop
  | number {part : List Char} : IsSlice digits first (first + 2) part →
      part.utf8Encode.size = 2 → ReadsPair digits first (readByte? part)

/-- A channel of one digit is seventeen times the number in one byte. Such a number is at most
fifteen, so that the product has eight bits. -/
inductive ReadsDouble (digits : List Char) (first : Nat) : Option UInt8 → Prop
  | noNumber {part : List Char} : IsSlice digits first (first + 1) part →
      readByte? part = none → ReadsDouble digits first none
  | double {part : List Char} {digit : UInt8} : IsSlice digits first (first + 1) part →
      readByte? part = some digit → digit.toNat ≤ 15 → (digit * 17).toNat = digit.toNat * 17 →
      ReadsDouble digits first (some (digit * 17))

theorem channel?_eq_some_iff {digits : List Char} {first last : Nat} {number : Option UInt8} :
    channel? digits first last = some number ↔
      ∃ part, IsSlice digits first last part ∧ readByte? part = number := by
  simp only [channel?, Option.map_eq_some_iff, slice?_eq_some_iff]

/-- A product fits exactly when it is the same in eight bits and among all numbers. -/
theorem multiply?_eq_some_iff {a b product : UInt8} :
    multiply? a b = some product ↔ (a * b).toNat = a.toNat * b.toNat ∧ a * b = product := by
  rw [multiply?, UInt8.toNat_mul]
  split
  · rename_i hfits
    simp [Nat.mod_eq_of_lt hfits]
  · rename_i hlarge
    have hless : a.toNat * b.toNat % 2 ^ 8 < 256 := Nat.mod_lt _ (by decide)
    simp only [reduceCtorEq, false_iff]
    rintro ⟨hsame, -⟩
    omega

theorem channel?_eq_some_iff_readsPair {digits : List Char} {first : Nat} {number : Option UInt8} :
    channel? digits first (first + 2) = some number ↔ ReadsPair digits first number := by
  rw [channel?_eq_some_iff]
  constructor
  · intro h
    obtain ⟨part, hslice, rfl⟩ := h
    have hsize := hslice.byteLength_eq
    exact .number hslice (by rw [size_utf8Encode]; omega)
  · intro h
    obtain ⟨hslice, -⟩ := h
    exact ⟨_, hslice, rfl⟩

/-- One byte is one character, and a sign alone is no number. -/
theorem toNat_le_of_byteLength {part : List Char} {digit : UInt8} (hsize : byteLength part = 1)
    (h : readByte? part = some digit) : digit.toNat ≤ 15 := by
  have hlength := Text.length_le_byteLength part
  match part with
  | [] => cases h
  | [c] =>
    rw [readByte?_single] at h
    obtain ⟨x, hx, rfl⟩ := Option.map_eq_some_iff.mp h
    have hless := hexDigit?_lt hx
    rw [UInt8.toNat_ofNat_of_lt' (by show x < 256; omega)]
    omega
  | c :: d :: rest =>
    rw [hsize, List.length_cons, List.length_cons] at hlength
    omega

theorem doubled?_eq_some_iff {digits : List Char} {first : Nat} {number : Option UInt8} :
    doubled? digits first = some number ↔ ReadsDouble digits first number := by
  constructor
  · intro h
    obtain ⟨channel, hchannel, h⟩ := Option.bind_eq_some_iff.mp h
    obtain ⟨part, hslice, rfl⟩ := channel?_eq_some_iff.mp hchannel
    split at h
    · rename_i hnone
      cases h
      exact .noNumber hslice hnone
    · rename_i digit hdigit
      obtain ⟨product, hproduct, h⟩ := Option.bind_eq_some_iff.mp h
      obtain ⟨hfits, rfl⟩ := multiply?_eq_some_iff.mp hproduct
      cases h
      have hsize := hslice.byteLength_eq
      exact .double hslice hdigit (toNat_le_of_byteLength (by omega) hdigit) hfits
  · rintro (⟨hslice, hnone⟩ | ⟨hslice, hdigit, -, hfits⟩)
    · have hchannel := channel?_eq_some_iff.mpr ⟨_, hslice, hnone⟩
      simp [doubled?, hchannel]
    · have hchannel := channel?_eq_some_iff.mpr ⟨_, hslice, hdigit⟩
      have hproduct := multiply?_eq_some_iff.mpr ⟨hfits, rfl⟩
      simp [doubled?, hchannel, hproduct]

/-! ## Reading -/

/-- The slices and products by which a text is read. The length is looked at only after all bytes
have been found to be ASCII characters; no step is taken for a text of another form. -/
inductive Reads : List Char → Option Colour → Prop
  | six {digits : List Char} {red green blue : Option UInt8} : (∀ c ∈ digits, c.toNat < 128) →
      byteLength digits = 6 → ReadsPair digits 0 red → ReadsPair digits 2 green →
      ReadsPair digits 4 blue → Reads ('#' :: digits) (ofChannels red green blue)
  | three {digits : List Char} {red green blue : Option UInt8} : (∀ c ∈ digits, c.toNat < 128) →
      byteLength digits = 3 → ReadsDouble digits 0 red → ReadsDouble digits 1 green →
      ReadsDouble digits 2 blue → Reads ('#' :: digits) (ofChannels red green blue)
  | otherLength {digits : List Char} : (∀ c ∈ digits, c.toNat < 128) →
      byteLength digits ≠ 6 → byteLength digits ≠ 3 → Reads ('#' :: digits) none
  | notAscii {digits : List Char} : ¬ (∀ c ∈ digits, c.toNat < 128) → Reads ('#' :: digits) none
  | noNumberSign {text : List Char} : (∀ digits, text ≠ '#' :: digits) → Reads text none

theorem reads_of_read? {text : List Char} {colour : Option Colour} (h : read? text = some colour) :
    Reads text colour := by
  rw [read?.eq_def] at h
  split at h
  · split at h
    · rename_i hascii
      rw [all_ascii_iff] at hascii
      split at h
      · rename_i hsix
        obtain ⟨red, hred, h⟩ := Option.bind_eq_some_iff.mp h
        obtain ⟨green, hgreen, h⟩ := Option.bind_eq_some_iff.mp h
        obtain ⟨blue, hblue, h⟩ := Option.bind_eq_some_iff.mp h
        cases h
        exact .six hascii hsix (channel?_eq_some_iff_readsPair.mp hred)
          (channel?_eq_some_iff_readsPair.mp hgreen) (channel?_eq_some_iff_readsPair.mp hblue)
      · rename_i hsix
        split at h
        · rename_i hthree
          obtain ⟨red, hred, h⟩ := Option.bind_eq_some_iff.mp h
          obtain ⟨green, hgreen, h⟩ := Option.bind_eq_some_iff.mp h
          obtain ⟨blue, hblue, h⟩ := Option.bind_eq_some_iff.mp h
          cases h
          exact .three hascii hthree (doubled?_eq_some_iff.mp hred)
            (doubled?_eq_some_iff.mp hgreen) (doubled?_eq_some_iff.mp hblue)
        · rename_i hthree
          cases h
          exact .otherLength hascii hsix hthree
    · rename_i hascii
      cases h
      exact .notAscii (mt all_ascii_iff.mpr hascii)
  · rename_i hsign
    cases h
    exact .noNumberSign hsign

theorem Reads.read?_eq {text : List Char} {colour : Option Colour} (h : Reads text colour) :
    read? text = some colour := by
  cases h with
  | six hascii hsix hred hgreen hblue =>
    rw [read?, if_pos (all_ascii_iff.mpr hascii), if_pos hsix,
      channel?_eq_some_iff_readsPair.mpr hred, channel?_eq_some_iff_readsPair.mpr hgreen,
      channel?_eq_some_iff_readsPair.mpr hblue]
    rfl
  | three hascii hthree hred hgreen hblue =>
    rw [read?, if_pos (all_ascii_iff.mpr hascii), if_neg (by omega), if_pos hthree,
      doubled?_eq_some_iff.mpr hred, doubled?_eq_some_iff.mpr hgreen,
      doubled?_eq_some_iff.mpr hblue]
    rfl
  | otherLength hascii hsix hthree =>
    rw [read?, if_pos (all_ascii_iff.mpr hascii), if_neg hsix, if_neg hthree]
  | notAscii hascii => rw [read?, if_neg (mt all_ascii_iff.mp hascii)]
  | noNumberSign hsign =>
    rw [read?.eq_def]
    split
    · exact absurd rfl (hsign _)
    · rfl

/-- **Reading has a result exactly when every slice is in place and every product in range.** -/
theorem read?_eq_some_iff {text : List Char} {colour : Option Colour} :
    read? text = some colour ↔ Reads text colour :=
  ⟨reads_of_read?, Reads.read?_eq⟩

/-- Six bytes alone would not do: a character of two bytes can stand across the end of a slice. -/
example : Text.slice? ['a', 'é', 'b', 'c', 'd'] 0 2 = none := by decide

end Colour

/-- **A colour is read in place and in range**, whatever the text is, so fading it gives a colour or
the error that names the text. One reading can be made of the text. Every slice in it lies within the
row of digits and cuts no character, and has two bytes where there are two digits for a channel;
every digit that is multiplied is at most fifteen, and its product does not wrap. -/
theorem fade_in_place (hex : String) (alpha : Binary32) :
    ∃ colour, (∀ other, Colour.Reads hex.toList other ↔ other = colour) ∧
      Colour.read? hex.toList = some colour ∧
      fade hex alpha = match colour with
        | some colour => .ok (colour.withOpacity alpha.clampUnit)
        | none => .error (.invalidHex hex) := by
  have hread : Colour.read? hex.toList = some (Colour.ofText? hex) := (Option.some_get _).symm
  refine ⟨Colour.ofText? hex, fun other => ?_, hread, rfl⟩
  rw [← Colour.read?_eq_some_iff, hread, Option.some.injEq, eq_comm]

end AdminPanel
