import AdminPanel.Number.Shortest
import AdminPanel.Text.Basic
import AdminPanel.Text.Slice

/-! # Colours

A colour is written with a number sign and six hexadecimal digits, two for each channel, or with
three, each standing for its double. A channel is read as a number in base sixteen, and such a
number may have a plus sign in front of its digits.

Reading slices the text by byte offsets and multiplies in eight bits, and each of these steps may
be out of place or out of range. **`read?_isSome`**: none of them ever is. -/

namespace AdminPanel

open Text (hexDigit? hexDigit?_lt slice? byteLength)

structure Colour where
  red : UInt8
  green : UInt8
  blue : UInt8
deriving DecidableEq, Repr

namespace Colour

/-! ## Numbers in base sixteen -/

/-- The value of a row of digits added to the value of the digits before it; `none` at another
character or when eight bits are too few. -/
def readDigits? (value : Nat) : List Char → Option Nat
  | [] => some value
  | c :: cs => do
    let digit ← hexDigit? c
    if 16 * value + digit < 256 then readDigits? (16 * value + digit) cs else none

/-- A number of eight bits in base sixteen, with or without a plus sign in front. A sign alone is no
number. -/
def readByte? : List Char → Option UInt8
  | [] => none
  | c :: cs =>
    let digits := if c = '+' ∧ cs ≠ [] then cs else c :: cs
    (readDigits? 0 digits).map UInt8.ofNat

/-! ## Checked steps -/

/-- The product in eight bits; `none` when it does not fit. -/
def multiply? (a b : UInt8) : Option UInt8 :=
  if a.toNat * b.toNat < 256 then some (a * b) else none

/-- The number between two byte offsets. The outer `none` is a slice out of place, the inner one a
text that is no number. -/
def channel? (digits : List Char) (first last : Nat) : Option (Option UInt8) :=
  (slice? digits first last).map readByte?

/-- The number at one byte offset, read as a digit that stands for its double. -/
def doubled? (digits : List Char) (first : Nat) : Option (Option UInt8) := do
  match ← channel? digits first (first + 1) with
  | none => return none
  | some digit => return some (← multiply? digit 17)

/-- The colour of three channels that are all numbers. -/
def ofChannels (red green blue : Option UInt8) : Option Colour := do
  return ⟨← red, ← green, ← blue⟩

/-- The colour that a text writes. The outer `none` is a step out of place or out of range, the
inner one a text that writes no colour. -/
def read? : List Char → Option (Option Colour)
  | '#' :: digits =>
    if digits.all fun c => decide (c.toNat < 128) then
      if byteLength digits = 6 then do
        return ofChannels (← channel? digits 0 2) (← channel? digits 2 4) (← channel? digits 4 6)
      else if byteLength digits = 3 then do
        return ofChannels (← doubled? digits 0) (← doubled? digits 1) (← doubled? digits 2)
      else some none
    else some none
  | _ => some none

/-! ## Every step is in place and in range -/

/-- A one-character number is a digit, so its product with seventeen fits. -/
theorem multiply?_of_readByte? {c : Char} {digit : UInt8} (h : readByte? [c] = some digit) :
    (multiply? digit 17).isSome := by
  simp only [readByte?, ne_eq, not_true_eq_false, and_false, if_false] at h
  obtain ⟨n, hn, rfl⟩ := Option.map_eq_some_iff.mp h
  simp only [readDigits?] at hn
  cases hd : hexDigit? c with
  | none => simp [hd] at hn
  | some d =>
    have hlt := hexDigit?_lt hd
    have : n = d := by simp [hd] at hn; omega
    subst this
    have : (UInt8.ofNat n).toNat = n := UInt8.toNat_ofNat_of_lt' (by show n < 256; omega)
    simp only [multiply?, this]
    rw [if_pos (by show n * 17 < 256; omega)]
    rfl

/-- Texts of ASCII characters have as many bytes as characters. -/
theorem byteLength_of_ascii {cs : List Char} (h : ∀ c ∈ cs, c.toNat < 128) :
    byteLength cs = cs.length := by
  induction cs with
  | nil => rfl
  | cons c cs ih =>
    have hc : c.utf8Size = 1 := by
      have := h c (by simp)
      simp only [Char.utf8Size, Char.toNat] at *
      rw [if_pos (by rw [UInt32.le_iff_toNat_le]; show _ ≤ 127; omega)]
    simp [hc, ih fun d hd => h d (by simp [hd]), Nat.add_comm]

/-- In a text of ASCII characters every offset is between two characters. -/
theorem slice?_of_ascii {a b c : List Char} (h : ∀ d ∈ a ++ (b ++ c), d.toNat < 128) :
    slice? (a ++ (b ++ c)) a.length (a.length + b.length) = some b := by
  have ha : byteLength a = a.length := byteLength_of_ascii fun d hd => h d (by simp [hd])
  have hb : byteLength b = b.length := byteLength_of_ascii fun d hd => h d (by simp [hd])
  have := Text.slice?_append a b c
  rwa [ha, hb] at this

theorem doubled?_of_ascii {a c : List Char} {d : Char} (h : ∀ e ∈ a ++ ([d] ++ c), e.toNat < 128) :
    (doubled? (a ++ ([d] ++ c)) a.length).isSome := by
  have hs : slice? (a ++ ([d] ++ c)) a.length (a.length + 1) = some [d] := slice?_of_ascii h
  simp only [doubled?, channel?, hs, Option.map_some]
  cases hr : readByte? [d] with
  | none => rfl
  | some digit =>
    obtain ⟨p, hp⟩ := Option.isSome_iff_exists.mp (multiply?_of_readByte? hr)
    simp [hp]

theorem read?_isSome (text : List Char) : (read? text).isSome := by
  unfold read?
  split
  · rename_i digits
    split
    · rename_i hall
      have hascii : ∀ c ∈ digits, c.toNat < 128 := by simpa using hall
      rw [byteLength_of_ascii hascii]
      split
      · rename_i hlen
        match digits, hlen with
        | [a, b, c, d, e, f], _ =>
          have s1 : slice? [a, b, c, d, e, f] 0 2 = some [a, b] :=
            slice?_of_ascii (a := []) (b := [a, b]) (c := [c, d, e, f]) hascii
          have s2 : slice? [a, b, c, d, e, f] 2 4 = some [c, d] :=
            slice?_of_ascii (a := [a, b]) (b := [c, d]) (c := [e, f]) hascii
          have s3 : slice? [a, b, c, d, e, f] 4 6 = some [e, f] :=
            slice?_of_ascii (a := [a, b, c, d]) (b := [e, f]) (c := []) hascii
          simp [channel?, s1, s2, s3]
      · split
        · rename_i hlen
          match digits, hlen with
          | [a, b, c], _ =>
            have d1 : (doubled? [a, b, c] 0).isSome :=
              doubled?_of_ascii (a := []) (d := a) (c := [b, c]) hascii
            have d2 : (doubled? [a, b, c] 1).isSome :=
              doubled?_of_ascii (a := [a]) (d := b) (c := [c]) hascii
            have d3 : (doubled? [a, b, c] 2).isSome :=
              doubled?_of_ascii (a := [a, b]) (d := c) (c := []) hascii
            obtain ⟨r1, h1⟩ := Option.isSome_iff_exists.mp d1
            obtain ⟨r2, h2⟩ := Option.isSome_iff_exists.mp d2
            obtain ⟨r3, h3⟩ := Option.isSome_iff_exists.mp d3
            simp [h1, h2, h3]
        · rfl
    · rfl
  · rfl

/-- The colour that a text writes, if it writes one. -/
def ofText? (text : String) : Option Colour := (read? text.toList).get (read?_isSome _)

end Colour

/-! ## Faded colours

The opacity is brought into the range from zero to one and written plainly by its shortest decimal;
a negative zero keeps its sign. -/

inductive FadeError where
  | invalidHex (hex : String)
deriving DecidableEq, Repr

def FadeError.message : FadeError → String
  | .invalidHex hex => "invalid hex colour '" ++ hex ++ "'"

/-- The numeral of a finite opacity. -/
def opacityText (alpha : Binary32) : String :=
  (if alpha.negative then "-" else "") ++
    (if alpha.isZero then "0" else (Shortest.decimal .binary32 alpha.pattern).plain)

/-- A colour with an opacity, in the notation of style sheets. -/
def Colour.withOpacity (colour : Colour) (alpha : Binary32) : String :=
  "rgba(" ++ Nat.repr colour.red.toNat ++ ", " ++ Nat.repr colour.green.toNat ++ ", " ++
    Nat.repr colour.blue.toNat ++ ", " ++ opacityText alpha ++ ")"

/-- The colour written by `hex` at an opacity. -/
def fade (hex : String) (alpha : Binary32) : Except FadeError String :=
  match Colour.ofText? hex with
  | some colour => .ok (colour.withOpacity alpha.clampUnit)
  | none => .error (.invalidHex hex)

end AdminPanel
