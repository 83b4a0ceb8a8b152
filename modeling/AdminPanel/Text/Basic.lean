/-! # Characters

Splitting at separators, the Unicode property White_Space with trimming and words, and hexadecimal
digits. Format characters such as the zero width space or the byte order mark do not have the
property, and neither do the control characters that separate records. -/

namespace AdminPanel.Text

/-! ## Splitting at separators

A text with n separators has n + 1 parts, some of them possibly empty. -/

/-- The parts between the separators, empty ones included. -/
def splitWhere (isSeparator : Char → Bool) : List Char → List (List Char)
  | [] => [[]]
  | c :: cs =>
    if isSeparator c then [] :: splitWhere isSeparator cs
    else match splitWhere isSeparator cs with
      | part :: parts => (c :: part) :: parts
      | [] => [[c]]

theorem splitWhere_ne_nil (isSeparator : Char → Bool) (cs : List Char) :
    splitWhere isSeparator cs ≠ [] := by
  cases cs with
  | nil => simp [splitWhere]
  | cons c cs =>
    simp only [splitWhere]
    split
    · simp
    · split <;> simp

def dotted (s : String) : List String := (splitWhere (· == '.') s.toList).map String.ofList

/-! ## Blanks -/

/-- The ranges of White_Space, ascending, both ends included. -/
def blankRanges : List (Nat × Nat) :=
  [(0x0009, 0x000D), (0x0020, 0x0020), (0x0085, 0x0085), (0x00A0, 0x00A0), (0x1680, 0x1680),
   (0x2000, 0x200A), (0x2028, 0x2029), (0x202F, 0x202F), (0x205F, 0x205F), (0x3000, 0x3000)]

def isBlank (c : Char) : Bool :=
  blankRanges.any fun range => decide (range.1 ≤ c.toNat) && decide (c.toNat ≤ range.2)

def trim (cs : List Char) : List Char :=
  ((cs.dropWhile isBlank).reverse.dropWhile isBlank).reverse

def trimmed (s : String) : String := String.ofList (trim s.toList)

/-- A text of blanks alone, or the empty one. -/
def allBlank (s : String) : Bool := s.toList.all isBlank

/-- The maximal runs of characters that are not blank, in order. -/
def words (s : String) : List String :=
  ((splitWhere isBlank s.toList).filter fun word => !word.isEmpty).map String.ofList

/-- A text of blanks alone trims to nothing. -/
theorem trim_eq_nil_of_all {cs : List Char} (h : ∀ c ∈ cs, isBlank c = true) : trim cs = [] := by
  have hd : cs.dropWhile isBlank = [] := by
    induction cs with
    | nil => rfl
    | cons c cs ih => simp [h c (by simp), ih fun d hd => h d (by simp [hd])]
  simp [trim, hd]

/-! ## Hexadecimal digits -/

/-- The value of a hexadecimal digit: 0 to 9, or a to f in either letter case. -/
def hexDigit? (c : Char) : Option Nat :=
  if 0x30 ≤ c.toNat ∧ c.toNat ≤ 0x39 then some (c.toNat - 0x30)
  else if 0x61 ≤ c.toNat ∧ c.toNat ≤ 0x66 then some (c.toNat - 0x61 + 10)
  else if 0x41 ≤ c.toNat ∧ c.toNat ≤ 0x46 then some (c.toNat - 0x41 + 10)
  else none

theorem hexDigit?_lt {c : Char} {digit : Nat} (h : hexDigit? c = some digit) : digit < 16 := by
  simp only [hexDigit?] at h
  split at h
  · simp only [Option.some.injEq] at h; omega
  · split at h
    · simp only [Option.some.injEq] at h; omega
    · split at h
      · simp only [Option.some.injEq] at h; omega
      · simp at h

end AdminPanel.Text
