import AdminPanel.Text.Basic

/-! # JSON strings

Strings hold no control characters. An escape names a character, or one half of a surrogate pair,
whose other half must follow at once. Writing escapes the quote, the backslash and the control
characters, the last by their short names where they have one. -/

namespace AdminPanel.Json

open Text (hexDigit?)

/-! ## Reading -/

/-- Four hexadecimal digits and what follows them. -/
def readUnit? : List Char → Option (Nat × List Char)
  | a :: b :: c :: d :: rest => do
    let unit := 4096 * (← hexDigit? a) + 256 * (← hexDigit? b) + 16 * (← hexDigit? c) +
      (← hexDigit? d)
    return (unit, rest)
  | _ => none

def isHighSurrogate (unit : Nat) : Bool := 0xD800 ≤ unit && unit ≤ 0xDBFF

def isLowSurrogate (unit : Nat) : Bool := 0xDC00 ≤ unit && unit ≤ 0xDFFF

def ofSurrogates (high low : Nat) : Char :=
  Char.ofNat (0x10000 + 1024 * (high - 0xD800) + (low - 0xDC00))

/-- The character that hexadecimal digits name, and what follows them. -/
def readHexEscape? (cs : List Char) : Option (Char × List Char) := do
  let (unit, rest) ← readUnit? cs
  if isHighSurrogate unit then
    match rest with
    | '\\' :: 'u' :: more => do
      let (low, rest) ← readUnit? more
      if isLowSurrogate low then return (ofSurrogates unit low, rest) else none
    | _ => none
  else if isLowSurrogate unit then none
  else return (Char.ofNat unit, rest)

def shortEscape? : Char → Option Char
  | '"' => some '"'
  | '\\' => some '\\'
  | '/' => some '/'
  | 'b' => some '\x08'
  | 'f' => some '\x0c'
  | 'n' => some '\n'
  | 'r' => some '\r'
  | 't' => some '\t'
  | _ => none

/-- One character of a string, raw or escaped, and what follows it. The closing quote is none. -/
def readChar? : List Char → Option (Char × List Char)
  | '\\' :: 'u' :: rest => readHexEscape? rest
  | '\\' :: c :: rest => (shortEscape? c).map fun named => (named, rest)
  | c :: rest => if c = '"' ∨ c = '\\' ∨ c.toNat < 0x20 then none else some (c, rest)
  | [] => none

theorem readUnit?_length {cs rest : List Char} {unit : Nat} (h : readUnit? cs = some (unit, rest)) :
    rest.length < cs.length := by
  unfold readUnit? at h
  split at h
  · simp only [Option.bind_eq_bind, Option.bind_eq_some_iff, Option.pure_def, Option.some.injEq,
      Prod.mk.injEq] at h
    obtain ⟨_, _, _, _, _, _, _, _, _, rfl⟩ := h
    simp only [List.length_cons]
    omega
  · simp at h

theorem readHexEscape?_length {cs rest : List Char} {c : Char}
    (h : readHexEscape? cs = some (c, rest)) : rest.length < cs.length := by
  unfold readHexEscape? at h
  simp only [Option.bind_eq_bind, Option.bind_eq_some_iff, Prod.exists] at h
  obtain ⟨unit, middle, hu, h⟩ := h
  have hm := readUnit?_length hu
  split at h
  · split at h
    · simp only [Option.bind_eq_some_iff, Prod.exists] at h
      obtain ⟨low, last, hl, h⟩ := h
      have := readUnit?_length hl
      split at h
      · simp only [Option.pure_def, Option.some.injEq, Prod.mk.injEq] at h
        simp only [List.length_cons] at hm
        rw [← h.2]; omega
      · simp at h
    · simp at h
  · split at h
    · simp at h
    · simp only [Option.pure_def, Option.some.injEq, Prod.mk.injEq] at h
      rw [← h.2]; exact hm

theorem readChar?_length {cs rest : List Char} {c : Char} (h : readChar? cs = some (c, rest)) :
    rest.length < cs.length := by
  unfold readChar? at h
  split at h
  · have := readHexEscape?_length h
    simp only [List.length_cons]
    omega
  · obtain ⟨_, _, he⟩ := Option.map_eq_some_iff.mp h
    simp only [Prod.mk.injEq] at he
    rw [← he.2]
    simp only [List.length_cons]
    omega
  · split at h
    · simp at h
    · simp only [Option.some.injEq, Prod.mk.injEq] at h
      rw [← h.2]; simp
  · simp at h

/-- The characters of a string up to its closing quote, and what follows the quote. -/
def readString? : List Char → Option (List Char × List Char)
  | [] => none
  | '"' :: rest => some ([], rest)
  | c :: cs =>
    match _h : readChar? (c :: cs) with
    | none => none
    | some (first, rest) => (readString? rest).map fun read => (first :: read.1, read.2)
termination_by cs => cs.length
decreasing_by exact readChar?_length _h

theorem readString?_length {cs read rest : List Char} (h : readString? cs = some (read, rest)) :
    rest.length < cs.length := by
  generalize hn : cs.length = n
  induction n using Nat.strongRecOn generalizing cs read with
  | ind n ih =>
    rw [readString?.eq_def] at h
    split at h
    · simp at h
    · simp only [Option.some.injEq, Prod.mk.injEq] at h
      simp [← hn, ← h.2]
    · split at h
      · simp at h
      · rename_i hc
        obtain ⟨⟨_, _⟩, hr, he⟩ := Option.map_eq_some_iff.mp h
        simp only [Prod.mk.injEq] at he
        obtain ⟨-, rfl⟩ := he
        have h1 := readChar?_length hc
        have h2 := ih _ (hn ▸ h1) hr rfl
        omega

/-! ## Writing -/

def hexDigit (n : Nat) : Char := Nat.digitChar n

def escaped (c : Char) : List Char :=
  match c with
  | '"' => ['\\', '"']
  | '\\' => ['\\', '\\']
  | '\x08' => ['\\', 'b']
  | '\x0c' => ['\\', 'f']
  | '\n' => ['\\', 'n']
  | '\r' => ['\\', 'r']
  | '\t' => ['\\', 't']
  | c =>
    if c.toNat < 0x20 then ['\\', 'u', '0', '0', hexDigit (c.toNat / 16), hexDigit (c.toNat % 16)]
    else [c]

def quoted (s : String) : String := String.ofList ('"' :: (s.toList.flatMap escaped ++ ['"']))

end AdminPanel.Json
