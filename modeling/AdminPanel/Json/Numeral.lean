/-! # JSON numbers

A number is an integer without leading zeros, with a fraction and an exponent or without them. Its
literal is kept as it is written. -/

namespace AdminPanel.Json

/-- A run of at least one digit, and what follows it. -/
def readDigits? (cs : List Char) : Option (List Char × List Char) :=
  if cs.takeWhile Char.isDigit = [] then none
  else some (cs.takeWhile Char.isDigit, cs.dropWhile Char.isDigit)

/-- The digits before the point: a zero alone, or a run that starts with another digit. -/
def readInteger? : List Char → Option (List Char × List Char)
  | '0' :: rest => some (['0'], rest)
  | cs => readDigits? cs

def readFraction? : List Char → Option (List Char × List Char)
  | '.' :: rest => (readDigits? rest).map fun read => ('.' :: read.1, read.2)
  | rest => some ([], rest)

def readSign : List Char → List Char × List Char
  | '+' :: rest => (['+'], rest)
  | '-' :: rest => (['-'], rest)
  | rest => ([], rest)

def readExponent? : List Char → Option (List Char × List Char)
  | [] => some ([], [])
  | c :: rest =>
    if c = 'e' ∨ c = 'E' then
      (readDigits? (readSign rest).2).map fun read =>
        (c :: ((readSign rest).1 ++ read.1), read.2)
    else some ([], c :: rest)

def readMagnitude? (cs : List Char) : Option (List Char × List Char) := do
  let (integer, rest) ← readInteger? cs
  let (fraction, rest) ← readFraction? rest
  let (exponent, rest) ← readExponent? rest
  return (integer ++ fraction ++ exponent, rest)

def readNumber? : List Char → Option (List Char × List Char)
  | '-' :: rest => (readMagnitude? rest).map fun read => ('-' :: read.1, read.2)
  | cs => readMagnitude? cs

/-! ## Reading uses some of the text -/

theorem length_dropWhile_lt {p : Char → Bool} {cs : List Char} (h : cs.takeWhile p ≠ []) :
    (cs.dropWhile p).length < cs.length := by
  have hs := congrArg List.length (List.takeWhile_append_dropWhile (p := p) (l := cs))
  have := List.length_pos_iff.mpr h
  simp only [List.length_append] at hs
  omega

theorem readDigits?_length {cs read rest : List Char} (h : readDigits? cs = some (read, rest)) :
    rest.length < cs.length := by
  unfold readDigits? at h
  split at h
  · simp at h
  · rename_i hne
    simp only [Option.some.injEq, Prod.mk.injEq] at h
    rw [← h.2]; exact length_dropWhile_lt hne

theorem readInteger?_length {cs read rest : List Char} (h : readInteger? cs = some (read, rest)) :
    rest.length < cs.length := by
  unfold readInteger? at h
  split at h
  · simp only [Option.some.injEq, Prod.mk.injEq] at h; simp [← h.2]
  · exact readDigits?_length h

theorem readFraction?_length {cs read rest : List Char} (h : readFraction? cs = some (read, rest)) :
    rest.length ≤ cs.length := by
  unfold readFraction? at h
  split at h
  · obtain ⟨⟨_, _⟩, hr, he⟩ := Option.map_eq_some_iff.mp h
    simp only [Prod.mk.injEq] at he
    have := readDigits?_length hr
    rw [← he.2]
    simp only [List.length_cons]
    omega
  · simp only [Option.some.injEq, Prod.mk.injEq] at h; simp [← h.2]

theorem readSign_length (cs : List Char) : (readSign cs).2.length ≤ cs.length := by
  unfold readSign; split <;> simp

theorem readExponent?_length {cs read rest : List Char} (h : readExponent? cs = some (read, rest)) :
    rest.length ≤ cs.length := by
  unfold readExponent? at h
  split at h
  · simp only [Option.some.injEq, Prod.mk.injEq] at h; simp [← h.2]
  · rename_i c tail
    split at h
    · obtain ⟨⟨_, _⟩, hr, he⟩ := Option.map_eq_some_iff.mp h
      simp only [Prod.mk.injEq] at he
      have h1 := readDigits?_length hr
      have h2 := readSign_length tail
      rw [← he.2]
      simp only [List.length_cons]
      omega
    · simp only [Option.some.injEq, Prod.mk.injEq] at h; simp [← h.2]

theorem readMagnitude?_length {cs read rest : List Char}
    (h : readMagnitude? cs = some (read, rest)) : rest.length < cs.length := by
  simp only [readMagnitude?, Option.bind_eq_bind, Option.bind_eq_some_iff, Prod.exists,
    Option.pure_def, Option.some.injEq, Prod.mk.injEq] at h
  obtain ⟨_, r1, h1, _, r2, h2, _, r3, h3, -, rfl⟩ := h
  have := readInteger?_length h1
  have := readFraction?_length h2
  have := readExponent?_length h3
  omega

theorem readNumber?_length {cs read rest : List Char} (h : readNumber? cs = some (read, rest)) :
    rest.length < cs.length := by
  unfold readNumber? at h
  split at h
  · obtain ⟨⟨_, _⟩, hr, he⟩ := Option.map_eq_some_iff.mp h
    simp only [Prod.mk.injEq] at he
    have := readMagnitude?_length hr
    rw [← he.2]
    simp only [List.length_cons]
    omega
  · exact readMagnitude?_length h

end AdminPanel.Json
