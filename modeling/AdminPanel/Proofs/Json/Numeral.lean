import AdminPanel.Proofs.Json.Grammar
import AdminPanel.Proofs.Text.Trim

/-! # Numbers against the grammar

What the number reader takes off the front of a text is a number (`_sound`), and a number is taken
off whole (`_append`) unless the text behind it goes on with a digit, a point or an exponent, which
would belong to it. -/
namespace AdminPanel.Json

/-! ## What is read is a number -/

theorem readDigits?_sound {cs read rest : List Char} (h : readDigits? cs = some (read, rest)) :
    IsDigits read ∧ cs = read ++ rest := by
  unfold readDigits? at h
  split at h
  · cases h
  · rename_i hne
    simp only [Option.some.injEq, Prod.mk.injEq] at h
    obtain ⟨rfl, rfl⟩ := h
    exact ⟨⟨hne, List.all_eq_true.mp List.all_takeWhile⟩, List.takeWhile_append_dropWhile.symm⟩

theorem readInteger?_sound {cs read rest : List Char} (h : readInteger? cs = some (read, rest)) :
    IsInteger read ∧ cs = read ++ rest := by
  unfold readInteger? at h
  split at h
  · simp only [Option.some.injEq, Prod.mk.injEq] at h
    obtain ⟨rfl, rfl⟩ := h
    exact ⟨.zero, rfl⟩
  · rename_i hz
    obtain ⟨hd, rfl⟩ := readDigits?_sound h
    cases read with
    | nil => exact absurd rfl hd.1
    | cons c read => exact ⟨.digits (fun hc => hz (read ++ rest) (by rw [hc]; rfl)) hd, rfl⟩

theorem readFraction?_sound {cs read rest : List Char} (h : readFraction? cs = some (read, rest)) :
    IsFraction read ∧ cs = read ++ rest := by
  unfold readFraction? at h
  split at h
  · obtain ⟨⟨digits, last⟩, hr, he⟩ := Option.map_eq_some_iff.mp h
    simp only [Prod.mk.injEq] at he
    obtain ⟨rfl, rfl⟩ := he
    obtain ⟨hd, rfl⟩ := readDigits?_sound hr
    exact ⟨.digits hd, rfl⟩
  · simp only [Option.some.injEq, Prod.mk.injEq] at h
    obtain ⟨rfl, rfl⟩ := h
    exact ⟨.none, rfl⟩

theorem readSign_sound (cs : List Char) :
    ((readSign cs).1 = [] ∨ (readSign cs).1 = ['+'] ∨ (readSign cs).1 = ['-']) ∧
      cs = (readSign cs).1 ++ (readSign cs).2 := by
  unfold readSign
  split <;> simp

theorem readExponent?_sound {cs read rest : List Char} (h : readExponent? cs = some (read, rest)) :
    IsExponent read ∧ cs = read ++ rest := by
  unfold readExponent? at h
  split at h
  · simp only [Option.some.injEq, Prod.mk.injEq] at h
    obtain ⟨rfl, rfl⟩ := h
    exact ⟨.none, rfl⟩
  · rename_i c tail
    split at h
    · rename_i he
      obtain ⟨⟨digits, last⟩, hr, hp⟩ := Option.map_eq_some_iff.mp h
      simp only [Prod.mk.injEq] at hp
      obtain ⟨rfl, rfl⟩ := hp
      obtain ⟨hd, hm⟩ := readDigits?_sound hr
      obtain ⟨hs, ht⟩ := readSign_sound tail
      refine ⟨.digits he hs hd, ?_⟩
      rw [List.cons_append, List.append_assoc, ← hm, ← ht]
    · simp only [Option.some.injEq, Prod.mk.injEq] at h
      obtain ⟨rfl, rfl⟩ := h
      exact ⟨.none, rfl⟩

theorem readMagnitude?_sound {cs read rest : List Char}
    (h : readMagnitude? cs = some (read, rest)) : IsMagnitude read ∧ cs = read ++ rest := by
  simp only [readMagnitude?, Option.bind_eq_bind, Option.bind_eq_some_iff, Prod.exists,
    Option.pure_def, Option.some.injEq, Prod.mk.injEq] at h
  obtain ⟨integer, r1, h1, fraction, r2, h2, exponent, r3, h3, rfl, rfl⟩ := h
  obtain ⟨hi, rfl⟩ := readInteger?_sound h1
  obtain ⟨hf, rfl⟩ := readFraction?_sound h2
  obtain ⟨he, rfl⟩ := readExponent?_sound h3
  exact ⟨.parts hi hf he, by simp only [List.append_assoc]⟩

theorem readNumber?_sound {cs read rest : List Char} (h : readNumber? cs = some (read, rest)) :
    IsNumber read ∧ cs = read ++ rest := by
  unfold readNumber? at h
  split at h
  · obtain ⟨⟨digits, last⟩, hr, he⟩ := Option.map_eq_some_iff.mp h
    simp only [Prod.mk.injEq] at he
    obtain ⟨rfl, rfl⟩ := he
    obtain ⟨hm, rfl⟩ := readMagnitude?_sound hr
    exact ⟨.negative hm, rfl⟩
  · obtain ⟨hm, rfl⟩ := readMagnitude?_sound h
    exact ⟨.plain hm, rfl⟩

/-! ## A number is read to its end -/

/-- A text that does not go on with a digit. -/
def NoDigit (rest : List Char) : Prop := ∀ c tail, rest = c :: tail → c.isDigit = false

/-- A text that a number in front of it does not run into. -/
def EndsNumber (rest : List Char) : Prop :=
  ∀ c tail, rest = c :: tail → c.isDigit = false ∧ c ≠ '.' ∧ c ≠ 'e' ∧ c ≠ 'E'

theorem readDigits?_append {digits rest : List Char} (h : IsDigits digits) (hr : NoDigit rest) :
    readDigits? (digits ++ rest) = some (digits, rest) := by
  rw [readDigits?, Text.takeWhile_run_append h.2 hr, Text.dropWhile_run_append h.2 hr, if_neg h.1]

theorem readInteger?_append {integer rest : List Char} (h : IsInteger integer)
    (hr : NoDigit rest) : readInteger? (integer ++ rest) = some (integer, rest) := by
  cases h with
  | zero => rfl
  | @digits c cs hc hd =>
    unfold readInteger?
    split
    · rename_i he
      injection he with he _
      exact absurd he hc
    · exact readDigits?_append hd hr

theorem readFraction?_append {fraction rest : List Char} (h : IsFraction fraction)
    (hr : NoDigit rest) (hp : ∀ tail, rest ≠ '.' :: tail) :
    readFraction? (fraction ++ rest) = some (fraction, rest) := by
  cases h with
  | none =>
    unfold readFraction?
    split
    · rename_i tail he
      exact absurd he (hp tail)
    · rfl
  | digits hd => simp [readFraction?, readDigits?_append hd hr]

theorem readSign_append {sign digits : List Char}
    (hs : sign = [] ∨ sign = ['+'] ∨ sign = ['-']) (h : IsDigits digits) (rest : List Char) :
    readSign (sign ++ (digits ++ rest)) = (sign, digits ++ rest) := by
  rcases hs with rfl | rfl | rfl
  · obtain ⟨hne, hd⟩ := h
    cases digits with
    | nil => exact absurd rfl hne
    | cons c digits =>
      have hc := hd c (by simp)
      unfold readSign
      split
      · rename_i he
        injection he with he _
        subst he
        exact absurd hc (by decide)
      · rename_i he
        injection he with he _
        subst he
        exact absurd hc (by decide)
      · rfl
  · rfl
  · rfl

theorem readExponent?_append {exponent rest : List Char} (h : IsExponent exponent)
    (hr : EndsNumber rest) : readExponent? (exponent ++ rest) = some (exponent, rest) := by
  cases h with
  | none =>
    cases rest with
    | nil => rfl
    | cons c tail =>
      obtain ⟨_, _, he, hE⟩ := hr c tail rfl
      simp [readExponent?, he, hE]
  | @digits e sign digits he hs hd =>
    have hn : NoDigit rest := fun c tail hc => (hr c tail hc).1
    simp only [List.cons_append, List.append_assoc, readExponent?, he, if_true,
      readSign_append hs hd, readDigits?_append hd hn, Option.map_some]

theorem IsExponent.append_head {exponent rest : List Char} (h : IsExponent exponent)
    (hr : EndsNumber rest) :
    NoDigit (exponent ++ rest) ∧ ∀ tail, exponent ++ rest ≠ '.' :: tail := by
  cases h with
  | none => exact ⟨fun c tail hc => (hr c tail hc).1, fun tail hc => (hr _ tail hc).2.1 rfl⟩
  | digits he hs hd =>
    refine ⟨fun c tail hc => ?_, fun tail hc => ?_⟩
    · injection hc with hc _
      rcases he with rfl | rfl <;> subst hc <;> rfl
    · injection hc with hc _
      rcases he with rfl | rfl <;> exact absurd hc (by decide)

theorem IsFraction.append_head {fraction rest : List Char} (h : IsFraction fraction)
    (hr : NoDigit rest) : NoDigit (fraction ++ rest) := by
  cases h with
  | none => exact hr
  | digits hd =>
    intro c tail hc
    injection hc with hc _
    subst hc
    rfl

theorem readMagnitude?_append {cs rest : List Char} (h : IsMagnitude cs) (hr : EndsNumber rest) :
    readMagnitude? (cs ++ rest) = some (cs, rest) := by
  cases h with
  | parts hi hf he =>
    obtain ⟨hn, hp⟩ := he.append_head hr
    simp only [readMagnitude?, List.append_assoc, readInteger?_append hi (hf.append_head hn),
      readFraction?_append hf hn hp, readExponent?_append he hr, Option.bind_eq_bind,
      Option.bind_some, Option.pure_def]

theorem IsMagnitude.head {cs : List Char} (h : IsMagnitude cs) :
    ∃ c tail, cs = c :: tail ∧ c.isDigit = true := by
  cases h with
  | @parts integer fraction exponent hi hf he =>
    cases hi with
    | zero => exact ⟨'0', _, rfl, rfl⟩
    | @digits c cs hc hd => exact ⟨c, _, rfl, hd.2 c (by simp)⟩

theorem readNumber?_append {cs rest : List Char} (h : IsNumber cs) (hr : EndsNumber rest) :
    readNumber? (cs ++ rest) = some (cs, rest) := by
  cases h with
  | plain h =>
    obtain ⟨c, tail, he, hc⟩ := h.head
    unfold readNumber?
    split
    · rename_i hm
      rw [he] at hm
      injection hm with hm _
      subst hm
      exact absurd hc (by decide)
    · exact readMagnitude?_append h hr
  | negative h => simp [readNumber?, readMagnitude?_append h hr]

theorem IsNumber.head {cs : List Char} (h : IsNumber cs) :
    ∃ c tail, cs = c :: tail ∧ (c.isDigit = true ∨ c = '-') := by
  cases h with
  | plain h =>
    obtain ⟨c, tail, he, hc⟩ := h.head
    exact ⟨c, tail, he, .inl hc⟩
  | negative h => exact ⟨'-', _, rfl, .inr rfl⟩

end AdminPanel.Json
