import AdminPanel.Proofs.Number.Shortest
import AdminPanel.Proofs.Text.Trim

/-! # Reading numerals back

Both spellings of a decimal are digits, maybe a point and more digits, and maybe an exponent. What
reads such a text gets the rational that the decimal stands for, wherever the point was put. -/
namespace AdminPanel.Decimal

open Text (takeWhile_run_append dropWhile_run_append)

/-! ## Digits -/

theorem ofDigits_digits (d : Decimal) : ofDigits d.digits = d.coefficient :=
  Nat.ofDigitChars_toDigits (by decide) (by decide)

theorem isDigit_of_mem_digits {d : Decimal} : ∀ c ∈ d.digits, c.isDigit = true :=
  fun _ => Nat.isDigit_of_mem_toDigits (by decide) (by decide)

theorem digits_ne_nil (d : Decimal) : d.digits ≠ [] := Nat.toDigits_ne_nil

theorem head?_digits_ne {d : Decimal} (h : d.coefficient ≠ 0) : d.digits.head? ≠ some '0' := by
  rw [digits]
  generalize d.coefficient = n at h
  induction n using Nat.strongRecOn with
  | ind n ih =>
    rw [Nat.toDigits_eq_if (by decide)]
    split
    · simpa using h
    · rw [List.head?_append_of_ne_nil _ Nat.toDigits_ne_nil]
      exact ih (n / 10) (by omega) (by omega)

theorem getLast?_digits_ne {d : Decimal} (h : d.coefficient % 10 ≠ 0) :
    d.digits.getLast? ≠ some '0' := by
  rw [digits, Nat.toDigits_eq_if (by decide)]
  split
  · simp
    omega
  · simpa using h

/-- Zeros in front do not count. -/
theorem ofDigits_zeros_append (n : ℕ) (ds : List Char) :
    ofDigits (List.replicate n '0' ++ ds) = ofDigits ds := by
  show Nat.ofDigitChars 10 _ 0 = _
  rw [Nat.ofDigitChars_append, Nat.ofDigitChars_replicate_zero, Nat.mul_zero]
  rfl

/-- Each zero behind counts ten times what stands before it. -/
theorem ofDigits_append_zeros (n : ℕ) (ds : List Char) :
    ofDigits (ds ++ List.replicate n '0') = 10 ^ n * ofDigits ds := by
  show Nat.ofDigitChars 10 _ 0 = _
  rw [Nat.ofDigitChars_append, Nat.ofDigitChars_replicate_zero]
  rfl

/-! ## Numerals -/

/-- Digits, a point with more digits behind it if there are any, and what ends the numeral. -/
def numeral (whole fraction tail : List Char) : List Char :=
  whole ++ ((if fraction = [] then [] else '.' :: fraction) ++ tail)

theorem readFraction?_append {fraction tail : List Char} (hf : ∀ c ∈ fraction, c.isDigit = true)
    (ht : ∀ c more, tail = c :: more → c = 'e') :
    readFraction? ((if fraction = [] then [] else '.' :: fraction) ++ tail) =
      some (fraction, tail) := by
  have hstop : ∀ c more, tail = c :: more → c.isDigit = false := by
    intro c more hc
    rw [ht c more hc]
    rfl
  split
  · rename_i hnil
    rw [hnil, List.nil_append, readFraction?]
    intro more hmore
    exact absurd (ht '.' more hmore) (by decide)
  · rename_i hne
    rw [List.cons_append, readFraction?, takeWhile_run_append hf hstop, if_neg hne,
      dropWhile_run_append hf hstop]

theorem read?_numeral {whole fraction tail : List Char} (hne : whole ≠ [])
    (hw : ∀ c ∈ whole, c.isDigit = true) (hf : ∀ c ∈ fraction, c.isDigit = true)
    (ht : ∀ c more, tail = c :: more → c = 'e') :
    read? (numeral whole fraction tail) = (readExponent? tail).map fun exponent =>
      ⟨ofDigits (whole ++ fraction), exponent - fraction.length⟩ := by
  have hstop : ∀ c more, (if fraction = [] then [] else '.' :: fraction) ++ tail = c :: more →
      c.isDigit = false := by
    intro c more hc
    split at hc
    · rw [ht c more hc]
      rfl
    · cases hc
      rfl
  rw [read?, numeral, takeWhile_run_append hw hstop, dropWhile_run_append hw hstop,
    readFraction?_append hf ht]
  simp [hne, Option.map_eq_bind]

/-- A whole number that always has a sign. -/
def signedText (n : ℤ) : List Char := (if n < 0 then '-' else '+') :: Nat.toDigits 10 n.natAbs

theorem readExponent?_signedText (n : ℤ) : readExponent? ('e' :: signedText n) = some n := by
  have hdigits : (Nat.toDigits 10 n.natAbs).all Char.isDigit = true :=
    List.all_eq_true.mpr fun c => Nat.isDigit_of_mem_toDigits (by decide) (by decide)
  have hvalue : ofDigits (Nat.toDigits 10 n.natAbs) = n.natAbs :=
    Nat.ofDigitChars_toDigits (by decide) (by decide)
  rw [readExponent?, if_pos (.inl rfl), signedText]
  split
  · rw [readWhole?, if_pos ⟨Nat.toDigits_ne_nil, hdigits⟩, hvalue]
    congr 1
    omega
  · rw [readWhole?, if_pos ⟨Nat.toDigits_ne_nil, hdigits⟩, hvalue]
    congr 1
    omega

/-! ## The two spellings -/

theorem exponent_eq (d : Decimal) : d.exponent = d.point - d.digits.length := by
  rw [point]
  omega

theorem mantissa_append {d : Decimal} {first : Char} {more : List Char}
    (hd : d.digits = first :: more) (tail : List Char) :
    d.mantissa ++ tail = numeral [first] more tail := by
  rw [mantissa, hd]
  cases more <;> simp [numeral]

/-- Behind the mantissa of a decimal stands the exponent of its first digit. -/
theorem read?_mantissa_append {d : Decimal} {tail : List Char}
    (h : readExponent? ('e' :: tail) = some (d.point - 1)) :
    read? (d.mantissa ++ 'e' :: tail) = some d := by
  obtain ⟨first, more, hd⟩ := List.exists_cons_of_ne_nil d.digits_ne_nil
  have hall : ∀ c ∈ first :: more, c.isDigit = true := hd ▸ isDigit_of_mem_digits
  have hread := @read?_numeral [first] more ('e' :: tail) (List.cons_ne_nil _ _)
    (fun c hc => hall c (by simp_all)) (fun c hc => hall c (by simp [hc]))
    (fun c _ hc => (List.cons.inj hc).1.symm)
  have hexponent : d.point - 1 - more.length = d.exponent := by
    have hlength := congrArg List.length hd
    rw [exponent_eq]
    simp only [List.length_cons] at hlength
    omega
  rw [mantissa_append hd, hread, h, Option.map_some, List.singleton_append, ← hd,
    ofDigits_digits, hexponent]

/-- A numeral without an exponent. -/
theorem read?_numeral_nil {whole fraction : List Char} (hne : whole ≠ [])
    (h : ∀ c ∈ whole ++ fraction, c.isDigit = true) :
    read? (numeral whole fraction []) = some ⟨ofDigits (whole ++ fraction), -fraction.length⟩ := by
  obtain ⟨hw, hf⟩ := List.forall_mem_append.mp h
  rw [read?_numeral hne hw hf (by simp), readExponent?, Option.map_some, Int.zero_sub]

theorem isDigit_of_mem_zeros {n : ℕ} : ∀ c ∈ List.replicate n '0', c.isDigit = true := by
  intro c hc
  rw [List.eq_of_mem_replicate hc]
  rfl

/-- A numeral without an exponent: digits, maybe a point and more digits. -/
def IsPlain (cs : List Char) : Prop := ∃ whole fraction, whole ≠ [] ∧
  (∀ c ∈ whole ++ fraction, c.isDigit = true) ∧ cs = numeral whole fraction []

/-- The digits on the two sides of the point, of a numeral that stands for a decimal. -/
structure Sides (d : Decimal) (whole fraction : List Char) : Prop where
  ne_nil : whole ≠ []
  isDigit : ∀ c ∈ whole ++ fraction, c.isDigit = true
  value : (⟨ofDigits (whole ++ fraction), -fraction.length⟩ : Decimal).value = d.value

section Plain
variable {d : Decimal}

/-- All digits stand behind the point. -/
theorem sides_of_small (h : d.point ≤ 0) :
    d.Sides ['0'] (List.replicate (-d.point).toNat '0' ++ d.digits) := by
  have hzeros : ['0'] ++ (List.replicate (-d.point).toNat '0' ++ d.digits) =
      List.replicate ((-d.point).toNat + 1) '0' ++ d.digits := by
    rw [List.replicate_succ]
    rfl
  have hexponent : -((List.replicate (-d.point).toNat '0' ++ d.digits).length : ℤ) =
      d.exponent := by
    rw [exponent_eq, List.length_append, List.length_replicate]
    omega
  refine ⟨List.cons_ne_nil _ _, ?_, ?_⟩
  · rw [hzeros]
    exact List.forall_mem_append.mpr ⟨isDigit_of_mem_zeros, isDigit_of_mem_digits⟩
  · rw [hzeros, ofDigits_zeros_append, ofDigits_digits, hexponent]

/-- The point stands between the digits. -/
theorem sides_of_inside (h : 0 < d.point) (hl : d.point < d.digits.length) :
    d.Sides (d.digits.take d.point.toNat) (d.digits.drop d.point.toNat) := by
  have hexponent : -((d.digits.drop d.point.toNat).length : ℤ) = d.exponent := by
    rw [exponent_eq, List.length_drop]
    omega
  refine ⟨?_, ?_, ?_⟩
  · simp [digits_ne_nil]
    omega
  · rw [List.take_append_drop]
    exact isDigit_of_mem_digits
  · rw [List.take_append_drop, ofDigits_digits, hexponent]

/-- All digits stand before the point, and zeros may follow them. -/
theorem sides_of_large (h : (d.digits.length : ℤ) ≤ d.point) :
    d.Sides (d.digits ++ List.replicate d.exponent.toNat '0') [] := by
  refine ⟨by simp [digits_ne_nil], ?_, ?_⟩
  · rw [List.append_nil]
    exact List.forall_mem_append.mpr ⟨isDigit_of_mem_digits, isDigit_of_mem_zeros⟩
  · have hexponent : d.exponent = d.exponent.toNat := by
      rw [exponent_eq]
      omega
    rw [List.append_nil, ofDigits_append_zeros, ofDigits_digits, value, value, hexponent,
      zpow_natCast, Int.toNat_natCast, List.length_nil, Nat.cast_zero, neg_zero, zpow_zero]
    push_cast
    ring

/-- Where the point stands does not change the value. -/
theorem exists_sides_plain (d : Decimal) :
    ∃ whole fraction, d.Sides whole fraction ∧ d.plain.toList = numeral whole fraction [] := by
  rcases le_or_gt d.point 0 with hp | hp
  · refine ⟨_, _, sides_of_small hp, ?_⟩
    rw [plain, if_pos hp, String.toList_ofList, numeral, if_neg (by simp [digits_ne_nil])]
    simp
  · rcases lt_or_ge d.point d.digits.length with hl | hl
    · refine ⟨_, _, sides_of_inside hp hl, ?_⟩
      rw [plain, if_neg (by omega), if_pos hl, String.toList_ofList, numeral,
        if_neg (by simp; omega), List.append_nil]
    · refine ⟨_, _, sides_of_large hl, ?_⟩
      have hzeros : d.exponent.toNat = d.point.toNat - d.digits.length := by
        rw [exponent_eq]
        omega
      rw [plain, if_neg (by omega), if_neg (by omega), String.toList_ofList, numeral, if_pos rfl,
        hzeros, List.nil_append, List.append_nil]

end Plain

theorem isPlain_plain (d : Decimal) : IsPlain d.plain.toList := by
  obtain ⟨whole, fraction, hsides, htext⟩ := exists_sides_plain d
  exact ⟨whole, fraction, hsides.ne_nil, hsides.isDigit, htext⟩

theorem read?_plain (d : Decimal) :
    ∃ read, read? d.plain.toList = some read ∧ read.value = d.value := by
  obtain ⟨whole, fraction, hsides, htext⟩ := exists_sides_plain d
  exact ⟨_, htext ▸ read?_numeral_nil hsides.ne_nil hsides.isDigit, hsides.value⟩

/-! ## Texts as rationals -/

/-- The rational that a text spells. -/
def rational? (text : String) : Option ℚ :=
  (readSigned? text.toList).map fun read => if read.1 then -read.2.value else read.2.value

theorem readSigned?_of_read? {cs : List Char} {d : Decimal} (h : read? cs = some d) :
    readSigned? cs = some (false, d) := by
  rw [readSigned?, h, Option.map_some]
  rintro more rfl
  cases h

theorem rational?_signed {text : String} {d : Decimal} (h : read? text.toList = some d)
    (negative : Bool) :
    rational? ((if negative then "-" else "") ++ text) =
      some (if negative then -d.value else d.value) := by
  cases negative
  · have htext : ((if false then "-" else "") ++ text).toList = text.toList := by simp
    rw [rational?, htext, readSigned?_of_read? h]
    rfl
  · have htext : ((if true then "-" else "") ++ text).toList = '-' :: text.toList := by simp
    rw [rational?, htext, readSigned?, h]
    rfl

end AdminPanel.Decimal
