import AdminPanel.Number.Binary

/-! # Decimal numerals

A decimal is a coefficient and a power of ten. It is written plainly, with the digits around a
point, or with a point after the first digit and an exponent; both spellings are read back by one
reader, with or without a plus sign before the exponent. -/

namespace AdminPanel
open scoped Format

/-- The number `coefficient * 10 ^ exponent`. -/
structure Decimal where
  coefficient : Nat
  exponent : Int
deriving DecidableEq, Repr

namespace Decimal

def digits (d : Decimal) : List Char := Nat.toDigits 10 d.coefficient

/-- Where the point stands, counted from before the first digit: the number is
`0.digits * 10 ^ point`. -/
def point (d : Decimal) : Int := d.digits.length + d.exponent

/-! ## Writing -/

def plain (d : Decimal) : String :=
  let digits := d.digits
  String.ofList <|
    if d.point ≤ 0 then
      '0' :: '.' :: (List.replicate (-d.point).toNat '0' ++ digits)
    else if d.point < digits.length then
      digits.take d.point.toNat ++ '.' :: digits.drop d.point.toNat
    else digits ++ List.replicate (d.point.toNat - digits.length) '0'

/-- The digits with a point behind the first of them, if others follow. -/
def mantissa (d : Decimal) : List Char :=
  match d.digits with
  | [] => []
  | first :: more => first :: if more.isEmpty then [] else '.' :: more

/-- A whole number, with a sign only when it is negative. -/
def wholeText (n : Int) : List Char := (if n < 0 then ['-'] else []) ++ Nat.toDigits 10 n.natAbs

/-- The numeral with one digit before the point and the exponent of that digit. -/
def exponential (d : Decimal) : String :=
  String.ofList (d.mantissa ++ 'e' :: wholeText (d.point - 1))

/-! ## Reading -/

def ofDigits (digits : List Char) : Nat :=
  digits.foldl (fun value c => 10 * value + (c.toNat - '0'.toNat)) 0

/-- The value of a row of digits with at most one sign in front. -/
def readWhole? : List Char → Option Int
  | '-' :: ds => if ds ≠ [] ∧ ds.all Char.isDigit then some (-(ofDigits ds : Int)) else none
  | '+' :: ds => if ds ≠ [] ∧ ds.all Char.isDigit then some (ofDigits ds) else none
  | ds => if ds ≠ [] ∧ ds.all Char.isDigit then some (ofDigits ds) else none

/-- The digits after a point, if one follows, and what comes after them. -/
def readFraction? : List Char → Option (List Char × List Char)
  | '.' :: more =>
    if more.takeWhile Char.isDigit = [] then none
    else some (more.takeWhile Char.isDigit, more.dropWhile Char.isDigit)
  | rest => some ([], rest)

/-- The exponent that ends a numeral, zero when nothing follows. -/
def readExponent? : List Char → Option Int
  | [] => some 0
  | c :: more => if c = 'e' ∨ c = 'E' then readWhole? more else none

/-- A numeral without a sign: digits, maybe a point and more digits, maybe an exponent. -/
def read? (cs : List Char) : Option Decimal := do
  let whole := cs.takeWhile Char.isDigit
  guard (whole ≠ [])
  let (fraction, rest) ← readFraction? (cs.dropWhile Char.isDigit)
  let exponent ← readExponent? rest
  return ⟨ofDigits (whole ++ fraction), exponent - fraction.length⟩

/-- A numeral with at most a minus sign in front: whether it has one, and the magnitude. -/
def readSigned? (cs : List Char) : Option (Bool × Decimal) :=
  match cs with
  | '-' :: more => (read? more).map fun d => (true, d)
  | _ => (read? cs).map fun d => (false, d)

/-! ## Rounding to a binary format -/

def nearest (f : Format) (d : Decimal) : Nat :=
  f.nearest (d.coefficient * 10 ^ d.exponent.toNat) (10 ^ (-d.exponent).toNat)

def toBinary (f : Format) (negative : Bool) (d : Decimal) : Binary f :=
  Binary.ofPattern negative (d.nearest f)

end Decimal

end AdminPanel
