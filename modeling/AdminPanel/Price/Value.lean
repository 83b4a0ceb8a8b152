import AdminPanel.Number.Shortest
import AdminPanel.Text.Slice

/-! # Prices

A price is what the caller holds: a text, shown exactly as it is, or a number, shown by its shortest
decimal. From one millionth up to, but not including, 10^21 a number is written plainly, and outside
with an exponent, which always has a sign; both bounds are compared as 64-bit numbers. Both zeros
are shown as one digit. -/

namespace AdminPanel

inductive Price where
  | text (value : String)
  | number (value : Binary64)
deriving DecidableEq, Repr

namespace Price

/-- The least magnitude that is written plainly. -/
def plainFrom : Binary64 := Decimal.toBinary .binary64 false ⟨1, -6⟩

/-- The least magnitude above one that is written with an exponent. -/
def plainBelow : Binary64 := Decimal.toBinary .binary64 false ⟨1, 21⟩

def writtenPlainly (pattern : Nat) : Bool :=
  plainFrom.pattern ≤ pattern && pattern < plainBelow.pattern

/-- A numeral with a plus sign put before its exponent, unless that has a minus sign. -/
def withExponentSign (numeral : String) : String :=
  match Text.breakOn? ['e'] numeral.toList with
  | some (mantissa, exponent) =>
    if exponent.head? = some '-' then numeral
    else String.ofList (mantissa ++ 'e' :: '+' :: exponent)
  | none => numeral

def numberText (x : Binary64) : String :=
  let sign := if x.negative then "-" else ""
  if x.isNaN then "NaN"
  else if x.isInfinite then sign ++ "Infinity"
  else if x.isZero then "0"
  else
    let decimal := Shortest.decimal .binary64 x.pattern
    if writtenPlainly x.pattern then sign ++ decimal.plain
    else withExponentSign (sign ++ decimal.exponential)

def shown : Price → String
  | .text value => value
  | .number value => numberText value

/-- The price `coefficient * 10 ^ exponent` as the nearest number. -/
def ofDecimal (coefficient : Nat) (exponent : Int) : Price :=
  .number (Decimal.toBinary .binary64 false ⟨coefficient, exponent⟩)

end Price

end AdminPanel
