/-! # Binary interchange formats

A format is fixed by its number of significant bits and its number of exponent bits. The pattern of
a number without its sign is itself a number, and the order of patterns is the order of magnitudes.
So a magnitude is known by its pattern, and every finite magnitude is a whole number of units, the
unit being the least positive magnitude of the format. That keeps all arithmetic in `Nat`.

Rounding goes to the nearest magnitude, and halfway between two of them to the even pattern. -/

namespace AdminPanel

/-- The leading one counts as a significant bit, though it is not stored. -/
structure Format where
  significantBits : Nat
  exponentBits : Nat
deriving DecidableEq, Repr

namespace Format

/-- Powers of natural numbers are the ones of the core library. -/
scoped instance (priority := 2000) natPow : Pow Nat Nat := instPowNat

def binary32 : Format := ⟨24, 8⟩

def binary64 : Format := ⟨53, 11⟩

/-- The number of significant bits that are stored. -/
def fractionBits (f : Format) : Nat := f.significantBits - 1

def magnitudeBits (f : Format) : Nat := f.exponentBits + f.fractionBits

def width (f : Format) : Nat := f.magnitudeBits + 1

/-- The pattern of infinity; the patterns above it are those of no number. -/
def infinity (f : Format) : Nat := (2 ^ f.exponentBits - 1) * 2 ^ f.fractionBits

/-- One unit is `2 ^ (-scale)`. -/
def scale (f : Format) : Nat := 2 ^ (f.exponentBits - 1) - 2 + f.fractionBits

/-- The magnitude with a given pattern, in units. At the pattern of infinity it is the magnitude
that a further exponent would have. -/
def units (f : Format) (pattern : Nat) : Nat :=
  let exponent := pattern / 2 ^ f.fractionBits
  let fraction := pattern % 2 ^ f.fractionBits
  if exponent = 0 then fraction else (2 ^ f.fractionBits + fraction) * 2 ^ (exponent - 1)

/-- The quotient to the nearest whole number, a half to the even one. -/
def roundQuotient (a b : Nat) : Nat :=
  if 2 * (a % b) < b then a / b
  else if b < 2 * (a % b) then a / b + 1
  else a / b + a / b % 2

/-- The pattern of the magnitude nearest to `a / b`. Rounding up to a power of two carries into the
exponent by itself, and what is too large for the format becomes infinity. -/
def nearest (f : Format) (a b : Nat) : Nat :=
  let dropped := (a * 2 ^ f.scale / b).log2 + 1 - f.significantBits
  let significand := roundQuotient (a * 2 ^ f.scale) (b * 2 ^ dropped)
  min (significand + dropped * 2 ^ f.fractionBits) f.infinity

end Format

end AdminPanel
