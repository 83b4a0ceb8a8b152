import AdminPanel.Number.Format

/-! # Binary numbers

A number of a format is its bit pattern: a sign, and the pattern of a magnitude. -/

namespace AdminPanel
open scoped Format

structure Binary (f : Format) where
  bits : BitVec f.width
deriving DecidableEq, Repr

abbrev Binary32 := Binary Format.binary32

abbrev Binary64 := Binary Format.binary64

namespace Binary

variable {f g : Format}

/-- The sign bit, which zeros carry too. -/
def negative (x : Binary f) : Bool := x.bits.msb

def pattern (x : Binary f) : Nat := x.bits.toNat % 2 ^ f.magnitudeBits

def ofBits (bits : Nat) : Binary f := ⟨BitVec.ofNat f.width bits⟩

def ofPattern (negative : Bool) (pattern : Nat) : Binary f :=
  ofBits ((if negative then 2 ^ f.magnitudeBits else 0) + pattern)

def isNaN (x : Binary f) : Bool := f.infinity < x.pattern

def isInfinite (x : Binary f) : Bool := x.pattern == f.infinity

def isFinite (x : Binary f) : Bool := x.pattern < f.infinity

def isZero (x : Binary f) : Bool := x.pattern == 0

/-- The number nearest to `a / b` or to its negative. -/
def ofQuotient (negative : Bool) (a b : Nat) : Binary f := ofPattern negative (f.nearest a b)

/-- A whole number as the nearest number of the format. -/
def ofInt (n : Int) : Binary f := ofQuotient (decide (n < 0)) n.natAbs 1

/-- The nearest number of another format; infinities and what is no number stay such. -/
def convert (x : Binary f) : Binary g :=
  if x.isNaN then ofPattern x.negative (g.infinity + 1)
  else if x.isInfinite then ofPattern x.negative g.infinity
  else ofQuotient x.negative (f.units x.pattern) (2 ^ f.scale)

def one : Binary f := ofQuotient false 1 1

/-- The nearest point of the interval from zero to one. A negative zero stays itself, and what is no
number becomes zero. -/
def clampUnit (x : Binary f) : Binary f :=
  if x.isNaN then ofPattern false 0
  else if x.isZero then x
  else if x.negative then ofPattern false 0
  else if (one : Binary f).pattern < x.pattern then one
  else x

/-! ## Small facts -/

theorem two_pow_width (f : Format) : 2 ^ f.width = 2 * 2 ^ f.magnitudeBits := by
  simp [Format.width, Nat.pow_succ, Nat.mul_comm]

/-- The pattern of a number is the one it is made from. -/
theorem pattern_ofPattern (negative : Bool) {k : Nat} (h : k < 2 ^ f.magnitudeBits) :
    (ofPattern negative k : Binary f).pattern = k := by
  have hw := two_pow_width f
  simp only [pattern, ofPattern, ofBits, BitVec.toNat_ofNat, hw]
  cases negative
  · simp only [Bool.false_eq_true, if_false, Nat.zero_add]
    rw [Nat.mod_eq_of_lt (a := k) (by omega), Nat.mod_eq_of_lt h]
  · simp only [if_true]
    rw [Nat.mod_eq_of_lt (a := 2 ^ f.magnitudeBits + k) (by omega), Nat.add_mod_left,
      Nat.mod_eq_of_lt h]

/-- The sign of a number is the one it is made from. -/
theorem negative_ofPattern (negative : Bool) {k : Nat} (h : k < 2 ^ f.magnitudeBits) :
    (ofPattern negative k : Binary f).negative = negative := by
  have hw := two_pow_width f
  simp only [Binary.negative, ofPattern, ofBits, BitVec.msb_eq_decide, BitVec.toNat_ofNat, hw,
    show f.width - 1 = f.magnitudeBits from rfl]
  cases negative
  · simp only [Bool.false_eq_true, if_false, Nat.zero_add, decide_eq_false_iff_not]
    rw [Nat.mod_eq_of_lt (a := k) (by omega)]
    omega
  · simp only [if_true, decide_eq_true_eq]
    rw [Nat.mod_eq_of_lt (a := 2 ^ f.magnitudeBits + k) (by omega)]
    omega

end Binary

end AdminPanel
