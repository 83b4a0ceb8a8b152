import AdminPanel.Number.Decimal

/-! # Shortest decimals

A decimal stands for a magnitude when it lies in the interval of the numbers that round to it: from
halfway to the magnitude below up to halfway to the one above, the ends included for an even
pattern. The shortest decimal is the one on the coarsest grid of powers of ten that has a point in
the interval; of two such points it is the nearer one, and of two equally near ones the greater.

All quantities are counted in units of `10 ^ (-scale)`, in which the magnitude itself is a whole
number, so the finest grid always has a point. -/

namespace AdminPanel.Shortest
open scoped Format

/-- The numbers that round to one magnitude, with the ends doubled. -/
structure Interval where
  value : Nat
  lowTwice : Nat
  highTwice : Nat
  closed : Bool
deriving DecidableEq, Repr

def interval (f : Format) (pattern : Nat) : Interval where
  value := f.units pattern * 5 ^ f.scale
  lowTwice := (f.units (pattern - 1) + f.units pattern) * 5 ^ f.scale
  highTwice := (f.units pattern + f.units (pattern + 1)) * 5 ^ f.scale
  closed := pattern % 2 == 0

def Interval.contains (i : Interval) (x : Nat) : Bool :=
  if i.closed then i.lowTwice ≤ 2 * x && 2 * x ≤ i.highTwice
  else i.lowTwice < 2 * x && 2 * x < i.highTwice

/-- The grid point of the interval that is nearest to the value, as a multiple of the step. Only the
two neighbours of the value need a test. -/
def Interval.onGrid? (i : Interval) (step : Nat) : Option Nat :=
  let below := i.value / step
  match i.contains (below * step), i.contains ((below + 1) * step) with
  | true, true => some (if 2 * (i.value % step) < step then below else below + 1)
  | true, false => some below
  | false, true => some (below + 1)
  | false, false => none

/-- The point on the coarsest grid, from the step `10 ^ n` down. -/
def Interval.search (i : Interval) : Nat → Nat × Nat
  | 0 => (i.value, 0)
  | n + 1 =>
    match i.onGrid? (10 ^ (n + 1)) with
    | some point => (point, n + 1)
    | none => i.search n

/-- An exponent of ten whose power exceeds the interval: thirteen bits are less than four decimal
digits. -/
def Interval.top (i : Interval) : Nat := 4 * (i.highTwice.log2 / 13 + 1)

def decimal (f : Format) (pattern : Nat) : Decimal :=
  let found := (interval f pattern).search (interval f pattern).top
  ⟨found.1, found.2 - (f.scale : Int)⟩

end AdminPanel.Shortest
