import CigaretteSmokers.Number.Binary64

/-!
The shortest decimal that reads back as a given number. It lies on the coarsest grid of powers
of ten that has a point in the interval of the reals that round to the number; of two such
points it is the nearer, and the upper one if they are equally near.
-/

namespace CigaretteSmokers

/-- The magnitude `digits * 10 ^ power`. -/
structure Decimal where
  digits : Nat
  power : Int
  deriving DecidableEq, Inhabited

namespace Binary64

/-- Four times the bounds of the interval that rounds to the mantissa. Below a power of two the
numbers lie twice as close. -/
def lowerBound (x : Binary64) : Nat :=
  if x.fraction = 0 ∧ 1 < x.exponentField then 4 * x.mantissa - 1 else 4 * x.mantissa - 2

def upperBound (x : Binary64) : Nat := 4 * x.mantissa + 2

/-- The factors `(a, b)` with which `c * 10 ^ power` compares to `n * 2 ^ exponent / 4` as
`c * a` does to `n * b`. -/
def factors (x : Binary64) (power : Int) : Nat × Nat :=
  (Nat.pow 10 power.toNat * Nat.pow 2 (2 - x.exponent).toNat,
    Nat.pow 2 (x.exponent - 2).toNat * Nat.pow 10 (-power).toNat)

/-- Whether `c * 10 ^ power` rounds to the number. A bound itself does if the mantissa is even. -/
def rounds (x : Binary64) (c : Nat) (power : Int) : Bool :=
  let (a, b) := x.factors power
  if x.mantissa % 2 = 0 then x.lowerBound * b ≤ c * a && c * a ≤ x.upperBound * b
  else x.lowerBound * b < c * a && c * a < x.upperBound * b

/-- The point of the grid that stands for the number, if one does. -/
def gridPoint? (x : Binary64) (power : Int) : Option Nat :=
  let (a, b) := x.factors power
  let value := 4 * x.mantissa * b
  let low := value / a
  if x.rounds low power then
    if x.rounds (low + 1) power && a ≤ 2 * (value % a) then some (low + 1) else some low
  else if x.rounds (low + 1) power then some (low + 1)
  else none

/-- A power of ten above the number. -/
def topPower (x : Binary64) : Int := (x.mantissa.log2 + 1 + x.exponent) * 30103 / 100000 + 1

/-- Goes to finer grids until one has a point. Seventeen digits always do. -/
def search (x : Binary64) : Nat → Int → Decimal
  | 0, power => ⟨(x.gridPoint? power).getD 0, power⟩
  | tries + 1, power =>
      match x.gridPoint? power with
      | some digits => ⟨digits, power⟩
      | none => search x tries (power - 1)

/-- The shortest decimal for the magnitude of a finite number. -/
def shortest (x : Binary64) : Decimal :=
  if x.mantissa = 0 then ⟨0, 0⟩ else x.search 20 x.topPower

end Binary64

end CigaretteSmokers
