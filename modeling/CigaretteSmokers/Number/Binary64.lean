/-!
Floating-point numbers kept as their 64 bits, so that the two zeros and the signs of NaN stay
apart and every question about a number's value is one about integers.
-/

namespace CigaretteSmokers

structure Binary64 where
  bits : UInt64
  deriving DecidableEq, Inhabited

namespace Binary64

def ofFloat (f : Float) : Binary64 := ⟨f.toBits⟩

def toFloat (x : Binary64) : Float := Float.ofBits x.bits

/-- The bit of the sign. -/
def signBit : Nat := 0x8000000000000000

/-- The bit before the point, which normal numbers leave out. The fraction is below it. -/
def leadingBit : Nat := 0x10000000000000

def signed (x : Binary64) : Bool := signBit ≤ x.bits.toNat

def exponentField (x : Binary64) : Nat := x.bits.toNat / leadingBit % 2048

def fraction (x : Binary64) : Nat := x.bits.toNat % leadingBit

def isFinite (x : Binary64) : Bool := x.exponentField ≠ 2047

def isNaN (x : Binary64) : Bool := x.exponentField = 2047 && x.fraction ≠ 0

def isInfinite (x : Binary64) : Bool := x.exponentField = 2047 && x.fraction = 0

def isZero (x : Binary64) : Bool := x.exponentField = 0 && x.fraction = 0

/-- Whether the number is below zero. Neither zero is, nor is NaN. -/
def isNegative (x : Binary64) : Bool := x.signed && !x.isZero && !x.isNaN

/-- The magnitude of a finite number is `mantissa * 2 ^ exponent`. -/
def mantissa (x : Binary64) : Nat :=
  if x.exponentField = 0 then x.fraction else leadingBit + x.fraction

def exponent (x : Binary64) : Int :=
  if x.exponentField = 0 then -1074 else x.exponentField - 1075

end Binary64

end CigaretteSmokers
