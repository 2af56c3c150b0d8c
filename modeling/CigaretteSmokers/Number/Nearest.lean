import CigaretteSmokers.Number.Rounding
import CigaretteSmokers.Number.Shortest

/-!
Reading a decimal as the nearest floating-point number, a tie going to the even mantissa.
-/

namespace CigaretteSmokers

namespace Decimal

def isZero (d : Decimal) : Bool := d.digits = 0

/-- The exponent at which the quotient of `n` by `d` has 53 bits, or the least there is. -/
def scaleOf (n d : Nat) : Int :=
  let guess : Int := n.log2 - d.log2 - 52
  let fits := n * Nat.pow 2 (-guess).toNat < Binary64.leadingBit * (d * Nat.pow 2 guess.toNat)
  max (-1074) (if fits then guess - 1 else guess)

/-- The bits of the number nearest to the quotient of `n` by `d`. A mantissa that rounds up to
the next power of two carries into the exponent. -/
def quotientBits (n d : Nat) : Nat :=
  let q := scaleOf n d
  (q + 1074).toNat * Binary64.leadingBit +
    Rounding.divEven (n * Nat.pow 2 (-q).toNat) (d * Nat.pow 2 q.toNat)

def infinityBits : Nat := 0x7ff0000000000000

/-- The number nearest to a decimal, if it is within the range of the finite ones. -/
def nearest? (negative : Bool) (d : Decimal) : Option Binary64 :=
  let sign := if negative then Binary64.signBit else 0
  let magnitude :=
    if d.digits = 0 ∨ d.power + d.digits.log2 + 1 < -400 then 0
    else if 400 < d.power then infinityBits
    else quotientBits (d.digits * Nat.pow 10 d.power.toNat) (Nat.pow 10 (-d.power).toNat)
  if magnitude < infinityBits then some ⟨UInt64.ofNat (sign + magnitude)⟩ else none

end Decimal

end CigaretteSmokers
