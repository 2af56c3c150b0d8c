namespace CigaretteSmokers.Rounding

/-- The quotient rounded to the nearest whole number, a tie to the even one. -/
def divEven (n d : Nat) : Nat :=
  let q := n / d
  let r := 2 * (n % d)
  if r < d then q else if d < r then q + 1 else q + q % 2

end CigaretteSmokers.Rounding
