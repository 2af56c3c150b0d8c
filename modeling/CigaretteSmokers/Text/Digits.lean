namespace CigaretteSmokers.Text.Digits

/-- The value of a digit, or of a letter as a digit above nine. -/
def digit? (c : Char) : Option Nat :=
  if '0' ≤ c ∧ c ≤ '9' then some (c.toNat - '0'.toNat)
  else if 'a' ≤ c ∧ c ≤ 'z' then some (c.toNat - 'a'.toNat + 10)
  else if 'A' ≤ c ∧ c ≤ 'Z' then some (c.toNat - 'A'.toNat + 10)
  else none

/-- The number that digits of a radix denote, after those that denote `n`. -/
def number? (radix : Nat) (n : Nat) : List Char → Option Nat
  | [] => some n
  | c :: rest => do
      let d ← digit? c
      if d < radix then number? radix (n * radix + d) rest else none

def isDigitOf (radix : Nat) (c : Char) : Bool := (digit? c).any (· < radix)

/-- The decimal digits that a text begins with, if there are any, and the rest. -/
def run? (text : List Char) : Option (List Char × List Char) :=
  match text.span Char.isDigit with
  | ([], _) => none
  | (digits, rest) => some (digits, rest)

/-- The decimal digits of a whole number, after a minus sign if it is below zero. -/
def ofInt (n : Int) : List Char :=
  if n < 0 then '-' :: Nat.toDigits 10 n.natAbs else Nat.toDigits 10 n.natAbs

end CigaretteSmokers.Text.Digits
