import CigaretteSmokers.Text.Digits

/-!
The access key of a simulation and its spellings: decimal, hexadecimal after 0x, or octal after a
zero, each after an optional plus sign. It is written in hexadecimal.
-/

namespace CigaretteSmokers

structure AccessKey where
  value : UInt32
  deriving DecidableEq, Inhabited

namespace AccessKey

open Text.Digits

def default : AccessKey := ⟨0x534d⟩

/-- The radix that the first characters announce, and the digits after them. -/
def radixOf : List Char → Nat × List Char
  | '0' :: 'x' :: digits | '0' :: 'X' :: digits => (16, digits)
  | '0' :: c :: digits => (8, c :: digits)
  | digits => (10, digits)

def unsigned : List Char → List Char
  | '+' :: rest => rest
  | text => text

def ofChars? (text : List Char) : Option AccessKey :=
  match radixOf (unsigned text) with
  | (_, []) => none
  | (radix, digits) => do
      let n ← number? radix 0 digits
      if n < UInt32.size then some ⟨UInt32.ofNat n⟩ else none

def parse? (text : String) : Option AccessKey := ofChars? text.toList

def render (k : AccessKey) : String := "0x" ++ String.ofList (Nat.toDigits 16 k.value.toNat)

end AccessKey

end CigaretteSmokers
