import CigaretteSmokers.Checked
import CigaretteSmokers.Number.FloatText
import CigaretteSmokers.Number.Nearest
import CigaretteSmokers.Toml
import CigaretteSmokers.Toml.Text.Reader

/-!
Numbers. Single underscores may stand between digits. Integers have 64 bits; a float is rounded to
the nearest one and must be finite unless it is spelled otherwise.
-/

namespace CigaretteSmokers.Toml

open Text.Digits

/-- Digits after the first one, each with an underscore before it or not. -/
def moreDigits? (isDigit : Char → Bool) : List Char → Option (List Char × List Char)
  | [] => some ([], [])
  | '_' :: c :: rest => if isDigit c then push (some c) (moreDigits? isDigit rest) else none
  | c :: rest =>
      if isDigit c then push (some c) (moreDigits? isDigit rest)
      else if c = '_' then none
      else some ([], c :: rest)

def digits? (isDigit : Char → Bool) : List Char → Option (List Char × List Char)
  | c :: rest => if isDigit c then push (some c) (moreDigits? isDigit rest) else none
  | [] => none

/-- An integer after the mark of its radix. -/
def radixInteger? (radix : Nat) (text : List Char) : Option (Value × List Char) := do
  let (digits, rest) ← digits? (isDigitOf radix) text
  let n ← Checked.signed (← number? radix 0 digits : Nat)
  return (.integer n, rest)

def sign : List Char → Bool × List Char
  | '-' :: rest => (true, rest)
  | '+' :: rest => (false, rest)
  | text => (false, text)

/-- The digits before the point: a zero stands alone. -/
def whole? : List Char → Option (List Char × List Char)
  | '0' :: rest => some (['0'], rest)
  | text => digits? Char.isDigit text

def fraction? : List Char → Option (Option (List Char) × List Char)
  | '.' :: rest => (digits? Char.isDigit rest).map fun (digits, rest) => (some digits, rest)
  | text => some (none, text)

def exponent? : List Char → Option (Option Int × List Char)
  | c :: text =>
      if c = 'e' ∨ c = 'E' then
        let (negative, digits) := sign text
        (digits? Char.isDigit digits).map fun (digits, rest) =>
          let n : Int := Nat.ofDigitChars 10 digits 0
          (some (if negative then -n else n), rest)
      else some (none, c :: text)
  | [] => some (none, [])

def signBit (negative : Bool) : UInt64 := if negative then 0x8000000000000000 else 0

/-- The numbers that have names. -/
def named? (negative : Bool) : List Char → Option (Value × List Char)
  | 'i' :: 'n' :: 'f' :: rest => some (.float ⟨signBit negative ||| 0x7ff0000000000000⟩, rest)
  | 'n' :: 'a' :: 'n' :: rest => some (.float ⟨signBit negative ||| 0x7ff8000000000000⟩, rest)
  | _ => none

def decimal? (negative : Bool) (text : List Char) : Option (Value × List Char) := do
  let (digits, rest) ← whole? text
  let (fraction, rest) ← fraction? rest
  let (exponent, rest) ← exponent? rest
  if fraction.isNone ∧ exponent.isNone then
    let n : Int := Nat.ofDigitChars 10 digits 0
    return (.integer (← Checked.signed (if negative then -n else n)), rest)
  else
    let places := fraction.getD []
    let d : Decimal := ⟨Nat.ofDigitChars 10 (digits ++ places) 0, exponent.getD 0 - places.length⟩
    return (.float (← d.nearest? negative), rest)

def numeral? : List Char → Option (Value × List Char)
  | '0' :: 'x' :: text => radixInteger? 16 text
  | '0' :: 'o' :: text => radixInteger? 8 text
  | '0' :: 'b' :: text => radixInteger? 2 text
  | text =>
      let (negative, rest) := sign text
      match named? negative rest with
      | some found => some found
      | none => decimal? negative rest

/-- A float always has a point, and NaN has a sign. -/
def floatStyle : FloatStyle where
  pointed := true
  nan := "nan"
  signedNaN := true

end CigaretteSmokers.Toml
