import CigaretteSmokers.Calendar
import CigaretteSmokers.Text.Blank
import CigaretteSmokers.Text.Digits

/-!
Moments as text: year, month and day, a T, the time, and Z for universal time. The reader is
liberal: parts need no leading zeros, blanks may stand between them, and any offset will do.
-/

namespace CigaretteSmokers.Timestamp

open Text (skipBlanks)
open Text.Digits (run?)

def padded (width n : Nat) : List Char :=
  let digits := Nat.toDigits 10 n
  List.replicate (width - digits.length) '0' ++ digits

/-- A year outside of four digits has a sign. -/
def yearText (year : Int) : List Char :=
  if 0 ≤ year ∧ year ≤ 9999 then padded 4 year.natAbs
  else (if year < 0 then '-' else '+') :: padded 4 year.natAbs

/-- The fraction of a second, to the thousandth, the millionth or the last place. -/
def fractionText (nanosecond : Nat) : List Char :=
  if nanosecond = 0 then []
  else if nanosecond % 1000000 = 0 then '.' :: padded 3 (nanosecond / 1000000)
  else if nanosecond % 1000 = 0 then '.' :: padded 6 (nanosecond / 1000)
  else '.' :: padded 9 nanosecond

def toChars (t : Timestamp) : List Char :=
  yearText t.date.year ++ '-' :: padded 2 t.date.month ++ '-' :: padded 2 t.date.day ++
  'T' :: padded 2 (t.minute / 60) ++ ':' :: padded 2 (t.minute % 60) ++
  ':' :: padded 2 t.second ++ fractionText t.nanosecond ++ ['Z']

def render (t : Timestamp) : String := String.ofList t.toChars

/-- A number of so many digits at most. -/
def number? (width : Nat) (text : List Char) : Option (Nat × List Char) :=
  match (text.take width).takeWhile Char.isDigit with
  | [] => none
  | digits => some (Nat.ofDigitChars 10 digits 0, text.drop digits.length)

def year? (text : List Char) : Option (Int × List Char) :=
  match skipBlanks text with
  | '-' :: rest => (run? rest).map fun (digits, rest) =>
      (-(Nat.ofDigitChars 10 digits 0 : Int), rest)
  | '+' :: rest => (run? rest).map fun (digits, rest) => (Nat.ofDigitChars 10 digits 0, rest)
  | rest => (number? 4 rest).map fun (n, rest) => (n, rest)

def part? (text : List Char) : Option (Nat × List Char) := number? 2 (skipBlanks text)

/-- The mark that stands between two parts. -/
def mark? (c : Char) (text : List Char) : Option (List Char) :=
  match skipBlanks text with
  | d :: rest => if d = c then some rest else none
  | [] => none

/-- Nanoseconds; what goes beyond nine places is cut off. -/
def fraction? : List Char → Option (Nat × List Char)
  | '.' :: text => (run? text).map fun (digits, rest) =>
      (Nat.ofDigitChars 10 (digits.take 9) 0 * Nat.pow 10 (9 - digits.length), rest)
  | text => some (0, text)

/-- The sign, the hours and the minutes of an offset. -/
def signedOffset? (negative : Bool) (text : List Char) : Option (Int × List Char) :=
  match text with
  | h₁ :: h₂ :: rest =>
      match rest.dropWhile fun c => c = ':' || Text.isBlank c with
      | m₁ :: m₂ :: rest =>
          if h₁.isDigit ∧ h₂.isDigit ∧ m₁.isDigit ∧ m₂.isDigit ∧ m₁ < '6' then
            let n := Nat.ofDigitChars 10 [h₁, h₂] 0 * 60 + Nat.ofDigitChars 10 [m₁, m₂] 0
            if n < 1440 then some (if negative then -n else n, rest) else none
          else none
      | _ => none
  | _ => none

/-- How many minutes the clock is ahead of universal time. -/
def offset? : List Char → Option (Int × List Char)
  | 'Z' :: rest | 'z' :: rest => some (0, rest)
  | '+' :: rest => signedOffset? false rest
  | '-' :: rest | '\u2212' :: rest => signedOffset? true rest
  | u :: t :: c :: rest =>
      if [u, t, c].map Char.toUpper = ['U', 'T', 'C'] then some (0, rest) else none
  | _ => none

def ofChars? (text : List Char) : Option Timestamp := do
  let (year, rest) ← year? text
  let (month, rest) ← part? (← mark? '-' rest)
  let (day, rest) ← part? (← mark? '-' rest)
  match rest with
  | c :: rest =>
      if c ≠ 'T' ∧ c ≠ 't' ∧ c ≠ ' ' then none
      else do
        let (hour, rest) ← part? rest
        let (minute, rest) ← part? (← mark? ':' rest)
        let (second, rest) ← part? (← mark? ':' rest)
        let (nanosecond, rest) ← fraction? rest
        let (offset, rest) ← offset? (skipBlanks rest)
        if (skipBlanks rest).isEmpty ∧ minute < 60 then
          ofLocal? ⟨year, month, day⟩ (hour * 60 + minute) second nanosecond offset
        else none
  | [] => none

def parse? (text : String) : Option Timestamp := ofChars? text.toList

end CigaretteSmokers.Timestamp
