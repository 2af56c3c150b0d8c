/-!
Dates and times, of which only the extent is wanted. Every month has 31 days here.
-/

namespace CigaretteSmokers.Toml.Moment

/-- Reads past a number of two digits. -/
def pair? (low high : Nat) : List Char → Option (List Char)
  | c :: d :: rest =>
      let n := Nat.ofDigitChars 10 [c, d] 0
      if c.isDigit ∧ d.isDigit ∧ low ≤ n ∧ n ≤ high then some rest else none
  | _ => none

def mark? (c : Char) : List Char → Option (List Char)
  | d :: rest => if c = d then some rest else none
  | [] => none

def date? (text : List Char) : Option (List Char) := do
  let rest ← mark? '-' (← pair? 0 99 (← pair? 0 99 text))
  pair? 1 31 (← mark? '-' (← pair? 1 12 rest))

/-- Reads past the fraction of a second, if there is one. -/
def skipFraction : List Char → List Char
  | '.' :: d :: rest => if d.isDigit then rest.dropWhile Char.isDigit else '.' :: d :: rest
  | text => text

def clock? (text : List Char) : Option (List Char) := do
  let rest ← mark? ':' (← pair? 0 23 text)
  let rest ← pair? 0 60 (← mark? ':' (← pair? 0 59 rest))
  return skipFraction rest

def offset? : List Char → Option (List Char)
  | 'Z' :: rest | 'z' :: rest => some rest
  | '+' :: rest | '-' :: rest => do pair? 0 59 (← mark? ':' (← pair? 0 23 rest))
  | _ => none

/-- Reads past the time that belongs to a date, and past its offset. -/
def skipClock : List Char → List Char
  | c :: rest =>
      if c = 'T' ∨ c = 't' ∨ c = ' ' then
        match clock? rest with
        | some rest => (offset? rest).getD rest
        | none => c :: rest
      else c :: rest
  | [] => []

/-- What follows a date, a time, or both. -/
def skip? (text : List Char) : Option (List Char) :=
  match date? text with
  | some rest => some (skipClock rest)
  | none => clock? text

end CigaretteSmokers.Toml.Moment
