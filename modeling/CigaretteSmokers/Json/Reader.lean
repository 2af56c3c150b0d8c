import CigaretteSmokers.Json
import CigaretteSmokers.Text.Digits

namespace CigaretteSmokers.Json

open Text.Digits

def isBlank (c : Char) : Bool := c = ' ' || c = '\t' || c = '\n' || c = '\r'

def skipBlanks (text : List Char) : List Char := text.dropWhile isBlank

/-- What a string is made of: characters, and 16-bit units written by their number. -/
inductive Piece
  | char (c : Char)
  | unit (n : Nat)
  deriving DecidableEq

def escape? : Char → Option Char
  | '"' => some '"'
  | '\\' => some '\\'
  | '/' => some '/'
  | 'b' => some '\x08'
  | 'f' => some '\x0c'
  | 'n' => some '\n'
  | 'r' => some '\r'
  | 't' => some '\t'
  | _ => none

/-- The pieces up to the closing quote, and the rest. -/
def pieces? : List Char → Option (List Piece × List Char)
  | [] => none
  | '"' :: rest => some ([], rest)
  | '\\' :: 'u' :: a :: b :: c :: d :: rest => do
      let n ← number? 16 0 [a, b, c, d]
      let (ps, rest) ← pieces? rest
      return (.unit n :: ps, rest)
  | '\\' :: c :: rest => do
      let e ← escape? c
      let (ps, rest) ← pieces? rest
      return (.char e :: ps, rest)
  | c :: rest =>
      if c = '\\' ∨ c.toNat < 0x20 then none
      else do
        let (ps, rest) ← pieces? rest
        return (.char c :: ps, rest)

def isHighUnit (n : Nat) : Bool := 0xd800 ≤ n && n < 0xdc00

def isLowUnit (n : Nat) : Bool := 0xdc00 ≤ n && n < 0xe000

/-- The characters that pieces denote. Two units of a pair make one character; half of a pair
makes none. -/
def assemble? : List Piece → Option (List Char)
  | [] => some []
  | .char c :: rest => (assemble? rest).map (c :: ·)
  | .unit n :: rest =>
      if isLowUnit n then none
      else if isHighUnit n then
        match rest with
        | .unit m :: rest =>
            if isLowUnit m then
              let c := Char.ofNat (0x10000 + (n - 0xd800) * 0x400 + (m - 0xdc00))
              (assemble? rest).map (c :: ·)
            else none
        | _ => none
      else (assemble? rest).map (Char.ofNat n :: ·)

/-- A string after its opening quote. -/
def string? (text : List Char) : Option (Option String × List Char) := do
  let (ps, rest) ← pieces? text
  return ((assemble? ps).map String.ofList, rest)

/-- The digits before the point: a zero stands alone. -/
def whole? (text : List Char) : Option (List Char × List Char) :=
  match run? text with
  | some (digits, rest) =>
      if digits.head? = some '0' ∧ digits ≠ ['0'] then none else some (digits, rest)
  | none => none

/-- Reads past a fraction, and says whether there was one. -/
def fraction? : List Char → Option (Bool × List Char)
  | '.' :: rest => (run? rest).map fun (_, rest) => (true, rest)
  | rest => some (false, rest)

/-- Reads past an exponent, and says whether there was one. -/
def exponent? : List Char → Option (Bool × List Char)
  | c :: rest =>
      if c = 'e' ∨ c = 'E' then
        let digits := match rest with
          | '+' :: digits | '-' :: digits => digits
          | digits => digits
        (run? digits).map fun (_, rest) => (true, rest)
      else some (false, c :: rest)
  | [] => some (false, [])

/-- A zero below zero is no whole number. -/
def numeral? (text : List Char) : Option (Value × List Char) := do
  let (negative, unsigned) := match text with
    | '-' :: rest => (true, rest)
    | rest => (false, rest)
  let (digits, rest) ← whole? unsigned
  let (hasFraction, rest) ← fraction? rest
  let (hasExponent, rest) ← exponent? rest
  let n : Int := Nat.ofDigitChars 10 digits 0
  let real := hasFraction || hasExponent || (negative && n == 0)
  return (if real then .real else .integer (if negative then -n else n), rest)

mutual

/-- The value that a text begins with. The number bounds the depth of the calls. -/
def value? : Nat → List Char → Option (Value × List Char)
  | 0, _ => none
  | fuel + 1, text =>
      match skipBlanks text with
      | '"' :: rest => (string? rest).map fun (s, rest) => (.text s, rest)
      | '[' :: rest =>
          match skipBlanks rest with
          | ']' :: rest => some (.array [], rest)
          | rest => (items? fuel rest).map fun (vs, rest) => (.array vs, rest)
      | '\x7b' :: rest =>
          match skipBlanks rest with
          | '\x7d' :: rest => some (.object [], rest)
          | rest => (entries? fuel rest).map fun (es, rest) => (.object es, rest)
      | 'n' :: 'u' :: 'l' :: 'l' :: rest => some (.null, rest)
      | 't' :: 'r' :: 'u' :: 'e' :: rest => some (.boolean true, rest)
      | 'f' :: 'a' :: 'l' :: 's' :: 'e' :: rest => some (.boolean false, rest)
      | rest => numeral? rest

/-- The values up to the end of a list. -/
def items? : Nat → List Char → Option (List Value × List Char)
  | 0, _ => none
  | fuel + 1, text => do
      let (v, rest) ← value? fuel text
      match skipBlanks rest with
      | ']' :: rest => return ([v], rest)
      | ',' :: rest =>
          let (vs, rest) ← items? fuel rest
          return (v :: vs, rest)
      | _ => none

/-- The entries up to the end of an object. -/
def entries? : Nat → List Char → Option (List (Option String × Value) × List Char)
  | 0, _ => none
  | fuel + 1, text =>
      match skipBlanks text with
      | '"' :: rest => do
          let (k, rest) ← string? rest
          match skipBlanks rest with
          | ':' :: rest =>
              let (v, rest) ← value? fuel rest
              match skipBlanks rest with
              | '\x7d' :: rest => return ([(k, v)], rest)
              | ',' :: rest =>
                  let (es, rest) ← entries? fuel rest
                  return ((k, v) :: es, rest)
              | _ => none
          | _ => none
      | _ => none

end

/-- The value that a whole text denotes. Every two calls get at least one character further. -/
def ofChars? (text : List Char) : Option Value :=
  match value? (2 * text.length + 2) text with
  | some (v, rest) => if (skipBlanks rest).isEmpty then some v else none
  | none => none

def parse? (text : String) : Option Value := ofChars? text.toList

end CigaretteSmokers.Json
