import CigaretteSmokers.Text.Digits

/-!
Strings between quotes. A basic string has escapes and a literal one has not; either may go over
several lines between three quotes.
-/

namespace CigaretteSmokers.Toml

open Text.Digits

def isBlank (c : Char) : Bool := c = ' ' || c = '\t'

def skipBlanks (text : List Char) : List Char := text.dropWhile isBlank

/-- The characters that stand for themselves: no controls but the tab. -/
def isPlain (c : Char) : Bool := c = '\t' || (0x20 ≤ c.toNat && c ≠ '\x7f')

def escape? : Char → Option Char
  | 'b' => some '\x08'
  | 't' => some '\t'
  | 'n' => some '\n'
  | 'f' => some '\x0c'
  | 'r' => some '\r'
  | '"' => some '"'
  | '\\' => some '\\'
  | _ => none

/-- The character with a number in hexadecimal. -/
def scalar? (digits : List Char) : Option Char :=
  match number? 16 0 digits with
  | some n => if n.isValidChar then some (Char.ofNat n) else none
  | none => none

/-- Puts a character before what the rest of a text gives. -/
def push (c : Option Char) (r : Option (List Char × List Char)) :
    Option (List Char × List Char) := do
  let c ← c
  let (text, rest) ← r
  return (c :: text, rest)

/-- The end of a string after three quotes. Up to two more quotes belong to the string. -/
def closing? (quote : Char) (text : List Char) : Option (List Char × List Char) :=
  let extra := text.takeWhile (· = quote)
  if extra.length ≤ 2 then some (extra, text.drop extra.length) else none

/-- Whether only blanks come before the end of the line. -/
def startsLine (text : List Char) : Bool :=
  match skipBlanks text with
  | '\n' :: _ | '\r' :: '\n' :: _ => true
  | _ => false

/-- A basic string after its opening quotes. A backslash at the end of a line takes away all white
space that follows; `skip` says that it is being taken away. -/
def basic? (multiline skip : Bool) : List Char → Option (List Char × List Char)
  | [] => none
  | c :: rest =>
      if skip && (isBlank c || c = '\n') then basic? multiline true rest
      else if c = '"' then
        if multiline then
          match rest with
          | '"' :: '"' :: rest => closing? '"' rest
          | _ => push (some '"') (basic? multiline false rest)
        else some ([], rest)
      else if c = '\\' then
        if multiline && startsLine rest then basic? multiline true rest
        else match rest with
          | 'u' :: h₁ :: h₂ :: h₃ :: h₄ :: rest =>
              push (scalar? [h₁, h₂, h₃, h₄]) (basic? multiline false rest)
          | 'U' :: h₁ :: h₂ :: h₃ :: h₄ :: h₅ :: h₆ :: h₇ :: h₈ :: rest =>
              push (scalar? [h₁, h₂, h₃, h₄, h₅, h₆, h₇, h₈]) (basic? multiline false rest)
          | e :: rest => push (escape? e) (basic? multiline false rest)
          | [] => none
      else if c = '\n' then
        if multiline then push (some '\n') (basic? multiline false rest) else none
      else if c = '\r' then
        match rest with
        | '\n' :: rest =>
            if !multiline then none
            else if skip then basic? multiline true rest
            else push (some '\n') (basic? multiline false rest)
        | _ => none
      else if isPlain c then push (some c) (basic? multiline false rest)
      else none

/-- A literal string after its opening quotes. -/
def literal? (multiline : Bool) : List Char → Option (List Char × List Char)
  | [] => none
  | c :: rest =>
      if c = '\'' then
        if multiline then
          match rest with
          | '\'' :: '\'' :: rest => closing? '\'' rest
          | _ => push (some '\'') (literal? multiline rest)
        else some ([], rest)
      else if c = '\n' then
        if multiline then push (some '\n') (literal? multiline rest) else none
      else if c = '\r' then
        match rest with
        | '\n' :: rest => if multiline then push (some '\n') (literal? multiline rest) else none
        | _ => none
      else if isPlain c then push (some c) (literal? multiline rest)
      else none

/-- The end of the line right after three quotes does not belong to the string. -/
def skipLineEnd : List Char → List Char
  | '\n' :: rest | '\r' :: '\n' :: rest => rest
  | text => text

def text? (text : List Char) : Option (String × List Char) :=
  let found := match text with
    | '"' :: '"' :: '"' :: rest => basic? true false (skipLineEnd rest)
    | '"' :: rest => basic? false false rest
    | '\'' :: '\'' :: '\'' :: rest => literal? true (skipLineEnd rest)
    | '\'' :: rest => literal? false rest
    | _ => none
  found.map fun (s, rest) => (String.ofList s, rest)

end CigaretteSmokers.Toml
