/-!
The spelling of a string. It goes over several lines if it has line ends. It is literal if that
saves escapes and nothing in it needs one; else it is basic.
-/

namespace CigaretteSmokers.Toml

def isControl (c : Char) : Bool := c.toNat < 0x20 || c = '\x7f'

def hasTriple : List Char → Bool
  | [] => false
  | c :: rest => (['\'', '\'', '\''].isPrefixOf (c :: rest)) || hasTriple rest

/-- Whether a string can and should be written without escapes. -/
def isLiteral (s : List Char) : Bool :=
  s.contains '\\' && s.all (fun c => c = '\t' || c = '\n' || !isControl c) &&
  !hasTriple s && s.getLast? ≠ some '\''

def upperDigit (n : Nat) : Char := (Nat.digitChar n).toUpper

def escape (multiline : Bool) (c : Char) : List Char :=
  if c = '\x08' then ['\\', 'b']
  else if c = '\t' then ['\\', 't']
  else if c = '\n' then if multiline then ['\n'] else ['\\', 'n']
  else if c = '\x0c' then ['\\', 'f']
  else if c = '\r' then ['\\', 'r']
  else if c = '"' then ['\\', '"']
  else if c = '\\' then ['\\', '\\']
  else if isControl c then
    ['\\', 'u', '0', '0', upperDigit (c.toNat / 16), upperDigit (c.toNat % 16)]
  else [c]

/-- A string in its quotes. -/
def quote (s : List Char) : List Char :=
  let multiline := s.contains '\n'
  let lineEnd := if multiline then ['\n'] else []
  if isLiteral s then
    let marks := List.replicate (if multiline ∨ s.contains '\'' then 3 else 1) '\''
    marks ++ lineEnd ++ s ++ marks
  else
    let marks := List.replicate (if multiline then 3 else 1) '"'
    marks ++ lineEnd ++ s.flatMap (escape multiline) ++ marks

end CigaretteSmokers.Toml
