
namespace CigaretteSmokers.Json

/-- How a string spells a character: controls by escapes, the quote and the backslash after a
backslash, all else as it stands. -/
def escape (c : Char) : List Char :=
  if c = '"' ∨ c = '\\' then ['\\', c]
  else if c = '\x08' then ['\\', 'b']
  else if c = '\x0c' then ['\\', 'f']
  else if c = '\n' then ['\\', 'n']
  else if c = '\r' then ['\\', 'r']
  else if c = '\t' then ['\\', 't']
  else if c.toNat < 0x20 then
    ['\\', 'u', '0', '0', Nat.digitChar (c.toNat / 16), Nat.digitChar (c.toNat % 16)]
  else [c]

def quote (s : String) : List Char := '"' :: (s.toList.flatMap escape ++ ['"'])

def joined (parts : List (List Char)) : List Char := List.intercalate [','] parts

def array (items : List (List Char)) : List Char := '[' :: (joined items ++ [']'])

def object (fields : List (String × List Char)) : List Char :=
  '\x7b' :: (joined (fields.map fun (k, v) => quote k ++ ':' :: v) ++ ['\x7d'])

end CigaretteSmokers.Json
