/-!
JSON documents, as far as a log of snapshots needs them: whole numbers are exact, and a number
with a fraction or an exponent is only known to be one.
-/

namespace CigaretteSmokers.Json

/-- The text of a string is missing if its escapes name half of a surrogate pair. -/
inductive Value
  | null
  | boolean (b : Bool)
  | integer (n : Int)
  | real
  | text (s : Option String)
  | array (items : List Value)
  | object (entries : List (Option String × Value))

namespace Value

/-- The values of the named fields, each of which must be there once. A list gives them by
position. Other fields are passed over. -/
def fields? (names : List String) : Value → Option (List Value)
  | .object entries =>
      if entries.any (·.1.isNone) then none
      else names.mapM fun name =>
        match entries.filter (·.1 = some name) with
        | [(_, v)] => some v
        | _ => none
  | .array items => if items.length = names.length then some items else none
  | _ => none

def items? : Value → Option (List Value)
  | .array items => some items
  | _ => none

def string? : Value → Option String
  | .text s => s
  | _ => none

def integer? : Value → Option Int
  | .integer n => some n
  | _ => none

def natural? : Value → Option Nat
  | .integer (.ofNat n) => some n
  | _ => none

def boolean? : Value → Option Bool
  | .boolean b => some b
  | _ => none

/-- The name of a choice without content: a text, or a record with one empty field. -/
def choice? : Value → Option String
  | .text s => s
  | .object [(s, .null)] => s
  | _ => none

end Value

end CigaretteSmokers.Json
