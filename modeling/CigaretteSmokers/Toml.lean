import CigaretteSmokers.Number.Binary64

/-!
TOML documents. Nothing here looks into a date or a time, so these have no content.
-/

namespace CigaretteSmokers.Toml

/-- How a table came about: by a header of its own, as a step of a longer header, by dotted keys,
or between braces. -/
inductive Form
  | header
  | implied
  | dotted
  | braces
  deriving DecidableEq

inductive Value
  | text (s : String)
  | integer (n : Int64)
  | float (x : Binary64)
  | boolean (b : Bool)
  | moment
  | array (items : List Value)
  | table (form : Form) (entries : List (String × Value))
  /-- Tables under one header, repeated. The last one is open. -/
  | tables (earlier : List (List (String × Value))) (last : List (String × Value))

abbrev Entries := List (String × Value)

namespace Value

/-- The values of a list, if it is one. -/
def items? : Value → Option (List Value)
  | .array items => some items
  | .tables earlier last => some ((earlier ++ [last]).map (.table .header))
  | _ => none

/-- Whether a value is an empty list or table. -/
def isEmpty : Value → Bool
  | .array [] | .table _ [] => true
  | _ => false

/-- The name of a choice without content: a text, or a table with one empty entry. -/
def choice? : Value → Option String
  | .text s => some s
  | .table _ [(k, v)] => if v.isEmpty then some k else none
  | _ => none

end Value

end CigaretteSmokers.Toml
