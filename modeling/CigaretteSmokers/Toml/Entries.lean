import CigaretteSmokers.Toml

/-!
How a table grows: values are set under dotted keys, and headers open tables. A table is defined
once; what a header or a key may extend depends on how the table came about.
-/

namespace CigaretteSmokers.Toml.Entries

/-- Changes the value of a key, or adds the key at the end. -/
def modify (k : String) (f : Option Value → Option Value) : Entries → Option Entries
  | [] => (f none).map fun v => [(k, v)]
  | (key, v) :: rest =>
      if key = k then (f (some v)).map fun v => (key, v) :: rest
      else (modify k f rest).map fun es => (key, v) :: es

/-- Adds a key that must be new. -/
def add (k : String) (v : Value) (es : Entries) : Option Entries :=
  es.modify k fun
    | none => some v
    | some _ => none

/-- Sets a value under dotted keys. The tables on the way may come from dotted keys or be steps of
headers, but only one from dotted keys takes the value; `takes` says whether this table does. -/
def assign (takes : Bool) : List String → Value → Entries → Option Entries
  | [], _, _ => none
  | [k], v, es => if takes then add k v es else none
  | k :: path, v, es => modify k (fun
      | none => (assign true path v []).map (.table .dotted)
      | some (.table .dotted inner) => (assign true path v inner).map (.table .dotted)
      | some (.table .implied inner) => (assign false path v inner).map (.table .implied)
      | some (.tables earlier last) => (assign false path v last).map (.tables earlier)
      | some _ => none) es

/-- Changes the table that the names of a header lead to. -/
def within (f : Entries → Option Entries) : List String → Entries → Option Entries
  | [], es => f es
  | k :: path, es => modify k (fun
      | none => (within f path []).map (.table .implied)
      | some (.table .braces _) => none
      | some (.table form inner) => (within f path inner).map (.table form)
      | some (.tables earlier last) => (within f path last).map (.tables earlier)
      | some _ => none) es

/-- A header defines a table that is new or has only been a step of other headers. -/
def openTable (k : String) (es : Entries) : Option Entries :=
  es.modify k fun
    | none => some (.table .header [])
    | some (.table .implied inner) => some (.table .header inner)
    | some _ => none

/-- A doubled header adds a table to those that it has defined. -/
def openItem (k : String) (es : Entries) : Option Entries :=
  es.modify k fun
    | none => some (.tables [] [])
    | some (.tables earlier last) => some (.tables (earlier ++ [last]) [])
    | some _ => none

/-- The table between braces that pairs of keys and values make. -/
def ofPairs? (pairs : List (List String × Value)) : Option Entries :=
  pairs.foldlM (fun es (path, v) => assign true path v es) []

end CigaretteSmokers.Toml.Entries
