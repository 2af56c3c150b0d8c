import CigaretteSmokers.Calendar.Text
import CigaretteSmokers.Json.Reader
import CigaretteSmokers.Table.Json

namespace CigaretteSmokers

/-- A snapshot of the table with its number and the moment of the save. -/
structure Entry where
  number : UInt64
  time : Timestamp
  table : Table
  deriving DecidableEq

namespace Entry

def toJson (e : Entry) : List Char := Json.object
  [("seq", Text.Digits.ofInt e.number.toNat), ("at", Json.quote e.time.render),
   ("state", e.table.toJson)]

def ofJson? (v : Json.Value) : Option Entry :=
  match v.fields? ["seq", "at", "state"] with
  | some [number, time, table] => do
      return {
        number := ← number.natural?.bind Checked.unsigned
        time := ← time.string?.bind Timestamp.parse?
        table := ← Table.ofJson? table }
  | _ => none

end Entry

end CigaretteSmokers
