import CigaretteSmokers.Settings.AccessKey
import CigaretteSmokers.Table

/-!
The table as a row of columns, and the heading over the rows. A number wider than its column
pushes the others to the right.
-/

namespace CigaretteSmokers.Columns

def alignRight (width : Nat) (text : List Char) : List Char :=
  List.replicate (width - text.length) ' ' ++ text

def alignLeft (width : Nat) (text : List Char) : List Char :=
  text ++ List.replicate (width - text.length) ' '

/-- The label of a column that stands for an ingredient or a smoker. -/
def label (lead : List Char) (width : Nat) (k : Ingredient) : List Char :=
  lead ++ alignLeft width (Nat.toDigits 10 k.index)

def header (key : AccessKey) : List Char :=
  List.replicate 20 ' ' ++
  ("Smokers - Description of the internal state (key " ++ key.render ++ ")\n\n").toList ++
  Ingredient.all.flatMap (label [' ', 'S'] 3) ++ " AG  ".toList ++
  Ingredient.all.flatMap (label [' ', 'I'] 2) ++
  Ingredient.all.flatMap (label [' ', ' ', 'C'] 2) ++ " CL\n".toList

def row (t : Table) : List Char :=
  t.smokers.toList.flatMap (fun s => ' ' :: s.mnemonic.toList) ++
  ' ' :: (t.agent.mnemonic.toList ++ ' ' ::
  (t.ingredients.toList.flatMap fun n => ' ' :: alignRight 3 (Text.Digits.ofInt n.toInt))) ++
  (t.cigarettes.toList.flatMap fun n => ' ' :: alignRight 4 (Text.Digits.ofInt n.toNat)) ++
  [' ', ' ', if t.closing then 'Y' else 'N']

end CigaretteSmokers.Columns
