import CigaretteSmokers.Table

/-!
The laws that consecutive snapshots of the table obey. A law looks at a snapshot and at the one
before it, if there was one, and says how the step breaks it.
-/

namespace CigaretteSmokers

inductive Law
  | nonNegativeIngredients
  | monotonicCigarettes
  | closingIsTerminal
  | pairedConsumption
  deriving DecidableEq

def Law.all : List Law :=
  [.nonNegativeIngredients, .monotonicCigarettes, .closingIsTerminal, .pairedConsumption]

def Law.name : Law → String
  | .nonNegativeIngredients => "NonNegativeIngredients"
  | .monotonicCigarettes => "MonotonicCigarettes"
  | .closingIsTerminal => "ClosingIsTerminal"
  | .pairedConsumption => "PairedConsumption"

inductive Breach
  | negativeCount (kind : Ingredient) (count : Int64)
  | countFell (smoker : Ingredient) (before after : UInt64)
  | countJumped (smoker : Ingredient) (before after : UInt64)
  | finishedWhile (smoker : Ingredient) (status : SmokerStatus)
  | closingCleared
  | leftClosing (smoker : Ingredient) (status : SmokerStatus)
  | unpaired (deltas : Trio Int64)
  | consumedWhile (smoker : Ingredient) (status : SmokerStatus)
  deriving DecidableEq

def Breach.message : Breach → String
  | .negativeCount kind count => s!"ingredient {kind.index} count is {count.toInt}"
  | .countFell smoker before after =>
      s!"smoker {smoker.index} count went from {before.toNat} to {after.toNat}"
  | .countJumped smoker before after =>
      s!"smoker {smoker.index} count jumped from {before.toNat} to {after.toNat}"
  | .finishedWhile smoker status =>
      s!"smoker {smoker.index} finished a cigarette while {status.name}"
  | .closingCleared => "closing flag was cleared"
  | .leftClosing smoker status => s!"smoker {smoker.index} left Closing for {status.name}"
  | .unpaired d =>
      s!"ingredient deltas [{d.tobacco.toInt}, {d.paper.toInt}, {d.matchstick.toInt}]" ++
        " are not one unit of each of two kinds"
  | .consumedWhile smoker status => s!"smoker {smoker.index} consumed while {status.name}"

namespace Law

def negative? (now : Table) : Option Breach :=
  Ingredient.all.findSome? fun i =>
    let n := now.ingredients.get i
    if n.toInt < 0 then some (.negativeCount i n) else none

def miscount? (past now : Table) (k : Ingredient) : Except Crash (Option Breach) :=
  let before := past.cigarettes.get k
  let after := now.cigarettes.get k
  if after < before then .ok (some (.countFell k before after))
  else match Checked.difference after before with
    | none => .error .subtractionOverflow
    | some rise =>
        if 1 < rise then .ok (some (.countJumped k before after))
        else if before < after ∧ past.smokers.get k ≠ .smoking then
          .ok (some (.finishedWhile k (past.smokers.get k)))
        else .ok none

def miscounted? (past now : Table) : Except Crash (Option Breach) :=
  Ingredient.all.findSomeM? (miscount? past now)

def reopened? (past now : Table) : Option Breach :=
  if past.closing ∧ ¬ now.closing then some .closingCleared
  else Ingredient.all.findSome? fun k =>
    if past.smokers.get k = .closing ∧ now.smokers.get k ≠ .closing then
      some (.leftClosing k (now.smokers.get k))
    else none

/-- How each count has changed, if every change fits in 64 bits. -/
def deltas? (past now : Table) : Option (Trio Int64) := do
  let change (i : Ingredient) :=
    Checked.signed ((now.ingredients.get i).toInt - (past.ingredients.get i).toInt)
  return ⟨← change .tobacco, ← change .paper, ← change .matchstick⟩

/-- Counts drop only when a smoker takes one unit of each kind but its own. It does so while it
waits. -/
def unpaired? (deltas : Trio Int64) (now : Table) : Option Breach :=
  if deltas.toList.all (0 ≤ ·.toInt) then none
  else match Ingredient.all.filter (deltas.get · = 0) with
    | [k] =>
        if deltas.toList.countP (·.toInt = -1) ≠ 2 then some (.unpaired deltas)
        else if now.smokers.get k ≠ .waiting then some (.consumedWhile k (now.smokers.get k))
        else none
    | _ => some (.unpaired deltas)

/-- How a step breaks the law, if it does. Without a snapshot before, only the counts themselves
can be wrong. -/
def check (law : Law) (past : Option Table) (now : Table) : Except Crash (Option Breach) :=
  match law, past with
  | .nonNegativeIngredients, _ => .ok (negative? now)
  | .monotonicCigarettes, some past => miscounted? past now
  | .closingIsTerminal, some past => .ok (reopened? past now)
  | .pairedConsumption, some past =>
      match deltas? past now with
      | some deltas => .ok (unpaired? deltas now)
      | none => .error .subtractionOverflow
  | _, none => .ok none

end Law

end CigaretteSmokers
