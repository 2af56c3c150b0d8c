import CigaretteSmokers.Checked
import CigaretteSmokers.Fault
import CigaretteSmokers.Trio

namespace CigaretteSmokers

inductive SmokerStatus
  | waiting
  | rolling
  | smoking
  | closing
  deriving DecidableEq, Inhabited

namespace SmokerStatus

def all : List SmokerStatus := [.waiting, .rolling, .smoking, .closing]

def mnemonic : SmokerStatus → String
  | .waiting => "WAIT"
  | .rolling => "ROLL"
  | .smoking => "SMOK"
  | .closing => "CLOS"

/-- The spelling in a message. -/
def name : SmokerStatus → String
  | .waiting => "WaitingForIngredients"
  | .rolling => "Rolling"
  | .smoking => "Smoking"
  | .closing => "Closing"

end SmokerStatus

inductive AgentStatus
  | preparing
  | waiting
  | closing
  deriving DecidableEq, Inhabited

namespace AgentStatus

def all : List AgentStatus := [.preparing, .waiting, .closing]

def mnemonic : AgentStatus → String
  | .preparing => "PREP"
  | .waiting => "WCIG"
  | .closing => "CLOS"

end AgentStatus

/-- All that the actors share: what lies on the table, what each of them does, how many
cigarettes each smoker has finished, and whether the factory is closing. -/
structure Table where
  ingredients : Trio Int64 := .replicate 0
  smokers : Trio SmokerStatus := .replicate .waiting
  cigarettes : Trio UInt64 := .replicate 0
  agent : AgentStatus := .preparing
  closing : Bool := false
  deriving DecidableEq, Inhabited

namespace Table

def initial : Table := {}

theorem ext_get {t u : Table} (hi : ∀ j, t.ingredients.get j = u.ingredients.get j)
    (hs : ∀ j, t.smokers.get j = u.smokers.get j) (hc : ∀ j, t.cigarettes.get j = u.cigarettes.get j)
    (ha : t.agent = u.agent) (hcl : t.closing = u.closing) : t = u := by
  cases t with
  | mk =>
      cases u with
      | mk => rw [Table.mk.injEq]; exact ⟨Trio.ext_get hi, Trio.ext_get hs, Trio.ext_get hc, ha, hcl⟩

def allClosed (t : Table) : Bool := t.smokers.toList.all (· == .closing)

/-- The cigarettes of all smokers, added up from the first smoker on. -/
def total (t : Table) : Except Crash UInt64 :=
  t.cigarettes.toList.foldlM (fun sum n =>
    match Checked.unsigned (sum.toNat + n.toNat) with
    | some s => .ok s
    | none => .error .additionOverflow) 0

/-- A change to the table. It may crash half-way, and then leaves the table half changed. -/
abbrev Action := EStateM Crash Table

namespace Action

def setSmoker (k : Ingredient) (s : SmokerStatus) : Action Unit :=
  modify fun t => { t with smokers := t.smokers.set k s }

def setAgent (s : AgentStatus) : Action Unit :=
  modify fun t => { t with agent := s }

def putUnit (i : Ingredient) : Action Unit := fun t =>
  match Checked.signed ((t.ingredients.get i).toInt + 1) with
  | some n => .ok () { t with ingredients := t.ingredients.set i n }
  | none => .error .additionOverflow t

def takeUnit (i : Ingredient) : Action Unit := fun t =>
  match Checked.signed ((t.ingredients.get i).toInt - 1) with
  | some n => .ok () { t with ingredients := t.ingredients.set i n }
  | none => .error .subtractionOverflow t

/-- The agent lays out what the smoker that holds `k` lacks. -/
def supply (k : Ingredient) : Action Unit := do
  setAgent .preparing
  putUnit k.needs.1
  putUnit k.needs.2

/-- What a woken smoker finds at the table. -/
inductive Visit
  | closed
  | served
  | lacking (missing : Ingredient)
  deriving DecidableEq

/-- A woken smoker leaves if the factory is closing, else takes both of its needs or neither. -/
def visit (k : Ingredient) : Action Visit := do
  let t ← get
  if t.closing then
    setSmoker k .closing
    return .closed
  else if (t.ingredients.get k.needs.1).toInt < 1 then
    return .lacking k.needs.1
  else if (t.ingredients.get k.needs.2).toInt < 1 then
    return .lacking k.needs.2
  else
    takeUnit k.needs.1
    takeUnit k.needs.2
    return .served

def countCigarette (k : Ingredient) : Action Unit := fun t =>
  match Checked.unsigned ((t.cigarettes.get k).toNat + 1) with
  | some n => .ok () { t with cigarettes := t.cigarettes.set k n }
  | none => .error .additionOverflow t

def close : Action Unit := modify fun t => { t with closing := true, agent := .closing }

/-- Puts another table in place and gives back the old one. -/
def replace (new : Table) : Action Table := modifyGet fun t => (t, new)

end Action

end Table

end CigaretteSmokers
