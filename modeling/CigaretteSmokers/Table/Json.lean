import CigaretteSmokers.Json
import CigaretteSmokers.Json.Printer
import CigaretteSmokers.Table
import CigaretteSmokers.Text.Digits

/-!
The table as a JSON object, without blanks, its fields in the order of the structure.
-/

namespace CigaretteSmokers

def SmokerStatus.code : SmokerStatus → String
  | .waiting => "WAITING_FOR_INGREDIENTS"
  | .rolling => "ROLLING"
  | .smoking => "SMOKING"
  | .closing => "CLOSING"

def SmokerStatus.ofCode? (s : String) : Option SmokerStatus := all.find? (·.code = s)

def AgentStatus.code : AgentStatus → String
  | .preparing => "PREPARING_INGREDIENTS"
  | .waiting => "WAITING_CIGARETTE"
  | .closing => "CLOSING"

def AgentStatus.ofCode? (s : String) : Option AgentStatus := all.find? (·.code = s)

namespace Table

def fieldNames : List String :=
  ["ingredient_count", "smoker_status", "cigarette_count", "agent_status", "closing"]

def toJson (t : Table) : List Char := Json.object
  [("ingredient_count", Json.array (t.ingredients.toList.map fun n => Text.Digits.ofInt n.toInt)),
   ("smoker_status", Json.array (t.smokers.toList.map fun s => Json.quote s.code)),
   ("cigarette_count", Json.array (t.cigarettes.toList.map fun n => Text.Digits.ofInt n.toNat)),
   ("agent_status", Json.quote t.agent.code),
   ("closing", (if t.closing then "true" else "false").toList)]

variable {α : Type}

/-- Three values, each of which `read` accepts. -/
def trioOfJson? (read : Json.Value → Option α) (v : Json.Value) : Option (Trio α) := do
  Trio.ofList? (← (← v.items?).mapM read)

def ofJson? (v : Json.Value) : Option Table :=
  match v.fields? fieldNames with
  | some [ingredients, smokers, cigarettes, agent, closing] => do
      return {
        ingredients := ← trioOfJson? (fun v => v.integer?.bind Checked.signed) ingredients
        smokers := ← trioOfJson? (fun v => v.choice?.bind SmokerStatus.ofCode?) smokers
        cigarettes := ← trioOfJson? (fun v => v.natural?.bind Checked.unsigned) cigarettes
        agent := ← agent.choice?.bind AgentStatus.ofCode?
        closing := ← closing.boolean? }
  | _ => none

end Table

end CigaretteSmokers
