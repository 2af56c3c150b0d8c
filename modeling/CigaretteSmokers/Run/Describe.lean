import CigaretteSmokers.Run
import CigaretteSmokers.Settings
import CigaretteSmokers.Text.Record

/-!
The actors and the settings of a run as records, for diagnostics.
-/

namespace CigaretteSmokers

open Text (record wrapped optional)

def TimeUnit.title : TimeUnit → String
  | .microseconds => "Microseconds"
  | .milliseconds => "Milliseconds"

def LogFormat.title : LogFormat → String
  | .table => "Table"
  | .json => "Json"

def DelayModel.describe (d : DelayModel) : String :=
  record "DelayModel" [("base", d.base.render .record), ("stddev", d.stddev.render .record),
    ("unit", d.unit.title)]

def Smoker.describe (s : Smoker) : String :=
  record "SmokerActor" [("id", wrapped "SmokerId" (toString s.holds.index)),
    ("seed", toString s.generator.seed.toNat), ("delay", s.delay.describe)]

def Agent.describe (a : Agent) : String :=
  record "AgentActor" [("rounds", toString a.rounds), ("seed", toString a.generator.seed.toNat)]

def LogSettings.describe (l : LogSettings) : String :=
  record "LogConfig" [("path", Text.Quoted.quote l.path), ("format", l.format.title)]

def Settings.describe (s : Settings) : String :=
  record "SimulationConfig" [("key", wrapped "AccessKey" (toString s.key.value.toNat)),
    ("cigarettes", toString s.cigarettes.toNat),
    ("seed", optional (s.seed.map fun n => toString n.toNat)),
    ("delay", s.delay.describe), ("log", s.log.describe)]

/-- A simulation that has not run yet is known by its settings. -/
def Settings.describeSimulation (s : Settings) : String :=
  record "Simulation" [("config", s.describe)]

end CigaretteSmokers
