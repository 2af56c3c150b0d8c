import CigaretteSmokers.Law.Observer
import CigaretteSmokers.Run
import CigaretteSmokers.Settings
import CigaretteSmokers.Text.Quoted

namespace CigaretteSmokers

/-- What a run that met no failure tells. -/
structure Report where
  key : AccessKey
  seed : UInt64
  final : Table
  smokers : List (Ingredient × Nat)
  agent : Agent.Summary
  snapshots : UInt64
  violations : List Violation

namespace Report

def isClean (r : Report) : Bool := r.violations.isEmpty

def smokerLine (k : Ingredient) (cigarettes : Nat) : String :=
  s!"  smoker {k.index} ({k.name}): {cigarettes} cigarettes\n"

def render (r : Report) : String :=
  let i := r.final.ingredients
  s!"Simulation {r.key.render} (seed {r.seed.toNat})\n" ++
  s!"  agent: {r.agent.rounds} rounds" ++ (if r.agent.interrupted then " (interrupted)" else "") ++
  "\n" ++
  String.join (r.smokers.map fun (k, n) => smokerLine k n) ++
  s!"  ingredients left: [{i.tobacco.toInt}, {i.paper.toInt}, {i.matchstick.toInt}]\n" ++
  s!"  snapshots: {r.snapshots.toNat}\n" ++
  s!"  invariant violations: {r.violations.length}" ++
  String.join (r.violations.map fun v => "\n    " ++ v.render)

end Report

/-- Why there is no report: the first failure that the supervisor met, a table that cannot be read
any more, or an agent that has reported nothing. -/
inductive RunError
  | terminated (actor : Actor) (cause : ActorError)
  | aborted (crash : Crash)
  | unreadable (cause : ActorError)
  | unreported
  deriving DecidableEq

namespace RunError

def ofFailure : Actor → Failure → RunError
  | a, .error e => .terminated a e
  | _, .crash c => .aborted c

def actorName : Actor → String
  | .smoker k => s!"smoker {k.index}"
  | .agent => "agent"

def causes : RunError → List String
  | .terminated a e => (actorName a ++ " terminated") :: e.causes
  | .aborted c =>
      ["actor task aborted: task # panicked with message " ++ Text.Quoted.quote c.message]
  | .unreadable e => e.causes
  | .unreported => ["agent did not report"]

/-- The actor's own error, if the cause is one. -/
def actorError? : RunError → Option ActorError
  | .terminated _ e | .unreadable e => some e
  | .aborted _ | .unreported => none

end RunError

namespace Run

variable {L : Type}

/-- What the smokers have reported, by their numbers. -/
def sortedReports (r : Run L) : List (Ingredient × Nat) :=
  r.reports.mergeSort fun a b => a.1.index ≤ b.1.index

def outcome (key : AccessKey) (seed : UInt64) (r : Run (Observer L)) : Except RunError Report :=
  match r.failure with
  | some (a, e) => .error (.ofFailure a e)
  | none =>
      match r.factory.snapshot with
      | .error e => .error (.unreadable e)
      | .ok final =>
          match r.agentReport with
          | none => .error .unreported
          | some agent => .ok
              { key, seed, final
                smokers := r.sortedReports
                agent
                snapshots := r.factory.log.snapshotCount
                violations := r.factory.log.violations }

end Run

end CigaretteSmokers
