import CigaretteSmokers.CommandLine.Reader
import CigaretteSmokers.Log.Settling
import CigaretteSmokers.Run.Report
import CigaretteSmokers.Run.Schedule
import CigaretteSmokers.Settings.Document

/-!
What the program does with its arguments: the settings come from a file or the defaults and are
overridden by options; then they are printed, or a simulation runs with them.
-/

namespace CigaretteSmokers

/-- Why a command fails. -/
inductive CommandError
  | settings (cause : SettingsError)
  | configuration (path : String) (cause : SettingsError)
  | stateLog (path : String) (cause : LogError)
  | run (cause : RunError)
  | violations (count : Nat)
  deriving DecidableEq

namespace CommandError

/-- The messages from the error down to its last cause. -/
def causes : CommandError → List String
  | .settings cause => cause.causes
  | .configuration path cause => ("Failed to load configuration " ++ path) :: cause.causes
  | .stateLog path cause => ("failed to create state log " ++ path) :: cause.causes
  | .run cause => cause.causes
  | .violations count => [s!"{count} invariant violation(s) during the run"]

def actorError? : CommandError → Option ActorError
  | .run cause => cause.actorError?
  | _ => none

def message (e : CommandError) : String := ": ".intercalate e.causes

end CommandError

namespace Settings

/-- A key given as an option takes the place of the one in the settings. -/
def withKey (s : Settings) (text : Option String) : Except SettingsError Settings :=
  match text with
  | none => .ok s
  | some text => match AccessKey.parse? text with
    | some key => .ok { s with key }
    | none => .error (.invalidKey text)

/-- The seed of a run: the one in the settings, or that of a generator from the surroundings. -/
def seedFrom (s : Settings) (entropy : UInt64) : UInt64 :=
  s.seed.getD (Random.Generator.fromEntropy entropy).seed

/-- The settings with the options of a run in the place of theirs. -/
def override (s : Settings) (o : RunOptions) : Except SettingsError Settings := do
  let s ← s.withKey o.key
  let s := { s with
    log := { path := o.log.getD s.log.path, format := o.format.getD s.log.format }
    cigarettes := o.cigarettes.getD s.cigarettes
    seed := o.seed <|> s.seed }
  s.validate
  return s

end Settings

/-- What the surroundings contribute to a run: the word that its seed comes from if none is given,
the moment at which the clock shows so many milliseconds, and when the run is interrupted. -/
structure Circumstances where
  entropy : UInt64 := 0
  time : Nat → Timestamp := fun _ => .epoch
  interrupt : Option Nat := none

/-- What a command prints, and its error if it fails. -/
structure Outcome where
  printed : String := ""
  error : Option CommandError := none

def Outcome.diagnostics (o : Outcome) : String :=
  match o.error with
  | some e => "ERROR smokers: " ++ e.message ++ "\n"
  | none => ""

def Outcome.exitCode (o : Outcome) : Nat := if o.error.isSome then 1 else 0

/-- The output, the diagnostics and the exit code of the program. -/
structure Ending where
  output : String := ""
  diagnostics : String := ""
  exitCode : Nat := 0

namespace Program

variable {m : Type → Type} [Monad m] [Disk m]

/-- The settings in a file, or the defaults. -/
def configuration : Option String → ExceptT CommandError m Settings
  | none => return {}
  | some path => do
      let content ← (Disk.read path : m _)
      match Settings.load path content with
      | .ok s => return s
      | .error e => throw (.configuration path e)

def orSettingsError {α : Type} (r : Except SettingsError α) : ExceptT CommandError m α :=
  ExceptT.mk (pure (r.mapError .settings))

/-- The settings that a run starts with. -/
def resolve (o : RunOptions) : ExceptT CommandError m Settings := do
  orSettingsError ((← configuration o.config).override o)

/-- The document that a validation prints. -/
def validate (o : ValidateOptions) : ExceptT CommandError m String := do
  let s ← orSettingsError ((← configuration o.config).withKey o.key)
  orSettingsError s.validate
  orSettingsError s.toDocument

/-- A run before its first step, with a log for its snapshots, if the settings make sense. -/
def withLog {L : Type} (s : Settings) (seed : UInt64) (log : L) :
    Except SettingsError (Run (Observer L)) := do
  s.validate
  return Run.start seed s.cigarettes.toNat s.delay { inner := log }

/-- The run of a simulation when its log file gives these refusals. -/
def trial (s : Settings) (c : Circumstances) (refusal : Nat → Option FileError) :
    Except SettingsError (Run (Observer FileLog)) := do
  let log : FileLog := { format := s.log.format, time := c.time, refusal }
  let start ← withLog s (s.seedFrom c.entropy) log
  return (Schedule.start start c.interrupt fun _ => false).finish.run

def lines : Except SettingsError (Run (Observer FileLog)) → List String
  | .ok r => r.factory.log.inner.lines.toList
  | .error _ => []

/-- A run with its log in a file, which is made once the settings have been found to make sense.
Each actor ends at the first refusal that it meets. -/
def simulate (s : Settings) (c : Circumstances) : ExceptT CommandError m Report := do
  orSettingsError s.validate
  ExceptT.adapt (.stateLog s.log.path) (FileLog.create s.log.path s.key s.log.format)
  let settled ← (FileLog.settle s.log.path lines (trial s c) (Actor.all.length + 1) [] : m _)
  let run ← orSettingsError settled
  match run.outcome s.key (s.seedFrom c.entropy) with
  | .ok report => return report
  | .error e => throw (.run e)

def execute (c : Circumstances) : Command → m Outcome
  | .run o => do
      match ← (do simulate (← resolve o) c : ExceptT CommandError m Report) with
      | .error e => return { error := some e }
      | .ok report =>
          let failed := o.failOnViolation && !report.isClean
          return {
            printed := report.render ++ "\n"
            error := if failed then some (.violations report.violations.length) else none }
  | .validate o => do
      match ← (validate o : ExceptT CommandError m String) with
      | .error e => return { error := some e }
      | .ok document => return { printed := document }

/-- The whole program. Diagnostics go to the error log if there is one, which is made first. -/
def start (env : Environment) (c : Circumstances) (args : List String) : m Ending := do
  match CommandLine.parse env args with
  | .error refusal =>
      return if refusal.exitCode = 0 then { output := refusal.message }
        else { diagnostics := refusal.message, exitCode := refusal.exitCode }
  | .ok line =>
      match line.errorLog with
      | none => do
          let o ← execute c line.command
          return { output := o.printed, diagnostics := o.diagnostics, exitCode := o.exitCode }
      | some path => do
          match ← Disk.create path with
          | .error e =>
              let notice := s!"Failed to open error log {path}: {e.message}\n"
              return { diagnostics := notice, exitCode := 1 }
          | .ok () => do
              let o ← execute c line.command
              let _ ← Disk.append path o.diagnostics
              return { output := o.printed, exitCode := o.exitCode }

end Program

end CigaretteSmokers
