import CigaretteSmokers.Delay
import CigaretteSmokers.Number.FloatText
import CigaretteSmokers.Settings.AccessKey

namespace CigaretteSmokers

inductive LogFormat
  | table
  | json
  deriving DecidableEq, Inhabited

namespace LogFormat

def all : List LogFormat := [.table, .json]

def name : LogFormat → String
  | .table => "table"
  | .json => "json"

end LogFormat

structure LogSettings where
  path : String := "smokers.log"
  format : LogFormat := .table
  deriving DecidableEq, Inhabited

/-- What a simulation is started with. -/
structure Settings where
  key : AccessKey := .default
  cigarettes : UInt64 := 10
  seed : Option UInt64 := none
  delay : DelayModel := {}
  log : LogSettings := {}
  deriving DecidableEq, Inhabited

/-- Why settings make no sense. -/
inductive SettingsFlaw
  | noCigarettes
  | badAmount (name : String) (value : Binary64)
  deriving DecidableEq

def SettingsFlaw.message : SettingsFlaw → String
  | .noCigarettes => "cigarettes must be greater than zero"
  | .badAmount name value =>
      s!"{name} must be a finite, non-negative number (got {value.render .message})"

/-- What is wrong with a document: its form or a value in it, or the text that stands for a key. -/
inductive DocumentFlaw
  | malformed
  | badKey (text : String)
  deriving DecidableEq

inductive SettingsError
  | invalidKey (text : String)
  | unreadable (path : String) (cause : FileError)
  | unparsable (path : String) (flaw : DocumentFlaw)
  | unwritable
  | invalid (flaw : SettingsFlaw)
  deriving DecidableEq

namespace SettingsError

def message : SettingsError → String
  | .invalidKey text => "Error on the access key communication: `" ++ text ++ "` is not a valid key"
  | .unreadable path cause => s!"Failed to read configuration file {path}: {cause.message}"
  | .unparsable path _ => s!"Failed to parse configuration file {path}:"
  | .unwritable => "Failed to render configuration:"
  | .invalid flaw => "Invalid configuration: " ++ flaw.message

def causes : SettingsError → List String
  | .unreadable path cause => [message (.unreadable path cause), cause.message]
  | e => [e.message]

end SettingsError

namespace Settings

def isAmount (x : Binary64) : Bool := x.isFinite && !x.isNegative

def validate (s : Settings) : Except SettingsError Unit :=
  if s.cigarettes = 0 then .error (.invalid .noCigarettes)
  else if !isAmount s.delay.base then .error (.invalid (.badAmount "delay.base" s.delay.base))
  else if !isAmount s.delay.stddev then .error (.invalid (.badAmount "delay.stddev" s.delay.stddev))
  else .ok ()

end Settings

end CigaretteSmokers
