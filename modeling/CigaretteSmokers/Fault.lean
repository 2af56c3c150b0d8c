import CigaretteSmokers.Ingredient

namespace CigaretteSmokers

/-- What stops an actor where it stands. A lock that it holds then stays poisoned. -/
inductive Crash
  | additionOverflow
  | subtractionOverflow
  | emptyRange
  | delayTooLong
  | other (message : String)
  deriving DecidableEq

def Crash.message : Crash → String
  | .additionOverflow => "attempt to add with overflow"
  | .subtractionOverflow => "attempt to subtract with overflow"
  | .emptyRange => "cannot sample empty range"
  | .delayTooLong => "cannot convert float seconds to Duration: value is either too big or NaN"
  | .other message => message

/-- Why reading or writing a file fails. -/
inductive FileError
  | notFound
  | notDirectory
  | isDirectory
  | nameTooLong
  | noSpace
  | notText
  | other (message : String)
  deriving DecidableEq

def FileError.message : FileError → String
  | .notFound => "No such file or directory (os error 2)"
  | .notDirectory => "Not a directory (os error 20)"
  | .isDirectory => "Is a directory (os error 21)"
  | .nameTooLong => "File name too long (os error 36)"
  | .noSpace => "No space left on device (os error 28)"
  | .notText => "stream did not contain valid UTF-8"
  | .other message => message

inductive LogError
  | file (cause : FileError)
  | poisoned
  deriving DecidableEq

namespace LogError

def message : LogError → String
  | .file cause => "I/O error: " ++ cause.message
  | .poisoned => "logger lock poisoned"

/-- The messages from this error down to its cause. -/
def causes : LogError → List String
  | .file cause => [message (.file cause), cause.message]
  | .poisoned => [message .poisoned]

end LogError

inductive ActorError
  | invalidSmoker (id bound : Nat)
  | lockPoisoned
  | semaphoreClosed (name : String)
  | missingIngredient (smoker : Nat) (missing : Ingredient)
  | stateLog (cause : LogError)
  deriving DecidableEq

namespace ActorError

def message : ActorError → String
  | .invalidSmoker id bound =>
      s!"Smoker process identification is wrong: {id} (expected < {bound})"
  | .lockPoisoned => "error on the mutex guarding the shared state: poisoned while held"
  | .semaphoreClosed name =>
      "error on the down operation for semaphore `" ++ name ++ "`: semaphore closed"
  | .missingIngredient smoker missing =>
      s!"smoker {smoker} was woken without {missing.name} on the table"
  | .stateLog cause => "State log error: " ++ cause.message

/-- Whether the fault lies with the lock or with a semaphore. -/
def isCommunication : ActorError → Bool
  | .lockPoisoned | .semaphoreClosed _ => true
  | .invalidSmoker _ _ | .missingIngredient _ _ | .stateLog _ => false

def causes : ActorError → List String
  | .stateLog cause => message (.stateLog cause) :: cause.causes
  | e => [e.message]

end ActorError

/-- The smoker that goes by the number `id`. -/
def Ingredient.ofNumber (id : Nat) : Except ActorError Ingredient :=
  match ofIndex? id with
  | some k => .ok k
  | none => .error (.invalidSmoker id all.length)

/-- How an actor ends before its time. -/
inductive Failure
  | error (e : ActorError)
  | crash (c : Crash)
  deriving DecidableEq

end CigaretteSmokers
