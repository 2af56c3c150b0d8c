import CigaretteSmokers.Program

/-!
The command line program. A run has a clock of its own, so nobody waits for its delays; the clock
starts at the present moment.
-/

namespace CigaretteSmokers

def rawCode? : IO.Error → Option UInt32
  | .alreadyExists _ code _ | .otherError code _ | .resourceBusy code _ | .resourceVanished code _
  | .unsupportedOperation code _ | .hardwareFault code _ | .unsatisfiedConstraints code _
  | .illegalOperation code _ | .protocolError code _ | .timeExpired code _ | .interrupted _ code _
  | .noFileOrDirectory _ code _ | .invalidArgument _ code _ | .permissionDenied _ code _
  | .resourceExhausted _ code _ | .inappropriateType _ code _ | .noSuchThing _ code _ => some code
  | _ => none

/-- The number of a system error, which may come with a minus sign. -/
def systemCode? (e : IO.Error) : Option UInt32 :=
  (rawCode? e).map fun code => min code (0 - code)

def fileError (e : IO.Error) : FileError :=
  match systemCode? e with
  | some 2 => .notFound
  | some 13 => .other "Permission denied (os error 13)"
  | some 20 => .notDirectory
  | some 21 => .isDirectory
  | some 28 => .noSpace
  | some 36 => .nameTooLong
  | _ => .other (toString e)

def attempt {α : Type} (act : IO α) : IO (Except FileError α) := do
  try return .ok (← act) catch e => return .error (fileError e)

instance : Disk IO where
  read path := do
    match ← attempt (IO.FS.readBinFile path) with
    | .error e => return .error e
    | .ok bytes => match String.fromUTF8? bytes with
      | some text => return .ok text
      | none => return .error .notText
  create path := attempt (do let _ ← IO.FS.Handle.mk path .write)
  append path text := attempt do
    let file ← IO.FS.Handle.mk path .append
    file.putStr text
    file.flush

def randomWord : IO UInt64 := do
  return (← IO.getRandomBytes 8).foldl (fun n byte => n * 256 + byte.toUInt64) 0

/-- The present moment in milliseconds: when the machine was started, and the time since. -/
def presentMoment : IO Nat := do
  let facts ← try IO.FS.lines "/proc/stat" catch _ => pure #[]
  let start := facts.findSome? fun line =>
    match line.splitOn " " with
    | ["btime", seconds] => seconds.toNat?
    | _ => none
  return start.getD 0 * 1000 + (← IO.monoMsNow)

end CigaretteSmokers

open CigaretteSmokers in
def main (args : List String) : IO UInt32 := do
  let env := { key := ← IO.getEnv "SMOKERS_KEY", errorLog := ← IO.getEnv "SMOKERS_ERROR_LOG" }
  let present ← presentMoment
  let circumstances := {
    entropy := ← randomWord
    time := fun clock => .ofMilliseconds (present + clock) }
  let ending ← (Program.start env circumstances args : IO Ending)
  IO.print ending.output
  IO.eprint ending.diagnostics
  return UInt32.ofNat ending.exitCode
