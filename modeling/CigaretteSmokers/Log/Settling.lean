import CigaretteSmokers.Disk
import CigaretteSmokers.Log.FileLog

/-!
What a log file takes is known only once it is written, and what it refuses changes what is logged
afterwards. So a trial is made with the answers so far, its new lines are appended, and after a
refusal the trial is made again.
-/

namespace CigaretteSmokers.FileLog

variable {m : Type → Type} [Monad m] [Disk m] {α : Type}

/-- Makes a log file that holds its heading. -/
def create (path : String) (key : AccessKey) (format : LogFormat) : ExceptT LogError m Unit := do
  ExceptT.adapt .file (Disk.create path : m _)
  if format = .table then ExceptT.adapt .file (Disk.append path (header key format) : m _)

/-- Appends lines up to the first that is refused. -/
def appendLines (path : String) : List String → m (List (Option FileError))
  | [] => return []
  | line :: rest => do
      match ← Disk.append path line with
      | .ok () => return none :: (← appendLines path rest)
      | .error e => return [some e]

/-- The trial that agrees with the answers of the disk. `answers` are those to the first lines. -/
def settle (path : String) (lines : α → List String) (trial : (Nat → Option FileError) → α) :
    Nat → List (Option FileError) → m α
  | 0, answers => return trial fun n => (answers[n]?).join
  | attempts + 1, answers => do
      let result := trial fun n => (answers[n]?).join
      let more ← appendLines path ((lines result).drop answers.length)
      if more.all Option.isNone then return result
      else settle path lines trial attempts (answers ++ more)

end CigaretteSmokers.FileLog
