import CigaretteSmokers.Log
import CigaretteSmokers.Log.Columns
import CigaretteSmokers.Log.Entry
import CigaretteSmokers.Settings

namespace CigaretteSmokers

/-- A log that writes a line of a file for each save. `lines` holds the line of every save, and
`refusal n` is why the file did not take the line of save number `n`, from 0. The log breaks when
the number of the next save has no room. -/
structure FileLog where
  format : LogFormat
  /-- The moment at which the clock shows so many milliseconds. -/
  time : Nat → Timestamp := fun _ => .epoch
  refusal : Nat → Option FileError := fun _ => none
  lines : Array String := #[]
  poisoned : Bool := false

namespace FileLog

/-- What a log file begins with. -/
def header (key : AccessKey) : LogFormat → String
  | .table => String.ofList (Columns.header key)
  | .json => ""

def line (format : LogFormat) (number : Nat) (time : Timestamp) (t : Table) : String :=
  String.ofList ((match format with
    | .table => Columns.row t
    | .json => Entry.toJson ⟨UInt64.ofNat number, time, t⟩) ++ ['\n'])

def save (clock : Nat) (t : Table) (log : FileLog) : Except SaveFault Unit × FileLog :=
  let number := log.lines.size
  if log.poisoned then (.error (.refused .poisoned), log)
  else match Checked.unsigned (number + 1) with
    | none => (.error (.crashed .additionOverflow), { log with poisoned := true })
    | some _ =>
        let result := match log.refusal number with
          | some e => .error (.refused (.file e))
          | none => .ok ()
        (result, { log with lines := log.lines.push (line log.format number (log.time clock) t) })

instance : StateLog FileLog := ⟨save⟩

end FileLog

end CigaretteSmokers
