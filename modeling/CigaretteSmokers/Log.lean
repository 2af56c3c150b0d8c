import CigaretteSmokers.Table

namespace CigaretteSmokers

/-- Why a table was not recorded. -/
inductive SaveFault
  | refused (cause : LogError)
  | crashed (c : Crash)
  deriving DecidableEq

/-- What records the table after each critical section. `clock` is the time of the save, in
milliseconds since the doors opened. -/
class StateLog (L : Type) where
  save (clock : Nat) (t : Table) (log : L) : Except SaveFault Unit × L

end CigaretteSmokers
