import CigaretteSmokers.Log

namespace CigaretteSmokers

/-- A log in memory. `fault n` is what goes wrong with save number `n`, from 0; a save that meets
a fault records nothing. -/
structure Recorder where
  fault : Nat → Option SaveFault := fun _ => none
  calls : Nat := 0
  entries : Array (Nat × Table) := #[]

namespace Recorder

def tables (r : Recorder) : List Table := r.entries.toList.map (·.2)

def size (r : Recorder) : Nat := r.entries.size

def save (clock : Nat) (t : Table) (r : Recorder) : Except SaveFault Unit × Recorder :=
  match r.fault r.calls with
  | some f => (.error f, { r with calls := r.calls + 1 })
  | none => (.ok (), { r with calls := r.calls + 1, entries := r.entries.push (clock, t) })

instance : StateLog Recorder := ⟨save⟩

end Recorder

end CigaretteSmokers
