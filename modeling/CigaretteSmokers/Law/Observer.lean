import CigaretteSmokers.Law
import CigaretteSmokers.Log
import CigaretteSmokers.Text.Record

namespace CigaretteSmokers

structure Violation where
  law : Law
  snapshot : UInt64
  message : String
  deriving DecidableEq

def Violation.render (v : Violation) : String :=
  s!"{v.law.name} violated at snapshot {v.snapshot.toNat}: {v.message}"

/-- A test of a step from one snapshot to the next, made in the name of a law. -/
structure Checker where
  law : Law
  check : Option Table → Table → Except Crash (Option String)

def Law.checker (law : Law) : Checker where
  law := law
  check past now := (law.check past now).map fun breach => breach.map Breach.message

/-- Stands in front of a log, tests every snapshot and passes it on. -/
structure Observer (L : Type) where
  checkers : List Checker := Law.all.map Law.checker
  previous : Option Table := none
  seen : UInt64 := 0
  found : List Violation := []
  poisoned : Bool := false
  inner : L

namespace Observer

variable {L : Type} [StateLog L]

omit [StateLog L] in
/-- What the checkers find, in their order. -/
def inspect (past : Option Table) (now : Table) (snapshot : UInt64) :
    List Checker → Except Crash (List Violation)
  | [] => .ok []
  | c :: rest =>
      match c.check past now with
      | .error crash => .error crash
      | .ok finding =>
          match inspect past now snapshot rest with
          | .error crash => .error crash
          | .ok others => .ok ((finding.toList.map fun m => ⟨c.law, snapshot, m⟩) ++ others)

/-- The snapshot counts as seen whatever the log behind says of it. A checker that crashes, or a
count with no room for one more, poisons the observer. -/
def save (clock : Nat) (t : Table) (o : Observer L) : Except SaveFault Unit × Observer L :=
  if o.poisoned then (.error (.refused .poisoned), o)
  else match inspect o.previous t o.seen o.checkers with
    | .error c => (.error (.crashed c), { o with poisoned := true })
    | .ok found =>
        let o := { o with previous := some t, found := o.found ++ found }
        match Checked.unsigned (o.seen.toNat + 1) with
        | none => (.error (.crashed .additionOverflow), { o with poisoned := true })
        | some seen =>
            let (result, inner) := StateLog.save clock t o.inner
            (result, { o with seen, inner })

instance : StateLog (Observer L) := ⟨save⟩

omit [StateLog L] in
def violations (o : Observer L) : List Violation := if o.poisoned then [] else o.found

omit [StateLog L] in
def snapshotCount (o : Observer L) : UInt64 := if o.poisoned then 0 else o.seen

omit [StateLog L] in
/-- The observer as a record, its checkers by name. -/
def render (o : Observer L) : String :=
  Text.record "InvariantObserver"
    [("checkers", "[" ++ ", ".intercalate (o.checkers.map (·.law.name)) ++ "]")]

end Observer

end CigaretteSmokers
