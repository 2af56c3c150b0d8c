import CigaretteSmokers.Log
import CigaretteSmokers.Semaphore

/-!
What the actors share: the table behind a lock, a semaphore for each smoker, one for the agent,
and the log. The table changes only inside a critical section, which ends by recording it.
-/

namespace CigaretteSmokers

structure Factory (ω L : Type) where
  table : Table := .initial
  poisoned : Bool := false
  ready : Trio (Semaphore ω) := .replicate {}
  cigarette : Semaphore ω := {}
  clock : Nat := 0
  log : L

namespace Factory

variable {ω L α : Type}

/-- Runs `act` on the table under the lock and records the outcome. What `act` has done stays
done when the log refuses it; a crash poisons the lock. -/
def critical [StateLog L] (act : Table.Action α) (f : Factory ω L) :
    Except Failure α × Factory ω L :=
  if f.poisoned then (.error (.error .lockPoisoned), f)
  else match act f.table with
    | .error c table => (.error (.crash c), { f with table, poisoned := true })
    | .ok a table =>
        match StateLog.save f.clock table f.log with
        | (.ok (), log) => (.ok a, { f with table, log })
        | (.error (.refused e), log) => (.error (.error (.stateLog e)), { f with table, log })
        | (.error (.crashed c), log) => (.error (.crash c), { f with table, log, poisoned := true })

def snapshot (f : Factory ω L) : Except ActorError Table :=
  if f.poisoned then .error .lockPoisoned else .ok f.table

def readyName (k : Ingredient) : String := s!"ingredients_ready[{k.index}]"

def cigaretteName : String := "cigarette_ready"

section

variable [DecidableEq ω]

/-- The wait `w` of smoker `k` looks whether it may go on. -/
def awaitIngredients (w : ω) (k : Ingredient) (f : Factory ω L) :
    Except Failure Bool × Factory ω L :=
  let (reply, s) := (f.ready.get k).poll w
  let f := { f with ready := f.ready.set k s }
  match reply with
  | .passed => (.ok true, f)
  | .pending => (.ok false, f)
  | .refused => (.error (.error (.semaphoreClosed (readyName k))), f)

def awaitCigarette (w : ω) (f : Factory ω L) : Except Failure Bool × Factory ω L :=
  let (reply, s) := f.cigarette.poll w
  let f := { f with cigarette := s }
  match reply with
  | .passed => (.ok true, f)
  | .pending => (.ok false, f)
  | .refused => (.error (.error (.semaphoreClosed cigaretteName)), f)

def cancelIngredients (w : ω) (k : Ingredient) (f : Factory ω L) : Factory ω L :=
  { f with ready := f.ready.set k ((f.ready.get k).cancel w) }

def cancelCigarette (w : ω) (f : Factory ω L) : Factory ω L :=
  { f with cigarette := f.cigarette.cancel w }

end

def signalIngredients (k : Ingredient) (f : Factory ω L) : Factory ω L :=
  { f with ready := f.ready.set k (f.ready.get k).signal }

def signalCigarette (f : Factory ω L) : Factory ω L :=
  { f with cigarette := f.cigarette.signal }

/-- Announces the closing and wakes every smoker once. -/
def announceClosing [StateLog L] (f : Factory ω L) : Except Failure Unit × Factory ω L :=
  match f.critical Table.Action.close with
  | (.ok (), f) => (.ok (), Ingredient.all.foldl (fun f k => f.signalIngredients k) f)
  | (.error e, f) => (.error e, f)

def destroy (f : Factory ω L) : Factory ω L :=
  { f with ready := f.ready.map .close, cigarette := f.cigarette.close }

def destroyed (f : Factory ω L) : Bool := f.cigarette.closed

end Factory

end CigaretteSmokers
