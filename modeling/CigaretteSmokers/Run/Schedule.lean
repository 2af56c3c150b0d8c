import CigaretteSmokers.Run

/-!
A run on one thread with a clock of whole milliseconds. The tasks that can go on stand in a queue;
the first one goes on until it has to wait. When nobody can go on, the supervisor handles who has
ended, and then the clock jumps to the end of the next sleep.
-/

namespace CigaretteSmokers

inductive Task
  /-- Requests the stop at its hour. -/
  | stopper
  | actor (a : Actor)
  deriving DecidableEq

/-- `sleepers` holds the sleeps in the order in which they began, each with its end. The stop is
requested at `stopAt`, or once the log satisfies `stopOnce`, if there is still somebody to do it. -/
structure Schedule (L : Type) where
  run : Run L
  ready : List Task
  sleepers : List (Nat × Task) := []
  stopAt : Nat := 0
  stopOnce : L → Bool := fun _ => false

namespace Schedule

variable {L : Type}

/-- A stop is requested by somebody who may no longer be there. -/
def requestStop (r : Run L) : Run L := if r.allows .requestStop then r.requestStop else r

/-- All actors at the door, and the stopper before them if there is one. -/
def start (run : Run L) (stopAt : Option Nat) (stopOnce : L → Bool) : Schedule L where
  run := if stopOnce run.factory.log then requestStop run else run
  ready := (stopAt.toList.map fun _ => Task.stopper) ++ Actor.all.map .actor
  stopAt := stopAt.getD 0
  stopOnce

def clock (s : Schedule L) : Nat := s.run.factory.clock

/-- When the sleep that a task is about to begin ends. -/
def sleepEnd? (s : Schedule L) : Task → Option Nat
  | .stopper => some s.stopAt
  | .actor a => (s.run.work? a).map fun work => s.clock + work.ceilMilliseconds

/-- The actors that the last step has set free go to the end of the queue. -/
def rouse (s : Schedule L) : Schedule L :=
  let free := Actor.all.filter fun a =>
    s.run.awaits a && !s.run.blocked a && !s.ready.contains (.actor a)
  { s with ready := s.ready ++ free.map .actor }

def heedStop (s : Schedule L) : Schedule L :=
  if s.stopOnce s.run.factory.log then { s with run := requestStop s.run } else s

/-- The first task of the queue does one step, or leaves the queue if it can do none. -/
def proceed [StateLog L] (t : Task) (rest : List Task) (s : Schedule L) : Schedule L :=
  match t with
  | .stopper => rouse { s with run := requestStop s.run, ready := rest }
  | .actor a =>
      if s.run.enabled a then rouse (heedStop { s with run := s.run.act a false })
      else { s with ready := rest }

/-- The task goes on if it need not sleep, or has slept. -/
def turn [StateLog L] (t : Task) (rest : List Task) (s : Schedule L) : Schedule L :=
  match s.sleepers.find? (·.2 = t) with
  | some (stop, _) =>
      if stop ≤ s.clock then
        proceed t rest { s with sleepers := s.sleepers.filter (·.2 ≠ t) }
      else { s with ready := rest }
  | none =>
      match s.sleepEnd? t with
      | some stop =>
          if stop ≤ s.clock then proceed t rest s
          else { s with ready := rest, sleepers := s.sleepers ++ [(stop, t)] }
      | none => proceed t rest s

def earliest? : List (Nat × Task) → Option Nat
  | [] => none
  | (t, _) :: rest => some (match earliest? rest with
    | some u => min t u
    | none => t)

/-- Sets the clock to `now` and wakes the sleeps that end then. -/
def jump (now : Nat) (s : Schedule L) : Schedule L :=
  { s with
    run := { s.run with factory := { s.run.factory with clock := now } }
    ready := (s.sleepers.filter (·.1 ≤ now)).map (·.2) }

/-- One step, if the run is not over. -/
def next? [StateLog L] (s : Schedule L) : Option (Schedule L) :=
  match s.ready with
  | t :: rest => some (s.turn t rest)
  | [] =>
      if !s.run.ended.isEmpty then some (rouse { s with run := s.run.supervise })
      else if s.run.finished then none
      else (earliest? s.sleepers).map fun now => s.jump now

def steps [StateLog L] : Nat → Schedule L → Schedule L
  | 0, s => s
  | n + 1, s => match s.next? with
    | some s => steps n s
    | none => s

/-- More steps than a run of so many rounds can take. -/
def enough (rounds : Nat) : Nat := 64 * rounds + 256

def finish [StateLog L] (s : Schedule L) : Schedule L := s.steps (enough s.run.agent.agent.rounds)

end Schedule

end CigaretteSmokers
