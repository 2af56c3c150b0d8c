import CigaretteSmokers.Agent
import CigaretteSmokers.Smoker

/-!
The parts of an actor's work that can be asked for one at a time. A call goes on each time it is
polled, until it has to wait.
-/

namespace CigaretteSmokers

/-- What polling a call leads to: its answer, or the stage at which it is held up. A sleep that
has begun ends at `wakeAt`. -/
inductive Progress (σ ρ : Type)
  | ended (answer : Except Failure ρ)
  | held (stage : σ) (wakeAt : Option Nat)

namespace Smoker

inductive Call
  | wait
  | roll
  | smoke
  | run
  deriving DecidableEq

inductive Answer
  | done
  | waited (served : Bool)
  | left (smoked : Nat)
  deriving DecidableEq

/-- Where a call begins. A run counts its cigarettes from zero. -/
def Call.begin (c : Call) (s : Smoker) : Stage × Smoker :=
  match c with
  | .wait => (.arriving, s)
  | .roll => (.starting, s)
  | .smoke => (.lighting, s)
  | .run => (.arriving, { s with smoked := 0 })

/-- The answer of a call whose last step went from one stage to the next. -/
def Call.answer? (c : Call) (s : Smoker) : Stage → Stage → Option Answer
  | .collecting, next => match c with
    | .wait => some (.waited (next ≠ .gone))
    | .run => if next = .gone then some (.left s.smoked) else none
    | .roll | .smoke => none
  | .telling, _ => if c = .roll then some .done else none
  | .finishing, _ => if c = .smoke then some .done else none
  | _, _ => none

variable {ω L : Type} [DecidableEq ω] [StateLog L]

def advance (w : ω) (c : Call) :
    Nat → Smoker → Stage → Option Nat → Factory ω L → Progress Stage Answer × Smoker × Factory ω L
  | 0, s, stage, wakeAt, f => (.held stage wakeAt, s, f)
  | n + 1, s, stage, wakeAt, f =>
      let wakeAt := wakeAt <|> stage.work?.map fun work => f.clock + work.ceilMilliseconds
      if wakeAt.any (f.clock < ·) then (.held stage wakeAt, s, f)
      else match s.perform w stage f with
        | (.error e, s, f) => (.ended (.error e), s, f)
        | (.ok next, s, f) =>
            match c.answer? s stage next with
            | some a => (.ended (.ok a), s, f)
            | none =>
                if stage = .awaiting ∧ next = .awaiting then (.held next none, s, f)
                else advance w c n s next none f

/-- Polls a call of a smoker. Each cycle uses up one permit, which bounds the number of steps. -/
def poll (w : ω) (c : Call) (s : Smoker) (stage : Stage) (wakeAt : Option Nat) (f : Factory ω L) :
    Progress Stage Answer × Smoker × Factory ω L :=
  let permits := (f.ready.get s.holds).banked + (f.ready.get s.holds).granted.length
  advance w c (10 * (permits + 2)) s stage wakeAt f

/-- A call that is dropped gives up its place in the queue. -/
def drop (w : ω) (s : Smoker) (stage : Stage) (f : Factory ω L) : Factory ω L :=
  if stage = .awaiting then f.cancelIngredients w s.holds else f

end Smoker

namespace Agent

inductive Call
  | prepare
  | supply (k : Ingredient)
  | wait
  | close
  | run
  deriving DecidableEq

inductive Answer
  | done
  | chose (k : Ingredient)
  | left (summary : Summary)
  deriving DecidableEq

def Call.begin (c : Call) (a : Agent) : Except Failure Stage × Agent :=
  match c with
  | .prepare =>
      let (target, g) := a.generator.nextIngredient
      (match target with
        | .ok k => .ok (.supplying k)
        | .error e => .error (.error e), { a with generator := g })
  | .supply k => (.ok (.supplying k), a)
  | .wait => (.ok .announcing, a)
  | .close => (.ok .closing, a)
  | .run => (.ok .choosing, { a with summary := {} })

def Call.answer? (c : Call) (a : Agent) : Stage → Stage → Option Answer
  | .calling k, _ => match c with
    | .prepare => some (.chose k)
    | .supply _ => some .done
    | .wait | .close | .run => none
  | .awaiting, next => if c = .wait ∧ next ≠ .awaiting then some .done else none
  | .releasing _, next =>
      if next = .gone then some (if c = .run then .left a.summary else .done) else none
  | _, _ => none

variable {ω L : Type} [DecidableEq ω] [StateLog L]

/-- Only a run of the agent hears of stop requests. -/
def Call.hears (c : Call) (stop : Stop) : Stop := if c = .run then stop else {}

def advance (w : ω) (stop : Stop) (c : Call) :
    Nat → Agent → Stage → Factory ω L → Progress Stage Answer × Agent × Factory ω L
  | 0, a, stage, f => (.held stage none, a, f)
  | n + 1, a, stage, f =>
      match a.perform w (c.hears stop) false stage f with
      | (.error e, a, f) => (.ended (.error e), a, f)
      | (.ok next, a, f) =>
          match c.answer? a stage next with
          | some r => (.ended (.ok r), a, f)
          | none =>
              if stage = .awaiting ∧ next = .awaiting then (.held next none, a, f)
              else advance w stop c n a next f

/-- Polls a call of the agent. Each round uses up one permit, which bounds the number of steps. -/
def poll (w : ω) (stop : Stop) (c : Call) (a : Agent) (stage : Stage) (f : Factory ω L) :
    Progress Stage Answer × Agent × Factory ω L :=
  let permits := f.cigarette.banked + f.cigarette.granted.length
  advance w stop c (10 * (permits + 2)) a stage f

def drop (w : ω) (stage : Stage) (f : Factory ω L) : Factory ω L :=
  if stage = .awaiting then f.cancelCigarette w else f

end Agent

end CigaretteSmokers
