import CigaretteSmokers.Delay
import CigaretteSmokers.Factory

/-!
A smoker as a machine of atomic steps: each step is one critical section, one look at a semaphore,
one signal, or the end of one piece of work.
-/

namespace CigaretteSmokers

/-- `smoked` counts the cigarettes of the present run. -/
structure Smoker where
  holds : Ingredient
  generator : Random.Generator
  delay : DelayModel
  smoked : Nat := 0
  deriving DecidableEq

namespace Smoker

/-- Where a smoker stands in its cycle: what it does next. -/
inductive Stage
  /-- Announces that it waits. -/
  | arriving
  /-- Looks whether it has been called. -/
  | awaiting
  /-- Goes to the table. -/
  | collecting
  /-- Announces that it rolls. -/
  | starting
  | rolling (work : Duration)
  /-- Tells the agent that its hands are free of the ingredients. -/
  | telling
  /-- Announces that it smokes. -/
  | lighting
  | smoking (work : Duration)
  /-- Counts the cigarette. -/
  | finishing
  | gone
  deriving DecidableEq

/-- The work under way. -/
def Stage.work? : Stage → Option Duration
  | .rolling work | .smoking work => some work
  | _ => none

variable {ω L : Type} [DecidableEq ω] [StateLog L]

/-- One step of the smoker whose waits go by the name `w`. The time that rolling takes is drawn
before it is announced, the time that smoking takes after. -/
def perform (w : ω) (s : Smoker) (stage : Stage) (f : Factory ω L) :
    Except Failure Stage × Smoker × Factory ω L :=
  match stage with
  | .arriving =>
      let (r, f) := f.critical (.setSmoker s.holds .waiting)
      (r.map fun _ => .awaiting, s, f)
  | .awaiting =>
      let (r, f) := f.awaitIngredients w s.holds
      (r.map fun called => if called then .collecting else .awaiting, s, f)
  | .collecting =>
      match f.critical (.visit s.holds) with
      | (.ok .closed, f) => (.ok .gone, s, f)
      | (.ok .served, f) => (.ok .starting, s, f)
      | (.ok (.lacking i), f) => (.error (.error (.missingIngredient s.holds.index i)), s, f)
      | (.error e, f) => (.error e, s, f)
  | .starting =>
      match s.delay.sample s.generator with
      | (.ok work, g) =>
          let (r, f) := f.critical (.setSmoker s.holds .rolling)
          (r.map fun _ => .rolling work, { s with generator := g }, f)
      | (.error c, g) => (.error (.crash c), { s with generator := g }, f)
  | .rolling _ => (.ok .telling, s, f)
  | .telling => (.ok .lighting, s, f.signalCigarette)
  | .lighting =>
      match f.critical (.setSmoker s.holds .smoking) with
      | (.ok _, f) =>
          match s.delay.sample s.generator with
          | (.ok work, g) => (.ok (.smoking work), { s with generator := g }, f)
          | (.error c, g) => (.error (.crash c), { s with generator := g }, f)
      | (.error e, f) => (.error e, s, f)
  | .smoking _ => (.ok .finishing, s, f)
  | .finishing =>
      match f.critical (.countCigarette s.holds) with
      | (.ok _, f) => (.ok .arriving, { s with smoked := s.smoked + 1 }, f)
      | (.error e, f) => (.error e, s, f)
  | .gone => (.ok .gone, s, f)

end Smoker

end CigaretteSmokers
