import CigaretteSmokers.Factory
import CigaretteSmokers.Random.Generator

/-!
The agent as a machine of atomic steps. It supplies one smoker after another, waits each time for
the cigarette to be rolled, and closes the factory after its last round or on a stop request.
-/

namespace CigaretteSmokers

/-- What the agent hears of stop requests. Whoever may request a stop may also go away, and then
requests none any more. -/
structure Stop where
  requested : Bool := false
  senderGone : Bool := false
  deriving DecidableEq, Inhabited

namespace Stop

/-- What listening for the request is told. -/
inductive Reply
  | requested
  | pending
  /-- There is nobody left to request a stop. -/
  | senderGone
  deriving DecidableEq

/-- A request counts even if nobody is left to make another. -/
def look (s : Stop) : Reply :=
  if s.requested then .requested else if s.senderGone then .senderGone else .pending

/-- Whether a round that waits is given up. One that hears that nobody is left listens no more, and
goes on waiting for its cigarette. -/
def interrupts (s : Stop) : Bool :=
  match s.look with
  | .requested => true
  | .pending | .senderGone => false

/-- Only a request is a stop request. -/
@[simp] theorem interrupts_eq (s : Stop) : s.interrupts = s.requested := by
  obtain ⟨_ | _, _ | _⟩ := s <;> rfl

end Stop

namespace Agent

structure Summary where
  rounds : Nat := 0
  supplied : Trio Nat := .replicate 0
  interrupted : Bool := false
  deriving DecidableEq, Inhabited

/-- What the agent does next. -/
inductive Stage
  /-- Begins a round, or sees that there is none to begin. -/
  | choosing
  | supplying (k : Ingredient)
  | calling (k : Ingredient)
  /-- Announces that it waits for the cigarette. -/
  | announcing
  | awaiting
  | closing
  /-- Wakes the smokers for the closing, from `k` on. -/
  | releasing (k : Ingredient)
  | gone
  deriving DecidableEq

end Agent

structure Agent where
  generator : Random.Generator
  rounds : Nat
  summary : Agent.Summary := {}
  deriving DecidableEq

namespace Agent

def next? : Ingredient → Option Ingredient
  | .tobacco => some .paper
  | .paper => some .matchstick
  | .matchstick => none

/-- The agent gives up its round for a stop request. -/
def interrupt (a : Agent) : Agent := { a with summary := { a.summary with interrupted := true } }

def supplied (k : Ingredient) (a : Agent) : Agent :=
  { a with summary :=
    { a.summary with supplied := a.summary.supplied.set k (a.summary.supplied.get k + 1) } }

def finishedRound (a : Agent) : Agent :=
  { a with summary := { a.summary with rounds := a.summary.rounds + 1 } }

variable {ω L : Type} [DecidableEq ω] [StateLog L]

/-- One step of the agent whose wait goes by the name `w`. A round that waits listens for a stop
request and looks for the cigarette in either order; `stopFirst` says which. -/
def perform (w : ω) (stop : Stop) (stopFirst : Bool) (a : Agent) (stage : Stage) (f : Factory ω L) :
    Except Failure Stage × Agent × Factory ω L :=
  match stage with
  | .choosing =>
      if a.summary.rounds = a.rounds then (.ok .closing, a, f)
      else if stop.requested then (.ok .closing, a.interrupt, f)
      else match a.generator.nextIngredient with
        | (.ok k, g) => (.ok (.supplying k), { a with generator := g }, f)
        | (.error e, g) => (.error (.error e), { a with generator := g }, f)
  | .supplying k =>
      match f.critical (.supply k) with
      | (.ok _, f) => (.ok (.calling k), a.supplied k, f)
      | (.error e, f) => (.error e, a, f)
  | .calling k => (.ok .announcing, a, f.signalIngredients k)
  | .announcing =>
      if stop.interrupts && stopFirst then (.ok .closing, a.interrupt, f)
      else
        let (r, f) := f.critical (.setAgent .waiting)
        (r.map fun _ => .awaiting, a, f)
  | .awaiting =>
      if stop.interrupts && stopFirst then (.ok .closing, a.interrupt, f.cancelCigarette w)
      else match f.awaitCigarette w with
        | (.ok true, f) => (.ok .choosing, a.finishedRound, f)
        | (.ok false, f) =>
            if stop.interrupts then (.ok .closing, a.interrupt, f.cancelCigarette w)
            else (.ok .awaiting, a, f)
        | (.error e, f) => (.error e, a, f)
  | .closing =>
      let (r, f) := f.critical .close
      (r.map fun _ => .releasing .tobacco, a, f)
  | .releasing k =>
      (.ok (match next? k with
        | some k => .releasing k
        | none => .gone), a, f.signalIngredients k)
  | .gone => (.ok .gone, a, f)

end Agent

end CigaretteSmokers
