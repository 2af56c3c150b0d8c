import CigaretteSmokers.Agent
import CigaretteSmokers.Smoker

/-!
A supervised run: three smokers and the agent over one factory. Each actor moves by atomic steps,
in any interleaving. The supervisor handles the actors that have ended in the order in which they
ended; at the first failure it destroys the semaphores, which ends the others.
-/

namespace CigaretteSmokers

inductive Actor
  | smoker (k : Ingredient)
  | agent
  deriving DecidableEq

def Actor.all : List Actor := Ingredient.all.map .smoker ++ [.agent]

namespace Run

/-- A smoker at work: what it does next, or how it failed. -/
structure SmokerTask where
  smoker : Smoker
  course : Except Failure Smoker.Stage := .ok .arriving

structure AgentTask where
  agent : Agent
  course : Except Failure Agent.Stage := .ok .choosing

def SmokerTask.isOver (t : SmokerTask) : Bool :=
  match t.course with
  | .error _ | .ok .gone => true
  | .ok _ => false

def AgentTask.isOver (t : AgentTask) : Bool :=
  match t.course with
  | .error _ | .ok .gone => true
  | .ok _ => false

end Run

/-- `ended` holds the actors that have ended and that the supervisor has not handled, the first
to end first. `failure` is the first failure that it met; `reports` holds what the smokers have
reported to it, in the order in which it handled them, and `agentReport` what the agent has. -/
structure Run (L : Type) where
  factory : Factory Actor L
  smokers : Trio Run.SmokerTask
  agent : Run.AgentTask
  stop : Stop := {}
  ended : List Actor := []
  reports : List (Ingredient × Nat) := []
  agentReport : Option Agent.Summary := none
  failure : Option (Actor × Failure) := none

namespace Run

variable {L : Type}

/-- A run at its start. Every actor draws from a generator of its own. -/
def start (seed : UInt64) (rounds : Nat) (delay : DelayModel) (log : L) : Run L where
  factory := { log }
  smokers := .ofFn fun k =>
    { smoker := { holds := k, generator := .ofSeed (seed + UInt64.ofNat k.index), delay } }
  agent := { agent := { generator := .ofSeed (seed + 3), rounds } }

def isOver (r : Run L) : Actor → Bool
  | .smoker k => (r.smokers.get k).isOver
  | .agent => r.agent.isOver

def failed? (r : Run L) : Actor → Option Failure
  | .smoker k => match (r.smokers.get k).course with
    | .error e => some e
    | .ok _ => none
  | .agent => match r.agent.course with
    | .error e => some e
    | .ok _ => none

/-- The work that an actor has under way. -/
def work? (r : Run L) : Actor → Option Duration
  | .smoker k => match (r.smokers.get k).course with
    | .ok stage => stage.work?
    | .error _ => none
  | .agent => none

/-- Whether an actor stands before its semaphore. -/
def awaits (r : Run L) : Actor → Bool
  | .smoker k => match (r.smokers.get k).course with
    | .ok .awaiting => true
    | _ => false
  | .agent => match r.agent.course with
    | .ok .awaiting => true
    | _ => false

/-- Whether an actor stands in the queue of its semaphore with nothing else to go by. -/
def blocked (r : Run L) : Actor → Bool
  | .smoker k => r.awaits (.smoker k) && (r.factory.ready.get k).queue.contains (.smoker k)
  | .agent => r.awaits .agent && !r.stop.interrupts && r.factory.cigarette.queue.contains .agent

def enabled (r : Run L) (a : Actor) : Bool := !r.isOver a && !r.blocked a

def noteEnd (a : Actor) (r : Run L) : Run L :=
  if r.isOver a then { r with ended := r.ended ++ [a] } else r

/-- One atomic step of an actor. An actor that has ended stays as it is. -/
def act [StateLog L] (a : Actor) (stopFirst : Bool) (r : Run L) : Run L :=
  if r.isOver a then r
  else match a with
    | .smoker k =>
        let task := r.smokers.get k
        match task.course with
        | .error _ => r
        | .ok stage =>
            let (course, smoker, factory) := task.smoker.perform a stage r.factory
            noteEnd a { r with factory, smokers := r.smokers.set k { smoker, course } }
    | .agent =>
        match r.agent.course with
        | .error _ => r
        | .ok stage =>
            let (course, agent, factory) :=
              r.agent.agent.perform a r.stop stopFirst stage r.factory
            noteEnd a { r with factory, agent := { agent, course } }

def smokerReport (r : Run L) (k : Ingredient) : Ingredient × Nat :=
  ((r.smokers.get k).smoker.holds, (r.smokers.get k).smoker.smoked)

/-- The supervisor handles the actor that ended first: it keeps what the actor reports, or breaks
the run off. -/
def supervise (r : Run L) : Run L :=
  match r.ended with
  | [] => r
  | a :: rest =>
      match r.failed? a, a with
      | none, .smoker k => { r with ended := rest, reports := r.reports ++ [r.smokerReport k] }
      | none, .agent => { r with ended := rest, agentReport := some r.agent.agent.summary }
      | some e, _ => { r with
          ended := rest
          factory := if r.factory.destroyed then r.factory else r.factory.destroy
          failure := r.failure <|> some (a, e) }

def requestStop (r : Run L) : Run L := { r with stop := { r.stop with requested := true } }

/-- Whoever could request a stop goes away. -/
def dropSender (r : Run L) : Run L := { r with stop := { r.stop with senderGone := true } }

/-- Whether every actor has ended and has been handled. -/
def finished (r : Run L) : Bool := r.ended.isEmpty && Actor.all.all r.isOver

/-- What may happen next in a run. -/
inductive Choice
  | act (a : Actor) (stopFirst : Bool)
  | supervise
  | requestStop
  | dropSender
  deriving DecidableEq

/-- Whether a choice is made inside the run, by an actor or by the supervisor. -/
def Choice.isInside : Choice → Bool
  | .act _ _ | .supervise => true
  | .requestStop | .dropSender => false

def allows (r : Run L) : Choice → Bool
  | .act a _ => r.enabled a
  | .supervise => !r.ended.isEmpty
  | .requestStop => !r.stop.requested && !r.stop.senderGone
  | .dropSender => !r.stop.senderGone

def take [StateLog L] (r : Run L) : Choice → Run L
  | .act a stopFirst => r.act a stopFirst
  | .supervise => r.supervise
  | .requestStop => r.requestStop
  | .dropSender => r.dropSender

end Run

end CigaretteSmokers
