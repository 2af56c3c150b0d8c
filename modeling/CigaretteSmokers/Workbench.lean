import CigaretteSmokers.Call

/-!
Smokers and an agent over one factory, moved by hand. A call that cannot go on is held under a
name until it is polled again or dropped.
-/

namespace CigaretteSmokers

namespace Workbench

/-- A call that waits to be polled. -/
inductive Held
  | smoker (position : Nat) (call : Smoker.Call) (stage : Smoker.Stage) (wakeAt : Option Nat)
  | agent (call : Agent.Call) (stage : Agent.Stage)
  | ingredients (k : Ingredient)
  | cigarette

inductive Command
  | smoker (position : Nat) (call : Smoker.Call)
  | agent (call : Agent.Call)
  | poll (name : String)
  | drop (name : String)
  | awaitIngredients (k : Ingredient) (name : String)
  | awaitCigarette (name : String)
  | signalIngredients (k : Ingredient)
  | signalCigarette
  | destroy
  | askDestroyed
  | closeFactory
  | replace (table : Table)
  | crash (c : Crash)
  | stop
  | dropStop
  | advance (milliseconds : Nat)

inductive Reply
  | pending
  /-- The name holds another call. -/
  | busy
  /-- The actor's run has begun, and takes the actor along. -/
  | departed
  /-- There is no call by that name. -/
  | idle
  | nothing
  | flag (b : Bool)
  | clock (milliseconds : Nat)
  | failed (e : Failure)
  | done
  | smoker (k : Ingredient) (answer : Smoker.Answer)
  | agent (answer : Agent.Answer)
  | replaced (old : Table)

end Workbench

structure Workbench (L : Type) where
  factory : Factory String L
  smokers : List Smoker
  agent : Agent
  departed : List String := []
  held : List (String × Workbench.Held) := []
  stop : Stop := {}

namespace Workbench

variable {L : Type} [StateLog L]

def smokerName (position : Nat) : String := s!"s{position}"

def agentName : String := "agent"

omit [StateLog L] in
def isHeld (name : String) (b : Workbench L) : Bool := b.held.any (·.1 = name)

omit [StateLog L] in
def hold (name : String) (h : Held) (b : Workbench L) : Workbench L :=
  { b with held := b.held ++ [(name, h)] }

omit [StateLog L] in
def release (name : String) (b : Workbench L) : Workbench L :=
  { b with held := b.held.filter (·.1 ≠ name) }

def pollSmoker (position : Nat) (call : Smoker.Call) (stage : Smoker.Stage) (wakeAt : Option Nat)
    (s : Smoker) (b : Workbench L) : Reply × Workbench L :=
  let (p, s, factory) := s.poll (smokerName position) call stage wakeAt b.factory
  let b := { b with factory, smokers := b.smokers.set position s }
  match p with
  | .ended (.ok a) => (.smoker s.holds a, b)
  | .ended (.error e) => (.failed e, b)
  | .held stage wakeAt =>
      (.pending, b.hold (smokerName position) (.smoker position call stage wakeAt))

def pollAgent (call : Agent.Call) (stage : Agent.Stage) (a : Agent) (b : Workbench L) :
    Reply × Workbench L :=
  let (p, agent, factory) := a.poll agentName b.stop call stage b.factory
  let b := { b with factory, agent }
  match p with
  | .ended (.ok r) => (.agent r, b)
  | .ended (.error e) => (.failed e, b)
  | .held stage _ => (.pending, b.hold agentName (.agent call stage))

omit [StateLog L] in
def settle (name : String) (h : Held) (b : Workbench L) :
    Except Failure Bool × Factory String L → Reply × Workbench L
  | (.ok true, factory) => (.done, { b with factory })
  | (.ok false, factory) => (.pending, { b with factory }.hold name h)
  | (.error e, factory) => (.failed e, { b with factory })

/-- Polls a call that is not held at present. -/
def pollHeld (name : String) (h : Held) (b : Workbench L) : Reply × Workbench L :=
  match h with
  | .smoker position call stage wakeAt =>
      match b.smokers[position]? with
      | some s => b.pollSmoker position call stage wakeAt s
      | none => (.idle, b)
  | .agent call stage => b.pollAgent call stage b.agent
  | .ingredients k => b.settle name h (b.factory.awaitIngredients name k)
  | .cigarette => b.settle name h (b.factory.awaitCigarette name)

omit [StateLog L] in
def forget (name : String) (h : Held) (b : Workbench L) : Workbench L :=
  match h with
  | .smoker position _ stage _ =>
      match b.smokers[position]? with
      | some s => { b with factory := s.drop name stage b.factory }
      | none => b
  | .agent _ stage => { b with factory := Agent.drop name stage b.factory }
  | .ingredients k => { b with factory := b.factory.cancelIngredients name k }
  | .cigarette => { b with factory := b.factory.cancelCigarette name }

def answer {α : Type} (say : α → Reply) (b : Workbench L) :
    Except Failure α × Factory String L → Reply × Workbench L
  | (.ok a, factory) => (say a, { b with factory })
  | (.error e, factory) => (.failed e, { b with factory })

def startSmoker (position : Nat) (call : Smoker.Call) (b : Workbench L) : Reply × Workbench L :=
  let name := smokerName position
  if b.isHeld name then (.busy, b)
  else if b.departed.contains name then (.departed, b)
  else match b.smokers[position]? with
    | none => (.idle, b)
    | some s =>
        let b := if call = .run then { b with departed := name :: b.departed } else b
        let (stage, s) := call.begin s
        b.pollSmoker position call stage none s

def startAgent (call : Agent.Call) (b : Workbench L) : Reply × Workbench L :=
  if b.isHeld agentName then (.busy, b)
  else if b.departed.contains agentName then (.departed, b)
  else
    let b := if call = .run then { b with departed := agentName :: b.departed } else b
    match call.begin b.agent with
    | (.ok stage, a) => b.pollAgent call stage a
    | (.error e, agent) => (.failed e, { b with agent })

def obey (b : Workbench L) : Command → Reply × Workbench L
  | .smoker position call => b.startSmoker position call
  | .agent call => b.startAgent call
  | .poll name =>
      match b.held.lookup name with
      | some h => (b.release name).pollHeld name h
      | none => (.idle, b)
  | .drop name =>
      match b.held.lookup name with
      | some h => (.flag true, (b.release name).forget name h)
      | none => (.flag false, b)
  | .awaitIngredients k name =>
      if b.isHeld name then (.busy, b) else b.pollHeld name (.ingredients k)
  | .awaitCigarette name =>
      if b.isHeld name then (.busy, b) else b.pollHeld name .cigarette
  | .signalIngredients k => (.nothing, { b with factory := b.factory.signalIngredients k })
  | .signalCigarette => (.nothing, { b with factory := b.factory.signalCigarette })
  | .destroy => (.nothing, { b with factory := b.factory.destroy })
  | .askDestroyed => (.flag b.factory.destroyed, b)
  | .closeFactory => b.answer (fun _ => .done) b.factory.announceClosing
  | .replace table => b.answer .replaced (b.factory.critical (.replace table))
  | .crash c =>
      b.answer (fun _ : Unit => .done) (b.factory.critical (fun t => .error c t))
  | .stop =>
      if b.stop.senderGone then (.nothing, b)
      else (.flag true, { b with stop := { b.stop with requested := true } })
  | .dropStop =>
      (.flag (!b.stop.senderGone), { b with stop := { b.stop with senderGone := true } })
  | .advance milliseconds =>
      let clock := b.factory.clock + milliseconds
      (.clock clock, { b with factory := { b.factory with clock } })

end Workbench

end CigaretteSmokers
