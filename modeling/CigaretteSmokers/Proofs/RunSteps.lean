import CigaretteSmokers.Run
import CigaretteSmokers.Proofs.AgentSteps
import CigaretteSmokers.Proofs.SmokerSteps

/-!
The runs: every interleaving of the steps of the actors and of the supervisor, with a stop request
at any moment, or with nobody left to request one. The agent may draw any kind, so that the runs cover
every sequence of draws.
-/

namespace CigaretteSmokers

theorem Actor.mem_all : (a : Actor) → a ∈ all
  | .smoker k => by cases k <;> decide
  | .agent => by decide

namespace Run

variable {L : Type}

def section? (r : Run L) (a : Actor) (stopFirst : Bool) : Option Section :=
  match a with
  | .smoker k => match (r.smokers.get k).course with
      | .ok stage => (r.smokers.get k).smoker.section? stage
      | .error _ => none
  | .agent => match r.agent.course with
      | .ok stage => Agent.section? r.stop.requested stopFirst stage
      | .error _ => none

def redraw (k : Ingredient) (r : Run L) : Run L :=
  match r.agent.course with
  | .ok (.supplying _) => { r with agent := { r.agent with course := .ok (.supplying k) } }
  | _ => r

variable [StateLog L]

def events (r : Run L) : Choice → List Event
  | .act (.smoker k) _ => match (r.smokers.get k).course with
      | .ok stage => (r.smokers.get k).smoker.events stage r.factory
      | .error _ => []
  | .act .agent stopFirst => match r.agent.course with
      | .ok stage => Agent.events r.stop.requested stopFirst stage r.factory
      | .error _ => []
  | .supervise | .requestStop | .dropSender => []

/-- One step of a run, with what it brings about. -/
inductive Step (r : Run L) : List Event → Run L → Prop
  | take (c : Choice) (h : r.allows c = true) : Step r (r.events c) (r.take c)
  | draw (k : Ingredient) (h : r.agent.course = .ok .choosing) :
      Step r [] ((r.act .agent false).redraw k)

/-- The run may go from `r` to where it stands, and the events are what happened on the way. The actors
that have ended may overtake each other on their way to the supervisor. -/
inductive Reaches (r : Run L) : List Event → Run L → Prop
  | refl : Reaches r [] r
  | step {es fs u v} (h : Reaches r es u) (hs : Step u fs v) : Reaches r (es ++ fs) v
  | overtake {es u order} (h : Reaches r es u) (ho : order.Perm u.ended) :
      Reaches r es { u with ended := order }

theorem Reaches.trans {r u v : Run L} {es fs : List Event} (h : Reaches r es u) (h' : Reaches u fs v) :
    Reaches r (es ++ fs) v := by
  induction h' with
  | refl => simpa using h
  | step _ hs ih => simpa only [List.append_assoc] using ih.step hs
  | overtake _ ho ih => exact ih.overtake ho

/-- Takes one choice after another, those that the run allows when their turn comes. -/
def follow : List Choice → Run L → List Event × Run L
  | [], r => ([], r)
  | c :: cs, r =>
      if r.allows c then (r.events c ++ (follow cs (r.take c)).1, (follow cs (r.take c)).2)
      else follow cs r

theorem reaches_follow (cs : List Choice) (r : Run L) : Reaches r (follow cs r).1 (follow cs r).2 := by
  induction cs generalizing r with
  | nil => exact .refl
  | cons c cs ih =>
      unfold follow
      split
      · rename_i hc
        exact (Reaches.refl.step (.take c hc)).trans (ih _)
      · exact ih r

/-- A base that is not a number lets no work take any time. -/
def instant (unit : TimeUnit) : DelayModel := { base := ⟨0x7ff8000000000000⟩, unit }

/-- All that a step of a run can be. -/
inductive Moves (r : Run L) : List Event → Run L → Prop
  | smoker {k stage es course s f} (hb : r.blocked (.smoker k) = false)
      (hc : (r.smokers.get k).course = .ok stage) (hg : stage ≠ .gone)
      (h : Smoker.Step (.smoker k) (r.smokers.get k).smoker r.factory stage es course s f) :
      Moves r es (noteEnd (.smoker k)
        { r with factory := f, smokers := r.smokers.set k { smoker := s, course } })
  | agent {stage es course a f} (hb : r.blocked .agent = false) (hc : r.agent.course = .ok stage)
      (hg : stage ≠ .gone)
      (h : Agent.Step .agent r.stop.requested r.agent.agent r.factory stage es course a f) :
      Moves r es (noteEnd .agent { r with factory := f, agent := { agent := a, course } })
  | smokerReported {k rest} (he : r.ended = .smoker k :: rest) (hf : r.failed? (.smoker k) = none) :
      Moves r [] { r with ended := rest, reports := r.reports ++ [r.smokerReport k] }
  | agentReported {rest} (he : r.ended = .agent :: rest) (hf : r.failed? .agent = none) :
      Moves r [] { r with ended := rest, agentReport := some r.agent.agent.summary }
  | failed {a rest e} (he : r.ended = a :: rest) (hf : r.failed? a = some e) :
      Moves r [] { r with
        ended := rest
        factory := if r.factory.destroyed then r.factory else r.factory.destroy
        failure := r.failure <|> some (a, e) }
  | stopped (hs : r.stop.requested = false) (hg : r.stop.senderGone = false) :
      Moves r [] r.requestStop
  | abandoned (hg : r.stop.senderGone = false) : Moves r [] r.dropSender

omit [StateLog L] in
theorem smoker_of_not_over {r : Run L} {k : Ingredient} (h : r.isOver (.smoker k) = false) :
    ∃ stage, (r.smokers.get k).course = .ok stage ∧ stage ≠ .gone := by
  simp only [isOver, SmokerTask.isOver] at h
  split at h
  · cases h
  · cases h
  · rename_i stage hg hc
    exact ⟨stage, hc, hg⟩

omit [StateLog L] in
theorem agent_of_not_over {r : Run L} (h : r.isOver .agent = false) :
    ∃ stage, r.agent.course = .ok stage ∧ stage ≠ .gone := by
  simp only [isOver, AgentTask.isOver] at h
  split at h
  · cases h
  · cases h
  · rename_i stage hg hc
    exact ⟨stage, hc, hg⟩

omit [StateLog L] in
theorem smoker_not_over {r : Run L} {k : Ingredient} {stage : Smoker.Stage}
    (hc : (r.smokers.get k).course = .ok stage) (hg : stage ≠ .gone) : r.isOver (.smoker k) = false := by
  cases stage <;> first | exact absurd rfl hg | simp [isOver, SmokerTask.isOver, hc]

omit [StateLog L] in
theorem agent_not_over {r : Run L} {stage : Agent.Stage} (hc : r.agent.course = .ok stage)
    (hg : stage ≠ .gone) : r.isOver .agent = false := by
  cases stage <;> first | exact absurd rfl hg | simp [isOver, AgentTask.isOver, hc]

omit [StateLog L] in
theorem smoker_eq_gone {r : Run L} {k : Ingredient} {stage : Smoker.Stage}
    (hc : (r.smokers.get k).course = .ok stage) (h : r.isOver (.smoker k) = true) : stage = .gone := by
  by_contra hg
  simp [smoker_not_over hc hg] at h

omit [StateLog L] in
theorem agent_eq_gone {r : Run L} {stage : Agent.Stage} (hc : r.agent.course = .ok stage)
    (h : r.isOver .agent = true) : stage = .gone := by
  by_contra hg
  simp [agent_not_over hc hg] at h

omit [StateLog L] in
theorem ended_nil_of_finished {r : Run L} (h : r.finished = true) : r.ended = [] := by
  simp only [finished, Bool.and_eq_true, List.isEmpty_iff] at h
  exact h.1

omit [StateLog L] in
theorem over_of_finished {r : Run L} (h : r.finished = true) (a : Actor) : r.isOver a = true := by
  simp only [finished, Bool.and_eq_true, List.all_eq_true] at h
  exact h.2 a a.mem_all

theorem act_smoker {r : Run L} {k : Ingredient} {stage : Smoker.Stage} (stopFirst : Bool)
    (hc : (r.smokers.get k).course = .ok stage) (hg : stage ≠ .gone) :
    r.act (.smoker k) stopFirst = noteEnd (.smoker k) { r with
      factory := ((r.smokers.get k).smoker.perform (.smoker k) stage r.factory).2.2
      smokers := r.smokers.set k {
        smoker := ((r.smokers.get k).smoker.perform (.smoker k) stage r.factory).2.1
        course := ((r.smokers.get k).smoker.perform (.smoker k) stage r.factory).1 } } := by
  simp only [act, smoker_not_over hc hg, hc, Bool.false_eq_true, if_false]

theorem act_agent {r : Run L} {stage : Agent.Stage} (stopFirst : Bool)
    (hc : r.agent.course = .ok stage) (hg : stage ≠ .gone) :
    r.act .agent stopFirst = noteEnd .agent { r with
      factory := (r.agent.agent.perform .agent r.stop stopFirst stage r.factory).2.2
      agent := {
        agent := (r.agent.agent.perform .agent r.stop stopFirst stage r.factory).2.1
        course := (r.agent.agent.perform .agent r.stop stopFirst stage r.factory).1 } } := by
  simp only [act, agent_not_over hc hg, hc, Bool.false_eq_true, if_false]

/-- The agent begins a round with the kind `k`. -/
def drawing (k : Ingredient) (r : Run L) : Run L :=
  let a := r.agent.agent
  { r with agent := {
      agent := { a with generator := a.generator.nextIngredient.2 }, course := .ok (.supplying k) } }

theorem redraw_act {r : Run L} (k : Ingredient) (hc : r.agent.course = .ok .choosing)
    (hr : r.agent.agent.summary.rounds ≠ r.agent.agent.rounds) (hs : r.stop.requested = false) :
    (r.act .agent false).redraw k = r.drawing k := by
  obtain ⟨j, hj⟩ := r.agent.agent.generator.nextIngredient_ok
  rcases hn : r.agent.agent.generator.nextIngredient with ⟨e | j, g⟩
  · simp [hn] at hj
  · rw [act_agent false hc (by simp)]
    simp [Agent.perform, hr, hs, hn, noteEnd, isOver, AgentTask.isOver, redraw, drawing]

/-- A run of one round whose agent has drawn the holder of paper. -/
def drawn (log : L) : Run L := (start 1 1 {} log).drawing .paper

theorem reaches_drawn (log : L) (cs : List Choice) :
    (start 1 (1 : UInt64).toNat {} log).Reaches
      (follow cs (drawn log)).1 (follow cs (drawn log)).2 := by
  have hdraw : (start 1 (1 : UInt64).toNat {} log).Reaches [] (drawn log) := by
    rw [drawn, ← redraw_act .paper rfl (by simp [start]) rfl]
    exact Reaches.refl.step (.draw .paper rfl)
  simpa only [List.nil_append] using hdraw.trans (reaches_follow cs _)

theorem moves_smoker {r : Run L} {k : Ingredient} (stopFirst : Bool) (ho : r.isOver (.smoker k) = false)
    (hb : r.blocked (.smoker k) = false) :
    Moves r (r.events (.act (.smoker k) stopFirst)) (r.act (.smoker k) stopFirst) := by
  obtain ⟨stage, hc, hg⟩ := smoker_of_not_over ho
  have h := Smoker.step_perform (.smoker k) (r.smokers.get k).smoker hg r.factory
  rw [act_smoker stopFirst hc hg]
  simpa only [events, hc] using Moves.smoker hb hc hg h

theorem moves_agent {r : Run L} (stopFirst : Bool) (ho : r.isOver .agent = false)
    (hb : r.blocked .agent = false) :
    Moves r (r.events (.act .agent stopFirst)) (r.act .agent stopFirst) := by
  obtain ⟨stage, hc, hg⟩ := agent_of_not_over ho
  have h := Agent.step_perform .agent r.stop stopFirst r.agent.agent hg r.factory
  rw [act_agent stopFirst hc hg]
  simpa only [events, hc] using Moves.agent hb hc hg h

theorem moves_redraw {r : Run L} (k : Ingredient) (hc : r.agent.course = .ok .choosing) :
    Moves r [] ((r.act .agent false).redraw k) := by
  have hb : r.blocked .agent = false := by simp [blocked, awaits, hc]
  have hg : Agent.Stage.choosing ≠ .gone := by simp
  rw [act_agent false hc hg]
  simp only [Agent.perform]
  split
  · rename_i hr
    exact .agent hb hc hg (.completed hr)
  · rename_i hr
    split
    · rename_i hs
      exact .agent hb hc hg (.heeded hr hs)
    · rename_i hs
      obtain ⟨j, hj⟩ := r.agent.agent.generator.nextIngredient_ok
      rcases hn : r.agent.agent.generator.nextIngredient with ⟨e | j, g⟩
      · simp [hn] at hj
      · exact .agent hb hc hg (.drew hr (by simpa using hs))

theorem Step.moves {r r' : Run L} {es : List Event} (h : Step r es r') : Moves r es r' := by
  cases h with
  | take c h =>
      cases c with
      | act a stopFirst =>
          simp only [allows, enabled, Bool.and_eq_true, Bool.not_eq_true'] at h
          cases a with
          | smoker k => exact moves_smoker stopFirst h.1 h.2
          | agent => exact moves_agent stopFirst h.1 h.2
      | supervise =>
          change Moves r [] r.supervise
          cases he : r.ended with
          | nil => simp [allows, he] at h
          | cons a rest =>
              cases hf : r.failed? a with
              | some e => simpa only [supervise, he, hf] using Moves.failed he hf
              | none =>
                  cases a with
                  | smoker k => simpa only [supervise, he, hf] using Moves.smokerReported he hf
                  | agent => simpa only [supervise, he, hf] using Moves.agentReported he hf
      | requestStop =>
          simp only [allows, Bool.and_eq_true, Bool.not_eq_true'] at h
          exact .stopped h.1 h.2
      | dropSender => exact .abandoned (by simpa [allows] using h)
  | draw k h => exact moves_redraw k h

omit [StateLog L] in
theorem noteEnd_eq (a : Actor) (r : Run L) :
    noteEnd a r = { r with ended := r.ended ++ if r.isOver a then [a] else [] } := by
  unfold noteEnd
  split <;> simp

end Run

end CigaretteSmokers
