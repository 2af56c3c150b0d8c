import CigaretteSmokers.Proofs.Progress

/-!
Every run ends. A number that falls with every step: what is left of each actor's cycle, the cycles
that the permits about still pay for, and the rounds that the agent has not begun.
-/

namespace CigaretteSmokers

/-- What handling an actor that has ended is worth: it may wake all four waits. -/
def handlingCost : Nat := 6

/-- What a permit of a smoker is worth: one cycle of the smoker. -/
def permitCost : Nat := 12

/-- What a round is worth to the agent. -/
def roundCost : Nat := 20

namespace Semaphore

variable {ω : Type} [DecidableEq ω]

def unqueued (w : ω) (s : Semaphore ω) : Nat := if w ∈ s.queue then 0 else 1

theorem unqueued_le (w : ω) (s : Semaphore ω) : s.unqueued w ≤ 1 := by
  unfold unqueued
  split <;> omega

end Semaphore

/-- What the smokers' permits about are worth, where smoker `k` waits by the name `v k`. -/
def Factory.backlog {ω L : Type} [DecidableEq ω] (v : Ingredient → ω) (f : Factory ω L) : Nat :=
  ∑ k, (permitCost * (f.ready.get k).permits + (f.ready.get k).unqueued (v k))

theorem Factory.backlog_signal {ω L : Type} [DecidableEq ω] (v : Ingredient → ω) (f : Factory ω L)
    (j : Ingredient) : (f.signalIngredients j).backlog v ≤ f.backlog v + permitCost + 1 := by
  have hshift := Ingredient.sum_shift
    (f := fun k => permitCost * (f.ready.get k).permits + (f.ready.get k).unqueued (v k))
    (g := fun k => permitCost * ((f.signalIngredients j).ready.get k).permits +
      ((f.signalIngredients j).ready.get k).unqueued (v k)) j
    (fun k hk => by simp [Factory.signalIngredients, hk])
  have := (f.ready.get j).signal.unqueued_le (v j)
  simp only [Factory.signalIngredients, Trio.get_set_self, Semaphore.permits_signal,
    Nat.mul_succ] at hshift
  simp only [backlog, Factory.signalIngredients]
  omega

/-- What is left of the cycle of a smoker. -/
def Smoker.Stage.toil : Smoker.Stage → Nat
  | .collecting => 16
  | .starting => 15
  | .rolling _ => 14
  | .telling => 13
  | .lighting => 11
  | .smoking _ => 10
  | .finishing => 9
  | .arriving => 8
  | .awaiting => 7
  | .gone => 0

/-- What is left of the agent's round, and of the closing. -/
def Agent.Stage.toil : Agent.Stage → Nat
  | .choosing => 68
  | .supplying _ => 67
  | .calling _ => 66
  | .announcing => 52
  | .awaiting => 51
  | .closing => 49
  | .releasing k => 20 + 14 * (2 - k.index)
  | .gone => 0

def handling {σ : Type} [DecidableEq σ] (gone : σ) : Except Failure σ → Nat
  | .ok stage => if stage = gone then handlingCost else 0
  | .error _ => handlingCost

namespace Smoker

variable {L : Type} [StateLog L]

theorem Step.toil {ω : Type} [DecidableEq ω] {w v : ω} {s s' : Smoker} {f f' : Factory ω L}
    {stage : Stage} {course : Except Failure Stage} {es : List Event}
    (h : Step w s f stage es course s' f') (hb : stage = .awaiting → w ∉ (f.ready.get s.holds).queue) :
    tally Stage.toil course + handling .gone course +
        permitCost * (f'.ready.get s.holds).permits + (f'.ready.get s.holds).unqueued w +
        f'.cigarette.unqueued v <
      stage.toil + permitCost * (f.ready.get s.holds).permits +
        (f.ready.get s.holds).unqueued w + f.cigarette.unqueued v := by
  cases h with
  | failed hs h =>
      rw [h.frame.1, h.frame.2]
      rcases section?_eq hs with ⟨rfl, -⟩ | ⟨rfl, -⟩ | ⟨rfl, -⟩ | ⟨rfl, -⟩ | ⟨rfl, -⟩
      all_goals
        simp only [tally_error, handling, handlingCost, Stage.toil]
        omega
  | arrived h | served h | left h | lacked h | rolled _ h | lit _ h | dozed _ h | finished h =>
      rw [h.frame.1, h.frame.2]
      simp [handling, handlingCost, Stage.toil]
  | overslept | rested | smoked => simp [handling, handlingCost, Stage.toil]
  | called h =>
      have hp := (Semaphore.passed_permits h).1
      rename_i q
      have := q.unqueued_le w
      simp only [Trio.get_set_self, ← hp, tally_ok, handling, Stage.toil, permitCost, reduceCtorEq, if_false]
      omega
  | queued h =>
      -- The one step that leaves the smoker where it was: it takes its place in the queue.
      obtain ⟨hp, -, hw⟩ := Semaphore.pending_permits h
      simp [Semaphore.unqueued, hp, hw, hb rfl, handling]
  | refused h =>
      obtain ⟨hp, -, -, hq⟩ := Semaphore.refused_permits h
      simp only [Trio.get_set_self, Semaphore.unqueued, hq, tally_error, handling, handlingCost,
        Stage.toil, permitCost]
      omega
  | told =>
      have := f.cigarette.signal.unqueued_le v
      simp only [Factory.signalCigarette, tally_ok, handling, Stage.toil, reduceCtorEq, if_false]
      omega

end Smoker

namespace Agent

variable {L : Type} [StateLog L]

def remaining (a : Agent) : Nat := roundCost * (a.rounds - a.summary.rounds)

theorem remaining_finishedRound {a : Agent} (h : a.summary.rounds < a.rounds) :
    a.finishedRound.remaining + roundCost = a.remaining := by
  simp only [remaining, finishedRound, ← Nat.mul_succ]
  congr 1
  omega

theorem Step.toil {ω : Type} [DecidableEq ω] {w : ω} (v : Ingredient → ω) {stopped : Bool}
    {a a' : Agent} {f f' : Factory ω L} {stage : Stage} {course : Except Failure Stage}
    {es : List Event} (h : Step w stopped a f stage es course a' f')
    (hb : stage = .awaiting → stopped = false → w ∉ f.cigarette.queue)
    (hr : stage = .awaiting → a.summary.rounds < a.rounds) :
    tally Stage.toil course + handling .gone course + a'.remaining + f'.backlog v +
        f'.cigarette.unqueued w <
      stage.toil + a.remaining + f.backlog v + f.cigarette.unqueued w := by
  cases h with
  | failed hs h =>
      simp only [Factory.backlog, h.frame.1, h.frame.2]
      rcases section?_eq hs with ⟨k, rfl, -⟩ | ⟨rfl, -⟩ | ⟨rfl, -⟩
      all_goals
        simp only [tally_error, handling, handlingCost, Stage.toil]
        omega
  | supplied h | announced h | closed h =>
      simp only [Factory.backlog, h.frame.1, h.frame.2]
      simp [handling, Stage.toil, remaining, Agent.supplied, Ingredient.index]
  | completed | heeded | drew | forwent => simp [handling, Stage.toil, remaining, interrupt]
  | called =>
      rename_i k
      have := f.backlog_signal v k
      have hq : (f.signalIngredients k).cigarette = f.cigarette := rfl
      simp only [permitCost] at this
      simp only [tally_ok, handling, Stage.toil, reduceCtorEq, if_false, hq]
      omega
  | released hk =>
      rename_i j k
      have hsignal := f.backlog_signal v j
      have hq : (f.signalIngredients j).cigarette = f.cigarette := rfl
      have hindex : k.index = j.index + 1 := by cases j <;> cases hk <;> rfl
      have := k.index_lt
      simp only [permitCost] at hsignal
      simp only [tally_ok, handling, Stage.toil, reduceCtorEq, if_false, hq]
      omega
  | left hk =>
      rename_i j
      have := f.backlog_signal v j
      have hq : (f.signalIngredients j).cigarette = f.cigarette := rfl
      simp only [permitCost] at this
      simp only [tally_ok, handling, handlingCost, Stage.toil, if_true, hq]
      omega
  | passed h =>
      -- The round that is done pays for the way back to the next.
      have hround := remaining_finishedRound (hr rfl)
      rename_i q
      have := q.unqueued_le w
      simp only [roundCost] at hround
      simp only [tally_ok, handling, Stage.toil, reduceCtorEq, if_false, Factory.backlog]
      omega
  | queued hs h =>
      obtain ⟨-, -, hw⟩ := Semaphore.pending_permits h
      simp [Semaphore.unqueued, hw, hb rfl hs, handling, Factory.backlog]
  | cancelled =>
      have := (f.cigarette.cancel w).unqueued_le w
      simp only [tally_ok, handling, Stage.toil, reduceCtorEq, if_false, Factory.backlog,
        Factory.cancelCigarette, remaining, interrupt]
      omega
  | abandoned =>
      rename_i q _ _
      have := (q.cancel w).unqueued_le w
      simp only [tally_ok, handling, Stage.toil, reduceCtorEq, if_false, Factory.backlog, remaining,
        interrupt]
      omega
  | refused h =>
      obtain ⟨-, -, -, hq⟩ := Semaphore.refused_permits h
      simp only [Semaphore.unqueued, hq, tally_error, handling, handlingCost, Stage.toil, Factory.backlog]
      omega

end Agent

namespace Run

variable {L : Type}

/-- What is left of a run. -/
def toil (r : Run L) : Nat :=
  ∑ k, tally Smoker.Stage.toil (r.smokers.get k).course + tally Agent.Stage.toil r.agent.course +
    r.agent.agent.remaining + r.factory.backlog .smoker + r.factory.cigarette.unqueued .agent +
    handlingCost * r.ended.length + (!r.stop.requested).toNat + (!r.stop.senderGone).toNat

theorem toil_noteEnd (a : Actor) (r : Run L) :
    (noteEnd a r).toil = r.toil + if r.isOver a then handlingCost else 0 := by
  rw [noteEnd_eq]
  simp only [toil]
  split
  · simp only [List.length_append, List.length_singleton, Nat.mul_succ]
    omega
  · simp

theorem handling_smoker (t : SmokerTask) :
    handling .gone t.course = if t.isOver then handlingCost else 0 := by
  unfold handling SmokerTask.isOver
  cases t.course with
  | error e => rfl
  | ok stage => cases stage <;> rfl

theorem handling_agent (t : AgentTask) :
    handling .gone t.course = if t.isOver then handlingCost else 0 := by
  unfold handling AgentTask.isOver
  cases t.course with
  | error e => rfl
  | ok stage => cases stage <;> rfl

theorem backlog_destroy (f : Factory Actor L) :
    f.destroy.backlog .smoker + f.destroy.cigarette.unqueued .agent ≤
      f.backlog .smoker + f.cigarette.unqueued .agent + 4 := by
  have hk : ∀ k, (f.destroy.ready.get k).unqueued (.smoker k) ≤ 1 := fun k => Semaphore.unqueued_le _ _
  have hq := f.destroy.cigarette.unqueued_le .agent
  have hp : ∀ k, (f.destroy.ready.get k).permits = (f.ready.get k).permits := by simp [Factory.destroy]
  have h₀ := hk .tobacco
  have h₁ := hk .paper
  have h₂ := hk .matchstick
  simp only [Factory.backlog, Ingredient.sum_univ, hp]
  omega

variable [StateLog L]

theorem Balanced.toil_lt {n : Nat} {es fs : List Event} {r r' : Run L} (hb : Balanced n es r)
    (hm : Moves r fs r') : r'.toil < r.toil := by
  cases hm with
  | @smoker k stage _ course s f hbl hc _ hst =>
      have hq : stage = .awaiting → (.smoker k) ∉ (r.factory.ready.get k).queue := by
        rintro rfl hmem
        simp [blocked, awaits, hc, hmem] at hbl
      obtain ⟨hne, -, -⟩ := hst.uses
      have hlt := hst.toil (v := .agent) (by rwa [hb.holds k])
      rw [hb.holds k] at hne hlt
      have hbacklog := Ingredient.sum_shift
        (f := fun j => permitCost * (r.factory.ready.get j).permits +
          (r.factory.ready.get j).unqueued (.smoker j))
        (g := fun j => permitCost * (f.ready.get j).permits + (f.ready.get j).unqueued (.smoker j)) k
        (fun j hj => by simp only [hne j hj])
      have htoil := r.smokers.sum_set k { smoker := s, course } fun t => tally Smoker.Stage.toil t.course
      have hover : (if isOver { r with
          factory := f, smokers := r.smokers.set k { smoker := s, course } } (.smoker k) then
          handlingCost else 0) = handling .gone course := by
        simpa only [isOver, Trio.get_set_self] using (handling_smoker { smoker := s, course }).symm
      simp only [hc, tally_ok] at htoil
      rw [toil_noteEnd, hover]
      simp only [toil, Factory.backlog]
      omega
  | @agent stage _ course a f hbl hc _ hst =>
      have hq : stage = .awaiting → r.stop.requested = false → .agent ∉ r.factory.cigarette.queue := by
        rintro rfl hs hmem
        simp [blocked, awaits, hc, hs, hmem] at hbl
      have hr : stage = .awaiting → r.agent.agent.summary.rounds < r.agent.agent.rounds := by
        rintro rfl
        have hexpects := hb.expects
        rw [hc] at hexpects
        exact hb.rounds ▸ hexpects.2
      have hlt := hst.toil .smoker hq hr
      have hover : (if isOver { r with factory := f, agent := { agent := a, course } } .agent then
          handlingCost else 0) = handling .gone course := (handling_agent { agent := a, course }).symm
      rw [toil_noteEnd, hover]
      simp only [toil, hc, tally_ok]
      omega
  | smokerReported he hf | agentReported he hf => simp [toil, he, handlingCost]
  | failed he hf =>
      have hdestroy := backlog_destroy r.factory
      simp only [toil, he, List.length_cons, handlingCost]
      split <;> omega
  | stopped hs | abandoned hs =>
      simp only [toil, requestStop, dropSender, hs, Bool.not_true, Bool.not_false, Bool.toNat_true,
        Bool.toNat_false]
      omega

variable {seed : UInt64} {n : Nat} {delay : DelayModel} {log : L}

theorem goes_on_of_reaches {es : List Event} {r : Run L} (h : (start seed n delay log).Reaches es r)
    (hf : r.finished = false) : ∃ c, c.isInside = true ∧ r.allows c = true :=
  have h₀ := balanced_start seed n delay log
  (h₀.of_start h).goes_on ((watched_start seed n delay log).of_start h₀ h) hf

theorem toil_lt_of_reaches {es fs : List Event} {r r' : Run L}
    (h : (start seed n delay log).Reaches es r) (hs : Step r fs r') : r'.toil < r.toil :=
  ((balanced_start seed n delay log).of_start h).toil_lt hs.moves

/-- A run can always come to its end by itself. -/
theorem exists_finished {es : List Event} {r : Run L} (h : (start seed n delay log).Reaches es r) :
    ∃ cs : List Choice, (∀ c ∈ cs, c.isInside = true) ∧ (follow cs r).2.finished = true := by
  induction hm : r.toil using Nat.strong_induction_on generalizing es r with
  | _ m ih =>
      by_cases hf : r.finished = true
      · exact ⟨[], by simp, hf⟩
      · obtain ⟨c, hinside, hc⟩ := goes_on_of_reaches h (by simpa using hf)
        have hs : Step r (r.events c) (r.take c) := .take c hc
        obtain ⟨cs, hcs, hf'⟩ := ih _ (hm ▸ toil_lt_of_reaches h hs) (h.step hs) rfl
        exact ⟨c :: cs, List.forall_mem_cons.2 ⟨hinside, hcs⟩,
          by simpa only [follow, hc, if_true] using hf'⟩

omit [StateLog L] in
theorem toil_start : (start seed n delay log).toil = roundCost * n + 98 := by
  simp only [toil, start, Trio.get_ofFn, tally_ok, Smoker.Stage.toil, Agent.Stage.toil, Factory.backlog,
    Trio.get_replicate, Semaphore.permits, Semaphore.unqueued, Agent.remaining, Ingredient.sum_univ]
  simp
  omega

/-- A step of the run, before which the actors that have ended may overtake each other. -/
def Advances (r : Run L) (es : List Event) (r' : Run L) : Prop :=
  ∃ order, order.Perm r.ended ∧ Step { r with ended := order } es r'

omit [StateLog L] in
theorem toil_overtake (r : Run L) {order : List Actor} (ho : order.Perm r.ended) :
    toil { r with ended := order } = r.toil := by
  simp only [toil, ho.length_eq]

/-- A run takes no more steps than its rounds pay for. -/
theorem steps_le {path : Nat → Run L} {m : Nat} (h₀ : path 0 = start seed n delay log)
    (h : ∀ i < m, ∃ es, (path i).Advances es (path (i + 1))) : m ≤ roundCost * n + 98 := by
  have hpath : ∀ i ≤ m, ∃ es, (start seed n delay log).Reaches es (path i) ∧
      (path i).toil + i ≤ (start seed n delay log).toil := by
    intro i hi
    induction i with
    | zero => exact ⟨[], h₀ ▸ .refl, by simp [h₀]⟩
    | succ i ih =>
        obtain ⟨es, hr, hle⟩ := ih (by omega)
        obtain ⟨fs, order, ho, hs⟩ := h i (by omega)
        have := toil_lt_of_reaches (hr.overtake ho) hs
        have := (path i).toil_overtake ho
        exact ⟨es ++ fs, (hr.overtake ho).step hs, by omega⟩
  obtain ⟨-, -, hle⟩ := hpath m le_rfl
  rw [toil_start] at hle
  omega

omit [StateLog L] in
theorem not_allows_of_finished {r : Run L} (hf : r.finished = true) {c : Choice}
    (hc : c.isInside = true) : r.allows c = false := by
  cases c with
  | act a stopFirst => simp [allows, enabled, over_of_finished hf a]
  | supervise => simp [allows, ended_nil_of_finished hf]
  | requestStop | dropSender => cases hc

/-- Every run ends: whatever the order of the steps and of the handling, whenever a stop is requested
or nobody is left to request one, and whatever the log does, there is no endless run, and a run gets
stuck nowhere but at its end, where everybody has ended and been handled. -/
theorem every_run_ends (seed : UInt64) (rounds : Nat) (delay : DelayModel) (log : L) :
    (¬ ∃ path : Nat → Run L, path 0 = start seed rounds delay log ∧
      ∀ i, ∃ es, (path i).Advances es (path (i + 1))) ∧
    ∀ es r, (start seed rounds delay log).Reaches es r →
      (r.finished = false ↔ ∃ c, c.isInside = true ∧ r.allows c = true) ∧
      ∃ cs : List Choice, (∀ c ∈ cs, c.isInside = true) ∧ (follow cs r).2.finished = true := by
  refine ⟨?_, fun es r h => ⟨⟨goes_on_of_reaches h, ?_⟩, exists_finished h⟩⟩
  · rintro ⟨path, h₀, hs⟩
    have hle : roundCost * rounds + 99 ≤ roundCost * rounds + 98 := steps_le h₀ fun i _ => hs i
    omega
  · rintro ⟨c, hc, hallows⟩
    by_contra hf
    rw [not_allows_of_finished (by simpa using hf) hc] at hallows
    cases hallows

end Run

end CigaretteSmokers
