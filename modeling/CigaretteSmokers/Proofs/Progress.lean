import CigaretteSmokers.Proofs.Conservation

/-!
No run gets stuck. A permit is never lost while nobody has failed, and a failure closes the
semaphores before long.
-/

namespace CigaretteSmokers.Run

open Event (supplies servings)

variable {L : Type}

/-- Each actor waits at its own semaphore, all four close together, and no failure goes unnoticed. -/
structure Watched (r : Run L) : Prop where
  ready : ∀ k, (r.factory.ready.get k).Sole (.smoker k)
  cigarette : r.factory.cigarette.Sole .agent
  closed : ∀ k, (r.factory.ready.get k).closed = r.factory.cigarette.closed
  noted : ∀ a, r.failed? a ≠ none → a ∈ r.ended ∨ r.factory.destroyed = true

theorem watched_start (seed : UInt64) (n : Nat) (delay : DelayModel) (log : L) :
    Watched (start seed n delay log) where
  ready := fun k => by simpa [start] using Semaphore.Sole.of_fresh (Actor.smoker k)
  cigarette := .of_fresh _
  closed := fun k => by simp [start]
  noted := fun a h => by cases a <;> simp [start, failed?] at h

theorem over_of_failed {r : Run L} {a : Actor} (h : r.failed? a ≠ none) : r.isOver a = true := by
  cases a with
  | smoker k =>
      simp only [failed?] at h
      simp only [isOver, SmokerTask.isOver]
      split at h
      · simp_all
      · exact absurd rfl h
  | agent =>
      simp only [failed?] at h
      simp only [isOver, AgentTask.isOver]
      split at h
      · simp_all
      · exact absurd rfl h

namespace Watched

variable {r : Run L}

theorem noteEnd {r' : Run L} {a : Actor} (h : Watched r)
    (hready : ∀ k, Semaphore.Uses (.smoker k) (r.factory.ready.get k) (r'.factory.ready.get k))
    (hcig : Semaphore.Uses .agent r.factory.cigarette r'.factory.cigarette)
    (hfailed : ∀ b, b ≠ a → r'.failed? b = r.failed? b) (hended : r'.ended = r.ended) :
    Watched (noteEnd a r') := by
  rw [noteEnd_eq]
  refine ⟨fun k => (hready k).sole (h.ready k), hcig.sole h.cigarette, fun k => ?_, fun b hb => ?_⟩
  · exact (hready k).closed.trans ((h.closed k).trans hcig.closed.symm)
  · change r'.failed? b ≠ none at hb
    by_cases hba : b = a
    · subst hba
      simp [over_of_failed hb]
    · rw [hfailed b hba] at hb
      rcases h.noted b hb with hmem | hd
      · exact .inl (by simp [hended, hmem])
      · exact .inr (hcig.closed.trans hd)

variable [StateLog L]

theorem moves (h : Watched r) (hholds : ∀ k, (r.smokers.get k).smoker.holds = k) {es : List Event}
    {r' : Run L} (hm : Moves r es r') : Watched r' := by
  cases hm with
  | @smoker k stage _ _ _ _ _ _ _ hst =>
      obtain ⟨hne, hself, hcig⟩ := hst.uses
      rw [hholds k] at hne hself
      refine h.noteEnd (fun j => ?_) (hcig _) (fun b hb => ?_) rfl
      · by_cases hj : j = k
        · subst hj
          exact hself
        · simp only [hne j hj]
          exact .refl
      · cases b with
        | smoker j => simp [failed?, show j ≠ k from fun hj => hb (by rw [hj])]
        | agent => rfl
  | agent _ _ _ hst =>
      obtain ⟨hready, hcig⟩ := hst.uses
      refine h.noteEnd (fun k => hready k _) hcig (fun b hb => ?_) rfl
      cases b with
      | smoker j => rfl
      | agent => exact absurd rfl hb
  | smokerReported he hf | agentReported he hf =>
      refine ⟨h.ready, h.cigarette, h.closed, fun b hb => ?_⟩
      refine (h.noted b hb).imp_left fun hmem => ?_
      rw [he, List.mem_cons] at hmem
      exact hmem.resolve_left fun hba => hb (hba ▸ hf)
  | failed he hf =>
      by_cases hd : r.factory.destroyed = true
      · simp only [hd, if_true]
        exact ⟨h.ready, h.cigarette, h.closed, fun _ _ => .inr hd⟩
      · simp only [hd]
        exact ⟨fun k => by simpa [Factory.destroy] using (h.ready k).close, h.cigarette.close,
          fun k => by simp [Factory.destroy], fun _ _ => .inr rfl⟩
  | stopped | abandoned => exact ⟨h.ready, h.cigarette, h.closed, h.noted⟩

omit [StateLog L] in
theorem overtake (h : Watched r) {order : List Actor} (ho : order.Perm r.ended) :
    Watched { r with ended := order } :=
  { h with noted := fun a ha => (h.noted a ha).imp_left ho.mem_iff.2 }

theorem of_start {n : Nat} {r₀ : Run L} {es : List Event} (h₀ : Watched r₀) (hb : Balanced n [] r₀)
    (h : Reaches r₀ es r) : Watched r := by
  induction h with
  | refl => exact h₀
  | step hr hs ih => exact ih.moves (hb.of_start hr).holds hs.moves
  | overtake _ ho ih => exact ih.overtake ho

end Watched

section

variable {n : Nat} {es : List Event} {r : Run L}

/-- Nothing is left to happen: who has ended has been handled, and who has not is blocked. -/
structure Stuck (r : Run L) : Prop where
  ended : r.ended = []
  blocked : ∀ a, r.isOver a = false → r.blocked a = true

theorem stuck_of_allows (h : ∀ c, c.isInside = true → r.allows c = false) : Stuck r where
  ended := by simpa [allows] using h .supervise rfl
  blocked := fun a ha => by simpa [allows, enabled, ha] using h (.act a false) rfl

theorem Stuck.smoker (hs : Stuck r) (hw : Watched r) (hsound : r.Sound) (k : Ingredient) :
    (r.smokers.get k).course = .ok .gone ∨
      (r.smokers.get k).course = .ok .awaiting ∧ (r.factory.ready.get k).permits = 0 := by
  obtain ⟨stage, hc⟩ := hsound.2 k
  by_cases hg : stage = .gone
  · exact .inl (hg ▸ hc)
  · have hb := hs.blocked _ (smoker_not_over hc hg)
    simp only [Run.blocked, awaits, hc, Bool.and_eq_true] at hb
    obtain rfl : stage = .awaiting := by cases stage <;> simp at hb ⊢
    exact .inr ⟨hc, ((hw.ready k).permits_eq_zero hb.2).1⟩

theorem Stuck.agent (hs : Stuck r) (hw : Watched r) (hsound : r.Sound) :
    r.agent.course = .ok .gone ∨
      r.agent.course = .ok .awaiting ∧ r.factory.cigarette.permits = 0 := by
  obtain ⟨stage, hc⟩ := hsound.1
  by_cases hg : stage = .gone
  · exact .inl (hg ▸ hc)
  · have hb := hs.blocked _ (agent_not_over hc hg)
    simp only [Run.blocked, awaits, hc, Bool.and_eq_true] at hb
    obtain rfl : stage = .awaiting := by cases stage <;> simp at hb ⊢
    exact .inr ⟨hc, (hw.cigarette.permits_eq_zero hb.2).1⟩

theorem Watched.over_of_destroyed (hw : Watched r) (hs : Stuck r) (hd : r.factory.destroyed = true)
    (a : Actor) : r.isOver a = true := by
  by_contra ho
  have hb := hs.blocked a (by simpa using ho)
  cases a with
  | smoker k =>
      simp only [blocked, Bool.and_eq_true] at hb
      have hopen := ((hw.ready k).permits_eq_zero hb.2).2
      simp [hw.closed k, show r.factory.cigarette.closed = true from hd] at hopen
  | agent =>
      simp only [blocked, Bool.and_eq_true] at hb
      have hopen := (hw.cigarette.permits_eq_zero hb.2).2
      simp [show r.factory.cigarette.closed = true from hd] at hopen

theorem sound_of_not_failed (h : ∀ a, r.failed? a = none) : r.Sound := by
  refine ⟨?_, fun k => ?_⟩
  · have ha := h .agent
    simp only [failed?] at ha
    split at ha
    · cases ha
    · rename_i stage hc
      exact ⟨stage, hc⟩
  · have hk := h (.smoker k)
    simp only [failed?] at hk
    split at hk
    · cases hk
    · rename_i stage hc
      exact ⟨stage, hc⟩

/-- Once the agent has gone, every smoker has been woken. -/
theorem Balanced.smoker_gone (hb : Balanced n es r) (hw : Watched r) (hs : Stuck r)
    (hsound : r.Sound) (ha : r.agent.course = .ok .gone) (k : Ingredient) :
    (r.smokers.get k).course = .ok .gone := by
  refine (hs.smoker hw hsound k).resolve_right fun ⟨hc, hp⟩ => ?_
  have hcalls := hb.calls_exact hsound k
  have hserved := hb.served k
  simp only [ha, hc, hp, tally_ok, Agent.Stage.calls, Agent.Stage.released, Smoker.Stage.called,
    Smoker.Stage.departed] at hcalls
  omega

/-- The agent does not wait while every smoker does: one of them has what the agent laid out. -/
theorem Balanced.agent_gone (hb : Balanced n es r) (hw : Watched r) (hs : Stuck r)
    (hsound : r.Sound) : r.agent.course = .ok .gone := by
  refine (hs.agent hw hsound).resolve_right fun ⟨ha, hp⟩ => ?_
  have hopen : r.factory.table.closing = false := hb.closing _ ha
  have hwaits : ∀ k, (r.smokers.get k).course = .ok .awaiting ∧ (r.factory.ready.get k).permits = 0 :=
    fun k => (hs.smoker hw hsound k).resolve_left fun hg => by simp [hb.gone k hg] at hopen
  -- Everything has been taken, so that the agent would have heard of every cigarette.
  have hserved : ∀ k, servings es k = supplies es k := by
    intro k
    have hcalls := hb.calls_exact hsound k
    simp only [ha, hwaits k, tally_ok, Agent.Stage.calls, Agent.Stage.released,
      Smoker.Stage.called, Smoker.Stage.departed] at hcalls
    omega
  have hnotices := hb.notices_exact hsound
  have hexpects := hb.expects
  simp only [hp, hserved, hwaits, tally_ok, Smoker.Stage.untold, Finset.sum_const_zero] at hnotices
  simp only [ha, Agent.Expects] at hexpects
  omega

theorem Balanced.finished_of_stuck (hb : Balanced n es r) (hw : Watched r) (hs : Stuck r) :
    r.finished = true := by
  have hover : ∀ a, r.isOver a = true := by
    by_cases hd : r.factory.destroyed = true
    · exact hw.over_of_destroyed hs hd
    · -- With the semaphores open, a failure would still stand among those who have ended.
      have hsound : r.Sound := sound_of_not_failed fun a => by
        by_contra hf
        rcases hw.noted a hf with hmem | hdestroyed
        · simp [hs.ended] at hmem
        · exact hd hdestroyed
      have ha := hb.agent_gone hw hs hsound
      rintro (k | -)
      · simp [isOver, SmokerTask.isOver, hb.smoker_gone hw hs hsound ha k]
      · simp [isOver, AgentTask.isOver, ha]
  simp [finished, hs.ended, hover]

theorem Balanced.goes_on (hb : Balanced n es r) (hw : Watched r) (hf : r.finished = false) :
    ∃ c, c.isInside = true ∧ r.allows c = true := by
  by_contra hno
  have hs : Stuck r := stuck_of_allows fun c hc => by
    simpa using fun h => hno ⟨c, hc, h⟩
  simp [hb.finished_of_stuck hw hs] at hf

end

end CigaretteSmokers.Run
