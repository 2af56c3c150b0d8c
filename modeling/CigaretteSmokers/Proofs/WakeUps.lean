import CigaretteSmokers.Proofs.ReportLaw

/-!
The wake-ups balance: how many permits may lie about while a run goes on, and how many are left
when it has ended.
-/

namespace CigaretteSmokers

open Event (supplies servings)

namespace Semaphore

variable {ω : Type}

/-- Nobody stands in the queue, and nobody has been given a permit that is not yet spent. -/
def Idle (s : Semaphore ω) : Prop := s.queue = [] ∧ s.granted = []

theorem Idle.permits {s : Semaphore ω} (h : s.Idle) : s.permits = s.banked := by
  simp [Semaphore.permits, h.2]

theorem Idle.signal {s : Semaphore ω} (h : s.Idle) : s.signal.Idle := by
  simpa [Idle, Semaphore.signal, h.1] using h.2

theorem Idle.close {s : Semaphore ω} (h : s.Idle) : s.close.Idle := ⟨rfl, h.2⟩

theorem Idle.eq_fresh {s : Semaphore ω} (h : s.Idle) (hb : s.banked = 0) (hc : s.closed = false) :
    s = {} := by
  cases s
  obtain ⟨rfl, rfl⟩ := h
  cases hb
  cases hc
  rfl

variable [DecidableEq ω]

/-- The only one who waits leaves nothing behind when it is let through or turned away. -/
theorem Sole.idle_poll {w : ω} {s q : Semaphore ω} {reply : Reply} (h : Sole w s)
    (hq : s.poll w = (reply, q)) (hr : reply ≠ .pending) : q.Idle := by
  have hgranted : s.granted.erase w = [] := by rcases h.granted with hg | hg <;> simp [hg]
  rw [Semaphore.poll_eq] at hq
  split at hq
  · rename_i hc
    cases hq
    exact ⟨h.queue.resolve_right fun hqueue => by simp [hc] at hqueue, hgranted⟩
  · split at hq
    · rename_i hw
      cases hq
      refine ⟨h.queue.resolve_right fun hqueue => ?_, hgranted⟩
      have hpos := List.length_pos_of_mem hw
      have := hqueue.2.1
      simp only [Semaphore.permits] at this
      omega
    · split at hq
      · cases hq
        exact absurd rfl hr
      · rename_i hw hqueue
        split at hq
        · cases hq
          exact ⟨h.queue.resolve_right fun hs => hqueue (by simp [hs.1]),
            h.granted.resolve_right fun hs => hw (by simp [hs])⟩
        · cases hq
          exact absurd rfl hr

theorem Sole.idle_cancel {w : ω} {s : Semaphore ω} (h : Sole w s) : (s.cancel w).Idle := by
  unfold Semaphore.cancel
  split
  · rename_i hw
    have hgranted : s.granted = [w] := h.granted.resolve_left fun hg => by simp [hg] at hw
    have hqueue : s.queue = [] := h.queue.resolve_right fun hq => by
      have := hq.2.1
      simp [Semaphore.permits, hgranted] at this
    exact Idle.signal ⟨hqueue, by simp [hgranted]⟩
  · rename_i hw
    refine ⟨?_, h.granted.resolve_right fun hg => hw (by simp [hg])⟩
    rcases h.queue with hq | hq <;> simp [hq]

end Semaphore

namespace Factory

variable {ω L : Type}

theorem idle_signalIngredients {f : Factory ω L} {k : Ingredient} (j : Ingredient)
    (h : (f.ready.get k).Idle) : ((f.signalIngredients j).ready.get k).Idle := by
  by_cases hj : k = j
  · subst hj
    simpa [signalIngredients] using h.signal
  · simpa [signalIngredients, hj] using h

end Factory

theorem Smoker.Step.idle {ω L : Type} [DecidableEq ω] [StateLog L] {w : ω} {s s' : Smoker}
    {f f' : Factory ω L} {stage : Stage} {course : Except Failure Stage} {es : List Event}
    (h : Step w s f stage es course s' f') (hs : (f.ready.get s.holds).Sole w)
    (hi : stage ≠ .awaiting → (f.ready.get s.holds).Idle) (hc : course ≠ .ok .awaiting) :
    (f'.ready.get s.holds).Idle := by
  cases h with
  | failed hsec h =>
      rw [h.frame.1]
      exact hi (by rintro rfl; simp [section?] at hsec)
  | arrived | queued => exact absurd rfl hc
  | called h | refused h => simpa using hs.idle_poll h (by simp)
  | served h | left h | lacked h | rolled _ h | lit _ h | dozed _ h | finished h =>
      rw [h.frame.1]
      exact hi (by simp)
  | overslept | rested | told | smoked => exact hi (by simp)

theorem Smoker.Step.idle_cigarette {ω L : Type} [DecidableEq ω] [StateLog L] {w : ω} {s s' : Smoker}
    {f f' : Factory ω L} {stage : Stage} {course : Except Failure Stage} {es : List Event}
    (h : Step w s f stage es course s' f') (hi : f.cigarette.Idle) : f'.cigarette.Idle := by
  cases h with
  | failed _ h | arrived h | served h | left h | lacked h | rolled _ h | lit _ h | dozed _ h
  | finished h =>
      rw [h.frame.2]
      exact hi
  | told => exact hi.signal
  | called | queued | refused | overslept | rested | smoked => exact hi

namespace Agent

variable {ω L : Type} [DecidableEq ω] [StateLog L] {w : ω} {stopped : Bool} {a a' : Agent}
  {f f' : Factory ω L} {stage : Stage} {course : Except Failure Stage} {es : List Event}

theorem Step.idle (h : Step w stopped a f stage es course a' f') {k : Ingredient}
    (hi : (f.ready.get k).Idle) : (f'.ready.get k).Idle := by
  cases h with
  | failed _ h | supplied h | announced h | closed h =>
      rw [h.frame.1]
      exact hi
  | called | released | left => exact Factory.idle_signalIngredients _ hi
  | completed | heeded | drew | forwent | passed | queued | cancelled | abandoned | refused =>
      exact hi

theorem Step.idle_cigarette (h : Step w stopped a f stage es course a' f') (hs : f.cigarette.Sole w)
    (hi : stage ≠ .awaiting → f.cigarette.Idle) (hc : course ≠ .ok .awaiting) :
    f'.cigarette.Idle := by
  cases h with
  | failed hsec h =>
      rw [h.frame.2]
      exact hi (by rintro rfl; simp [section?] at hsec)
  | announced | queued => exact absurd rfl hc
  | supplied h | closed h =>
      rw [h.frame.2]
      exact hi (by simp)
  | passed h | refused h => exact hs.idle_poll h (by simp)
  | cancelled => exact hs.idle_cancel
  | abandoned _ h =>
      have hq := hs.poll
      rw [h] at hq
      exact hq.idle_cancel
  | completed | heeded | drew | called | forwent | released | left => exact hi (by simp)

end Agent

theorem Agent.Stage.tally_released (course : Except Failure Stage) (k : Ingredient) :
    tally (released k) course ≤ 1 ∧
      (tally (released k) course = 1 → ∃ stage, course = .ok stage ∧ stage.hasClosed = true) := by
  cases course with
  | error e => simp
  | ok stage =>
      cases stage with
      | releasing j =>
          simp only [tally_ok, released]
          split <;> simp [hasClosed]
      | gone => simp [released, hasClosed]
      | _ => simp [released]

namespace Run

variable {L : Type}

/-- Only an actor that stands before its semaphore has a place or a permit there. -/
structure Quiet (r : Run L) : Prop where
  ready : ∀ k, (r.smokers.get k).course ≠ .ok .awaiting → (r.factory.ready.get k).Idle
  cigarette : r.agent.course ≠ .ok .awaiting → r.factory.cigarette.Idle

theorem quiet_start (seed : UInt64) (n : Nat) (delay : DelayModel) (log : L) :
    Quiet (start seed n delay log) := by
  constructor <;> simp [start, Semaphore.Idle]

/-- What the agent makes of stop requests, also in a run where something goes wrong. -/
def Heeds (n : Nat) (r : Run L) : Prop := ∀ stage, r.agent.course = .ok stage →
  Agent.Heeded r.stop.requested r.agent.agent.summary.interrupted r.agent.agent.summary.rounds n stage

section

variable [StateLog L] {n : Nat} {es fs : List Event} {r r' : Run L}

theorem Quiet.moves (h : Quiet r) (hb : Balanced n es r) (hw : Watched r) (hm : Moves r fs r') :
    Quiet r' := by
  cases hm with
  | @smoker k stage _ course s f _ hc _ hst =>
      have hk : (r.smokers.get k).smoker.holds = k := hb.holds k
      obtain ⟨hne, -, -⟩ := hst.uses
      have hidle := hst.idle (by simpa only [hk] using hw.ready k)
        (fun hs => by simpa only [hk] using h.ready k (by simpa [hc] using hs))
      rw [hk] at hne hidle
      rw [noteEnd_eq]
      refine ⟨fun j hj => ?_, fun ha => hst.idle_cigarette (h.cigarette ha)⟩
      by_cases hjk : j = k
      · subst hjk
        exact hidle (by simpa using hj)
      · rw [hne j hjk]
        exact h.ready j (by simpa [hjk] using hj)
  | agent _ hc _ hst =>
      rw [noteEnd_eq]
      exact ⟨fun k hk => hst.idle (h.ready k hk), fun ha => hst.idle_cigarette hw.cigarette
        (fun hs => h.cigarette (by simpa [hc] using hs)) ha⟩
  | smokerReported | agentReported | stopped | abandoned => exact ⟨h.ready, h.cigarette⟩
  | failed =>
      refine ⟨fun k hk => ?_, fun ha => ?_⟩
      · simp only
        split
        · exact h.ready k hk
        · simpa [Factory.destroy] using (h.ready k hk).close
      · simp only
        split
        · exact h.cigarette ha
        · exact (h.cigarette ha).close

theorem Quiet.of_start {r₀ : Run L} (h₀ : Quiet r₀) (hb : Balanced n [] r₀) (hw : Watched r₀)
    (h : Reaches r₀ es r) : Quiet r := by
  induction h with
  | refl => exact h₀
  | step hr hs ih => exact ih.moves (hb.of_start hr) (hw.of_start hb hr) hs.moves
  | overtake _ _ ih => exact ⟨ih.ready, ih.cigarette⟩

theorem Heeds.moves (h : Heeds n r) (hb : Balanced n es r) (hm : Moves r fs r') : Heeds n r' := by
  cases hm with
  | smoker =>
      rw [noteEnd_eq]
      exact h
  | agent _ hc _ hst =>
      rw [noteEnd_eq]
      rintro stage ⟨⟩
      have hexpects := hb.expects
      have hrounds := (hst.effect fun k hk => hb.supply_fits (hk ▸ hc)).rounds
      rw [hc, ← hb.rounds] at hexpects
      simp only
      rw [← hb.rounds, ← hrounds]
      exact hst.advance.heeded _ hexpects (hb.rounds ▸ h _ hc)
  | smokerReported | agentReported | failed | abandoned => exact h
  | stopped =>
      intro stage hc
      have hheeded := h stage hc
      cases stage <;> first | exact hheeded | exact ⟨hheeded.1, fun _ => rfl⟩

theorem Heeds.of_start {r₀ : Run L} (h₀ : Heeds n r₀) (hb : Balanced n [] r₀) (h : Reaches r₀ es r) :
    Heeds n r := by
  induction h with
  | refl => exact h₀
  | step hr hs ih => exact ih.moves (hb.of_start hr) hs.moves
  | overtake _ _ ih => exact ih

end

namespace Balanced

variable {n : Nat} {es : List Event} {r : Run L}

theorem ready_le (h : Balanced n es r) (k : Ingredient) : (r.factory.ready.get k).permits ≤ 2 := by
  have hcalls := h.calls k
  have huntaken := h.untaken_le k
  have := (Agent.Stage.tally_released r.agent.course k).1
  simp only [Event.untaken] at huntaken
  omega

/-- A smoker has been called twice over: the agent gave up the round of its supply. -/
theorem closed_of_ready_eq_two (h : Balanced n es r) (hh : Heeds n r) {k : Ingredient}
    (hk : (r.factory.ready.get k).permits = 2) : r.factory.table.closing = true ∧
      r.agent.agent.summary.interrupted = true ∧ r.stop.requested = true := by
  have hcalls := h.calls k
  have huntaken := h.untaken_le k
  have hreleased := Agent.Stage.tally_released r.agent.course k
  have hnotices := h.notices
  have hexpects := h.expects
  have hrounds := h.supplies_le_rounds
  simp only [Event.untaken] at huntaken
  obtain ⟨stage, hc, hclosed⟩ := hreleased.2 (by omega)
  have hone : supplies es k = servings es k + 1 := by omega
  have hlt : ∑ j, servings es j < ∑ j, supplies es j :=
    Finset.sum_lt_sum (fun j _ => h.served j) ⟨k, Finset.mem_univ k, by omega⟩
  have hheeded := hh stage hc
  have hdone : r.agent.agent.summary.rounds < n := by omega
  rw [h.closing stage hc]
  cases stage <;> cases hclosed <;>
    exact ⟨rfl, hheeded.1.2 hdone, hheeded.2 (hheeded.1.2 hdone)⟩

theorem supplies_le_done (h : Balanced n es r) :
    ∑ k, supplies es k ≤ r.agent.agent.summary.rounds + 1 := by
  have hexpects := h.expects
  unfold Agent.Expects at hexpects
  split at hexpects <;> omega

theorem cigarette_le (h : Balanced n es r) : r.factory.cigarette.permits ≤ 1 := by
  have hnotices := h.notices
  have hserved := h.servings_le_supplies
  have hdone := h.supplies_le_done
  omega

/-- While the factory is open one permit goes round: a call, or a notice. -/
theorem sum_permits_le (h : Balanced n es r) (ho : r.factory.table.closing = false) :
    ∑ k, (r.factory.ready.get k).permits + r.factory.cigarette.permits ≤ 1 := by
  have hcalls : ∑ k, (r.factory.ready.get k).permits + ∑ k, servings es k ≤ ∑ k, supplies es k := by
    rw [← Finset.sum_add_distrib]
    refine Finset.sum_le_sum fun k _ => ?_
    have := h.calls k
    have := h.released_eq_zero ho k
    omega
  have hnotices := h.notices
  have hdone := h.supplies_le_done
  omega

variable [StateLog L]

/-- A wait that is given up for a stop request leaves every permit in the bank. -/
theorem cancelled_banked {r' : Run L} {fs : List Event} (hc : r.agent.course = .ok .awaiting)
    (hm : Moves r fs r') (hc' : r'.agent.course = .ok .closing) (hq : Quiet r') :
    r'.factory.cigarette.banked = r.factory.cigarette.permits := by
  rw [← (hq.cigarette (by simp [hc'])).permits]
  cases hm with
  | smoker => simp [noteEnd_eq, hc] at hc'
  | smokerReported | agentReported | failed | stopped | abandoned =>
      exact absurd (hc.symm.trans hc') (by simp)
  | agent _ hstage _ hst =>
      rw [noteEnd_eq] at hc' ⊢
      obtain rfl := Except.ok.inj (hstage.symm.trans hc)
      obtain rfl : _ = Except.ok Agent.Stage.closing := hc'
      cases hst with
      | cancelled => simp [Factory.cancelCigarette]
      | abandoned _ h => simpa using (Semaphore.pending_permits h).1

end Balanced

/-- How many permits are left when a run has ended in which nothing went wrong. -/
theorem Faultless.left_over {n : Nat} {es : List Event} {r : Run L} (h : Faultless n es r)
    (hb : Balanced n es r) (hq : Quiet r) (hf : r.finished = true) :
    (∀ k, (r.factory.ready.get k).banked + (r.smokers.get k).smoker.smoked =
      r.agent.agent.summary.supplied.get k) ∧
    r.factory.cigarette.banked + r.agent.agent.summary.rounds =
      ∑ k, (r.smokers.get k).smoker.smoked := by
  obtain ⟨ha, hk⟩ := h.gone_of_finished hf
  have hsmoked : ∀ k, (r.smokers.get k).smoker.smoked = servings es k := by
    intro k
    simpa [h.smoked, Smoker.Stage.uncounted] using hb.counted_exact k .gone (hk k)
  constructor
  · intro k
    have hcalls := hb.calls_exact h.sound k
    rw [← (hq.ready k (by simp [hk])).permits, hsmoked, h.supplied]
    simp only [ha, hk, tally_ok, Agent.Stage.calls, Agent.Stage.released, Smoker.Stage.called,
      Smoker.Stage.departed] at hcalls
    omega
  · have hnotices := hb.notices_exact h.sound
    rw [← (hq.cigarette (by simp [ha])).permits]
    simp only [hk, tally_ok, Smoker.Stage.untold, Finset.sum_const_zero] at hnotices
    simp only [hsmoked]
    omega

variable [StateLog L]

/-- The wake-ups balance: while a run goes on, whatever the log does, one permit is about, and after
a stop request, once the factory is closing, no more than two for a smoker. A wait that is given up
returns its permit. A run in which nothing went wrong leaves the calls that were not answered and the
notices that were not heard, and none unless it was interrupted. -/
theorem wake_ups_balance (seed rounds : UInt64) (delay : DelayModel) (log : L) {es : List Event}
    {r : Run L} (h : (start seed rounds.toNat delay log).Reaches es r) :
    (∀ k, (r.factory.ready.get k).permits ≤ 2 ∧ ((r.factory.ready.get k).permits = 2 →
      r.factory.table.closing = true ∧ r.agent.agent.summary.interrupted = true ∧ r.stop.requested = true)) ∧
    r.factory.cigarette.permits ≤ 1 ∧
    (r.factory.table.closing = false →
      ∑ k, (r.factory.ready.get k).permits + r.factory.cigarette.permits ≤ 1) ∧
    (∀ fs r', r.agent.course = .ok .awaiting → Step r fs r' → r'.agent.course = .ok .closing →
      r'.factory.cigarette.banked = r.factory.cigarette.permits) ∧
    (Event.fault ∉ es → (∀ c, c.isInside = true → r.allows c = false) →
      (∀ k, (r.factory.ready.get k).banked + (r.smokers.get k).smoker.smoked =
        r.agent.agent.summary.supplied.get k) ∧
      r.factory.cigarette.banked + r.agent.agent.summary.rounds =
        ∑ k, (r.smokers.get k).smoker.smoked ∧
      (∀ k, (r.factory.ready.get k).Idle) ∧ r.factory.cigarette.Idle ∧
      (r.agent.agent.summary.interrupted = false →
        (∀ k, r.factory.ready.get k = {}) ∧ r.factory.cigarette = {})) := by
  have h₀ := balanced_start seed rounds.toNat delay log
  have hw₀ := watched_start seed rounds.toNat delay log
  have hq₀ := quiet_start seed rounds.toNat delay log
  have hb := h₀.of_start h
  have hh : Heeds rounds.toNat r := Heeds.of_start (by simp [Heeds, start, Agent.Heeded]) h₀ h
  refine ⟨fun k => ⟨hb.ready_le k, hb.closed_of_ready_eq_two hh⟩, hb.cigarette_le, hb.sum_permits_le,
    fun fs r' hc hs hc' => Balanced.cancelled_banked hc hs.moves hc' (hq₀.of_start h₀ hw₀ (h.step hs)),
    fun hfault hend => ?_⟩
  have hr := (faultless_start seed _ delay log).of_start h₀ hw₀ rounds.toNat_lt_size h hfault
  have hw := hw₀.of_start h₀ h
  have hq := hq₀.of_start h₀ hw₀ h
  have hf : r.finished = true := hb.finished_of_stuck hw (stuck_of_allows hend)
  obtain ⟨ha, hk⟩ := hr.gone_of_finished hf
  obtain ⟨hcalls, hnotices⟩ := hr.left_over hb hq hf
  have hready : ∀ k, (r.factory.ready.get k).Idle := fun k => hq.ready k (by simp [hk])
  have hcigarette : r.factory.cigarette.Idle := hq.cigarette (by simp [ha])
  refine ⟨hcalls, hnotices, hready, hcigarette, fun hi => ?_⟩
  -- Without an interruption the rounds done are the rounds begun, so that nothing can be left.
  have hrounds : rounds.toNat ≤ r.agent.agent.summary.rounds := by
    by_contra hlt
    simp [(hh .gone ha).1.2 (by omega)] at hi
  have hle : ∑ k, (r.smokers.get k).smoker.smoked ≤ ∑ k, r.agent.agent.summary.supplied.get k :=
    Finset.sum_le_sum fun k _ => by have := hcalls k; omega
  have hsum : ∑ k, r.agent.agent.summary.supplied.get k ≤ rounds.toNat := by
    simpa only [hr.supplied] using hb.supplies_le_rounds
  have hclosed : r.factory.cigarette.closed = false := hr.destroyed
  refine ⟨fun k => (hready k).eq_fresh ?_ ((hw.closed k).trans hclosed),
    hcigarette.eq_fresh (by omega) hclosed⟩
  have hall := (Finset.sum_eq_sum_iff_of_le fun k _ => by have := hcalls k; omega).1
    (show ∑ k, (r.smokers.get k).smoker.smoked = ∑ k, r.agent.agent.summary.supplied.get k by omega)
    k (Finset.mem_univ k)
  have := hcalls k
  omega

/-- The run of `abandoned` up to where the smoker that was called is called again for the closing. -/
def calledTwice : List Event × Run (Observer Recorder) :=
  follow (abandonment.take 7) (drawn { inner := {} })

theorem wake_ups_balance_calledTwice :
    ((calledTwice.2.factory.ready.get .paper).permits = 2 ∧
      calledTwice.2.agent.agent.summary.interrupted = true) ∧
    (abandoned.2.factory.ready.get .paper).banked = 1 ∧
      (abandoned.2.factory.ready.get .paper).banked + (abandoned.2.smokers.get .paper).smoker.smoked =
        abandoned.2.agent.agent.summary.supplied.get .paper := by
  have hcalled : (start 1 (1 : UInt64).toNat {} { inner := ({} : Recorder) }).Reaches
      calledTwice.1 calledTwice.2 := reaches_drawn _ (abandonment.take 7)
  have hended : (start 1 (1 : UInt64).toNat {} { inner := ({} : Recorder) }).Reaches
      abandoned.1 abandoned.2 := reaches_drawn _ abandonment
  have htwo : (calledTwice.2.factory.ready.get .paper).permits = 2 := by decide +kernel
  obtain ⟨hf, hfault, hone⟩ : abandoned.2.finished = true ∧ Event.fault ∉ abandoned.1 ∧
      (abandoned.2.factory.ready.get .paper).banked = 1 := by decide +kernel
  obtain ⟨hready, -⟩ := wake_ups_balance 1 1 {} _ hcalled
  obtain ⟨-, -, -, -, hleft⟩ := wake_ups_balance 1 1 {} _ hended
  exact ⟨⟨htwo, ((hready .paper).2 htwo).2.1⟩, hone,
    (hleft hfault fun _ => not_allows_of_finished hf).1 .paper⟩

end Run

end CigaretteSmokers
