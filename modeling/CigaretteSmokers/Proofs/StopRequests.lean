import CigaretteSmokers.Proofs.Chronicle
import CigaretteSmokers.Proofs.Failures

/-!
What becomes of a stop request, whenever it comes and however the agent's choices between the request
and a cigarette fall out: at most one supply more, and then the closing, once.
-/

namespace CigaretteSmokers

open Event (deeds supplies)

namespace Agent

/-- Those whom the agent has woken for the closing when it comes to a stage. -/
def Stage.woken : Stage → List Ingredient
  | .releasing k => Ingredient.all.take k.index
  | .gone => Ingredient.all
  | _ => []

/-- Whom the agent wakes for the closing at a stage. -/
def Stage.wakes : Stage → List Ingredient
  | .releasing k => [k]
  | _ => []

/-- One for an agent that has made up its mind to lay out. -/
def Stage.layingOut : Stage → Nat
  | .supplying _ => 1
  | _ => 0

def woken : Except Failure Stage → List Ingredient
  | .ok stage => stage.woken
  | .error _ => []

variable {ω L : Type} [DecidableEq ω] [StateLog L] {w : ω} {stopped : Bool} {a a' : Agent}
  {f f' : Factory ω L} {stage : Stage} {course : Except Failure Stage} {es : List Event}

theorem Step.closings (h : Step w stopped a f stage es course a' f') {next : Stage}
    (hc : course = .ok next) : stage.closings + Event.times .closed es = next.closings := by
  cases h with
  | failed | refused => cases hc
  | supplied h | announced h | closed h =>
      obtain ⟨-, -, rfl⟩ := h.of_ok
      cases hc
      simp [Stage.closings, Stage.hasClosed]
  | completed | heeded | drew | called | forwent | passed | queued | cancelled | abandoned
  | released | left => cases hc; rfl

theorem Step.woken (h : Step w stopped a f stage es course a' f') :
    stage.woken ++ stage.wakes = woken course := by
  cases h with
  | failed hs => rcases section?_eq hs with ⟨k, rfl, -⟩ | ⟨rfl, -⟩ | ⟨rfl, -⟩ <;> rfl
  | @released j k hk | @left j hk => cases j <;> cases hk <;> rfl
  | completed | heeded | drew | supplied | called | forwent | announced | passed | queued | cancelled
  | abandoned | refused | closed => rfl

/-- Under a stop request the agent does not make up its mind to lay out. -/
theorem Step.layingOut (h : Step w true a f stage es course a' f') :
    ∑ k, supplies es k + tally Stage.layingOut course ≤ stage.layingOut := by
  have hcourse : tally Stage.layingOut course = 0 := by
    cases h with
    | drew _ hs | queued hs => cases hs
    | failed | completed | heeded | supplied | called | forwent | announced | passed | cancelled
    | abandoned | refused | closed | released | left => rfl
  rw [hcourse, Nat.add_zero]
  have hcount : ∀ k, supplies es k = (Event.deeds es).count (.supplied k) := fun _ => rfl
  rcases h.deeds with hes | ⟨k, rfl, hes⟩ | ⟨rfl, hes⟩ | ⟨rfl, hes⟩
  · simp [hcount, hes]
  · simp [hcount, hes, List.count_singleton, Stage.layingOut]
  · simp [hcount, hes]
  · simp [hcount, hes]

/-- The agent signals a smoker's semaphore when it calls it to a supply or wakes it for the closing,
and leaves all of them alone otherwise. -/
theorem Step.signals (h : Step w stopped a f stage es course a' f') :
    (∃ k, (stage = .calling k ∨ stage = .releasing k) ∧ f' = f.signalIngredients k) ∨
      (stage.wakes = [] ∧ f'.ready = f.ready) := by
  cases h with
  | called => exact .inl ⟨_, .inl rfl, rfl⟩
  | released | left => exact .inl ⟨_, .inr rfl, rfl⟩
  | failed hs h =>
      rcases section?_eq hs with ⟨k, rfl, -⟩ | ⟨rfl, -⟩ | ⟨rfl, -⟩ <;> exact .inr ⟨rfl, h.frame.1⟩
  | supplied h | announced h | closed h => exact .inr ⟨rfl, h.frame.1⟩
  | completed | heeded | drew | forwent | passed | queued | cancelled | abandoned | refused =>
      exact .inr ⟨rfl, rfl⟩

end Agent

/-- A smoker signals no smoker's semaphore. -/
theorem Smoker.Step.ready_permits_le {ω L : Type} [DecidableEq ω] [StateLog L] {w : ω} {s s' : Smoker}
    {f f' : Factory ω L} {stage : Stage} {course : Except Failure Stage} {es : List Event}
    (h : Step w s f stage es course s' f') (k : Ingredient) :
    (f'.ready.get k).permits ≤ (f.ready.get k).permits := by
  have hpoll : ∀ {reply q}, (f.ready.get s.holds).poll w = (reply, q) →
      ((f.ready.set s.holds q).get k).permits ≤ (f.ready.get k).permits := by
    intro reply q hq
    by_cases hk : k = s.holds
    · subst hk
      have hle := (f.ready.get s.holds).permits_poll_le w
      rw [hq] at hle
      simpa using hle
    · simp [hk]
  cases h with
  | failed _ h | arrived h | served h | left h | lacked h | rolled _ h | lit _ h | dozed _ h | finished h =>
      rw [h.frame.1]
  | called h | queued h | refused h => exact hpoll h
  | told | overslept | rested | smoked => exact Nat.le_refl _

/-- What a smoker does at the table is its own affair: it neither lays out nor closes. -/
theorem Smoker.Step.deeds {ω L : Type} [DecidableEq ω] [StateLog L] {w : ω} {s s' : Smoker}
    {f f' : Factory ω L} {stage : Stage} {course : Except Failure Stage} {es : List Event}
    (h : Step w s f stage es course s' f') {d : Deed} (hd : d ∈ deeds es) :
    d.smoker? = some s.holds := by
  cases h with
  | failed hs h =>
      rcases h.deeds with hnil | ⟨c, hc, hes⟩
      · simp [hnil] at hd
      · obtain rfl : d = c := by simpa [hes] using hd
        rw [Deed.smoker?, hc, smoker?_of_section? hs]
  | arrived h | served h | left h | lacked h | rolled _ h | lit _ h | dozed _ h | finished h =>
      obtain ⟨-, -, rfl⟩ := h.of_ok
      obtain rfl := by simpa [Event.deeds, Event.deed?] using hd
      rfl
  | called | queued | refused | overslept | rested | told | smoked =>
      simp [Event.deeds, Event.deed?] at hd

namespace Run

variable {L : Type}

/-- The smokers whose semaphores are signalled on the way from `r` to `r'` with the factory closing, as
the semaphores themselves tell. -/
def signalled (r r' : Run L) : List Ingredient :=
  Ingredient.all.filter fun k =>
    r.factory.table.closing = true ∧ r'.factory.ready.get k = (r.factory.ready.get k).signal

/-- As `Reaches`, with those whose semaphores are signalled with the factory closing, in turn. -/
inductive Unfolds [StateLog L] (r : Run L) : List Event → List Ingredient → Run L → Prop
  | refl : Unfolds r [] [] r
  | step {es ks fs u v} (h : Unfolds r es ks u) (hs : Step u fs v) :
      Unfolds r (es ++ fs) (ks ++ u.signalled v) v
  | overtake {es ks u order} (h : Unfolds r es ks u) (ho : order.Perm u.ended) :
      Unfolds r es ks { u with ended := order }

theorem signalled_eq_nil {r r' : Run L} (h : r.factory.table.closing = true →
    ∀ k, (r'.factory.ready.get k).permits ≤ (r.factory.ready.get k).permits) : r.signalled r' = [] := by
  refine List.filter_eq_nil_iff.2 fun k _ hk => ?_
  obtain ⟨hc, hsignal⟩ := of_decide_eq_true hk
  exact Semaphore.ne_signal (h hc k) hsignal

theorem signalled_signalIngredients {r r' : Run L} {k : Ingredient} (hc : r.factory.table.closing = true)
    (hf : r'.factory = r.factory.signalIngredients k) : r.signalled r' = [k] := by
  have hiff : ∀ j, r'.factory.ready.get j = (r.factory.ready.get j).signal ↔ j = k := by
    intro j
    by_cases hj : j = k
    · subst hj
      simp [hf, Factory.signalIngredients]
    · simpa [hf, Factory.signalIngredients, hj] using Semaphore.ne_signal (Nat.le_refl _)
  simp only [signalled, hc, hiff, true_and]
  cases k <;> rfl

/-- Nothing is laid out after the closing, which comes once, and those that have been woken for it are
those that should have been by now. -/
structure InOrder (es : List Event) (ks : List Ingredient) (r : Run L) : Prop where
  deeds : (deeds es).Pairwise fun c d => c = .closed → d ≠ .closed ∧ ∀ k, d ≠ .supplied k
  closings : ∀ stage, r.agent.course = .ok stage → Event.times .closed es = stage.closings
  woken : ks = Agent.woken r.agent.course

variable {n : Nat} {es fs : List Event} {ks ls : List Ingredient} {r r' u v : Run L}

theorem InOrder.aside (h : InOrder es ks r) (ha : r'.agent = r.agent)
    (hfs : ∀ d ∈ Event.deeds fs, ∃ k, d.smoker? = some k) : InOrder (es ++ fs) ks r' := by
  have hdeed : ∀ d ∈ Event.deeds fs, d ≠ .closed ∧ ∀ k, d ≠ .supplied k := by
    intro d hd
    obtain ⟨k, hk⟩ := hfs d hd
    refine ⟨?_, fun j => ?_⟩
    all_goals
      rintro rfl
      cases hk
  refine ⟨?_, fun stage hc => ?_, by rw [ha]; exact h.woken⟩
  · rw [Event.deeds_append, List.pairwise_append]
    exact ⟨h.deeds, List.pairwise_of_forall_mem_list fun _ _ d hd _ => hdeed d hd,
      fun _ _ d hd _ => hdeed d hd⟩
  · have hnone : Event.times .closed fs = 0 := Event.times_eq_zero.2 fun hmem => (hdeed _ hmem).1 rfl
    rw [Event.times_append, hnone, Nat.add_zero]
    exact h.closings stage (ha ▸ hc)

theorem InOrder.still (h : InOrder es ks r) (ha : r'.agent = r.agent) : InOrder es ks r' := by
  have h' : InOrder (es ++ []) ks r' := h.aside ha (by simp [Event.deeds])
  rwa [List.append_nil] at h'

variable [StateLog L]

theorem InOrder.agent (h : InOrder es ks r) {stage : Agent.Stage} {course : Except Failure Agent.Stage}
    {a : Agent} {f : Factory Actor L} (hc : r.agent.course = .ok stage)
    (hst : Agent.Step .agent r.stop.requested r.agent.agent r.factory stage fs course a f)
    (hr : r'.agent.course = course) : InOrder (es ++ fs) (ks ++ stage.wakes) r' := by
  refine ⟨?_, fun next hnext => ?_, ?_⟩
  · rw [Event.deeds_append, List.pairwise_append]
    refine ⟨h.deeds, ?_, ?_⟩
    · rcases hst.deeds with hfs | ⟨k, -, hfs⟩ | ⟨-, hfs⟩ | ⟨-, hfs⟩ <;> simp [hfs]
    · -- An agent that has closed the factory does not go to the table again.
      rintro _ hmem d hd rfl
      have hclosed : 0 < stage.closings := h.closings stage hc ▸ Event.times_pos.2 hmem
      rcases hst.deeds with hfs | ⟨k, rfl, -⟩ | ⟨rfl, -⟩ | ⟨rfl, -⟩
      · simp [hfs] at hd
      all_goals simp [Agent.Stage.closings, Agent.Stage.hasClosed] at hclosed
  · rw [Event.times_append, h.closings stage hc]
    exact hst.closings (hr ▸ hnext)
  · rw [hr, ← hst.woken, h.woken, hc]
    rfl

/-- With the factory closing, the agent signals those whom it wakes for the closing. -/
theorem Balanced.signalled_agent (hb : Balanced n es r) {stage : Agent.Stage}
    {course : Except Failure Agent.Stage} {a : Agent} (hc : r.agent.course = .ok stage)
    (hst : Agent.Step .agent r.stop.requested r.agent.agent r.factory stage fs course a r'.factory) :
    r.signalled r' = stage.wakes := by
  have hclosing := hb.closing stage hc
  rcases hst.signals with ⟨k, rfl | rfl, hf⟩ | ⟨hnone, hf⟩
  · exact signalled_eq_nil fun h => by simp [hclosing, Agent.Stage.hasClosed] at h
  · exact signalled_signalIngredients hclosing hf
  · rw [hnone]
    exact signalled_eq_nil fun _ k => by rw [hf]

omit [StateLog L] in
theorem InOrder.aloof (h : InOrder es ks r) (ha : r'.agent = r.agent)
    (hp : ∀ k, (r'.factory.ready.get k).permits ≤ (r.factory.ready.get k).permits) :
    InOrder (es ++ []) (ks ++ r.signalled r') r' := by
  rw [signalled_eq_nil fun _ => hp, List.append_nil, List.append_nil]
  exact h.still ha

theorem InOrder.moves (h : InOrder es ks r) (hb : Balanced n es r) (hm : Moves r fs r') :
    InOrder (es ++ fs) (ks ++ r.signalled r') r' := by
  cases hm with
  | smoker _ _ _ hst =>
      rw [noteEnd_eq, signalled_eq_nil fun _ => hst.ready_permits_le, List.append_nil]
      exact h.aside rfl fun d hd => ⟨_, hst.deeds hd⟩
  | agent _ hc _ hst =>
      rw [noteEnd_eq, hb.signalled_agent hc hst]
      exact h.agent hc hst rfl
  | smokerReported | agentReported | stopped | abandoned => exact h.aloof rfl fun _ => Nat.le_refl _
  | failed =>
      refine h.aloof rfl fun k => ?_
      simp only
      split
      · exact Nat.le_refl _
      · simp [Factory.destroy]

theorem Unfolds.reaches (h : Unfolds r es ks v) : Reaches r es v := by
  induction h with
  | refl => exact .refl
  | step _ hs ih => exact ih.step hs
  | overtake _ ho ih => exact ih.overtake ho

theorem Unfolds.trans (h : Unfolds r es ks u) (h' : Unfolds u fs ls v) :
    Unfolds r (es ++ fs) (ks ++ ls) v := by
  induction h' with
  | refl => simpa only [List.append_nil] using h
  | step _ hs ih => simpa only [List.append_assoc] using ih.step hs
  | overtake _ ho ih => exact ih.overtake ho

theorem InOrder.of_start (h₀ : InOrder [] [] r) (hb : Balanced n [] r) (h : Unfolds r es ks v) :
    InOrder es ks v := by
  induction h with
  | refl => exact h₀
  | step h hs ih => exact ih.moves (hb.of_start h.reaches) hs.moves
  | overtake _ _ ih => exact ih.still rfl

theorem Moves.layingOut (hm : Moves r fs r') (hs : r.stop.requested = true) : r'.stop.requested = true ∧
    ∑ k, supplies fs k + tally Agent.Stage.layingOut r'.agent.course ≤
      tally Agent.Stage.layingOut r.agent.course := by
  cases hm with
  | smoker _ _ _ hst =>
      have hnone : ∀ j, supplies fs j = 0 := fun j => Event.times_eq_zero.2 fun hmem => by
        cases hst.deeds hmem
      rw [noteEnd_eq]
      exact ⟨hs, by simp [hnone]⟩
  | agent _ hc _ hst =>
      rw [hs] at hst
      rw [noteEnd_eq, hc]
      exact ⟨hs, hst.layingOut⟩
  | smokerReported | agentReported | failed | abandoned =>
      have hsilent : ∑ k, supplies [] k = 0 := by simp [supplies]
      rw [hsilent, Nat.zero_add]
      exact ⟨hs, Nat.le_refl _⟩
  | stopped hno => simp [hs] at hno

/-- Under a stop request only a supply that the agent has made up its mind to is laid out. -/
theorem Reaches.layingOut (h : Reaches r fs v) (hs : r.stop.requested = true) : v.stop.requested = true ∧
    ∑ k, supplies fs k + tally Agent.Stage.layingOut v.agent.course ≤
      tally Agent.Stage.layingOut r.agent.course := by
  induction h with
  | refl => exact ⟨hs, by simp [supplies]⟩
  | step _ hstep ih =>
      obtain ⟨hstopped, hle⟩ := hstep.moves.layingOut ih.1
      refine ⟨hstopped, ?_⟩
      simp only [Event.supplies_append, Finset.sum_add_distrib]
      have := ih.2
      omega
  | overtake _ _ ih => exact ih

/-- The stop is requested when the agent has made up its mind to lay out. -/
def resolved : List Event × Run Recorder :=
  follow [.act .agent false] (start 1 (2 : UInt64).toNat {} {})

end Run

end CigaretteSmokers
