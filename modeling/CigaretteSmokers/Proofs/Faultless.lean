import CigaretteSmokers.Proofs.Progress

/-!
Runs in which no save and no delay fails. Nobody fails then, so that what the actors count of
themselves agrees with the table and with what the log was given.
-/

namespace CigaretteSmokers

open Event (supplies servings untaken snapshots)

namespace Smoker

variable {ω L : Type}

/-- How many snapshots a smoker has given since its last full cycle. -/
def Stage.ahead : Stage → Nat
  | .awaiting | .collecting => 1
  | .gone => 2
  | _ => 0

/-- How many snapshots a smoker owes to the cycle of the cigarette under way. -/
def Stage.behind : Stage → Nat
  | .starting => 3
  | .rolling _ | .telling | .lighting => 2
  | .smoking _ | .finishing => 1
  | _ => 0

/-- What a step of the smoker that holds `k` does to its own count, to the status slots and to the
number of snapshots, when it goes well. -/
structure Advance (k : Ingredient) (s s' : Smoker) (f f' : Factory ω L) (stage next : Stage)
    (es : List Event) : Prop where
  poisoned : f'.poisoned = f.poisoned
  smoked : s'.smoked + (f.table.cigarettes.get k).toNat = s.smoked + (f'.table.cigarettes.get k).toNat
  smokers_ne : ∀ j, j ≠ k → f'.table.smokers.get j = f.table.smokers.get j
  left : next = .gone → f'.table.smokers.get k = .closing
  agent : f'.table.agent = f.table.agent
  announced : Event.times .announced es = 0
  snapshots : (snapshots es).length + stage.ahead + next.behind =
    5 * servings es k + next.ahead + stage.behind

variable [StateLog L] [DecidableEq ω]

theorem Step.advance {w : ω} {s s' : Smoker} {f f' : Factory ω L} {stage next : Stage}
    {es : List Event} (h : Step w s f stage es (.ok next) s' f') :
    Advance s.holds s s' f f' stage next es := by
  cases h with
  | arrived h | served h | left h | rolled _ h | lit _ h | finished h =>
      obtain ⟨-, hd, rfl⟩ := h.of_ok
      constructor
      case poisoned => exact h.poisoned_of_ok
      case smokers_ne => intro j hj; simp [hd.smokers, Deed.smokersAfter, hj]
      case smoked =>
        simp only [hd.cigarettes, Deed.counted, if_true]
        omega
      case agent => exact hd.agent
      all_goals simp [hd.smokers, Deed.smokersAfter, servings, Stage.ahead, Stage.behind]
  | called | queued | rested | told | smoked =>
      constructor <;>
        simp [Factory.signalCigarette, servings, Stage.ahead, Stage.behind]

end Smoker

namespace Agent

variable {ω L : Type}

/-- How often an agent that counts `done` rounds has announced its wait. Of the round that it gives
up for a stop request it may or may not have. -/
def Announced (done announced total : Nat) : Stage → Prop
  | .choosing | .supplying _ | .calling _ | .announcing => announced = done
  | .awaiting => announced = done + 1
  | .closing | .releasing _ | .gone => done ≤ announced ∧ announced ≤ total

/-- Whether an agent that counts `done` of `rounds` rounds has been interrupted. -/
def Heeded (stopped interrupted : Bool) (done rounds : Nat) : Stage → Prop
  | .choosing | .supplying _ | .calling _ | .announcing | .awaiting => interrupted = false
  | .closing | .releasing _ | .gone =>
      (interrupted = true ↔ done < rounds) ∧ (interrupted = true → stopped = true)

def Stage.closings (stage : Stage) : Nat := stage.hasClosed.toNat

/-- What a step of the agent does to its summary, to the status slots and to the number of
snapshots, when it goes well. -/
structure Advance (stopped : Bool) (a a' : Agent) (f f' : Factory ω L) (stage next : Stage)
    (es : List Event) : Prop where
  poisoned : f'.poisoned = f.poisoned
  supplied : ∀ k, a'.summary.supplied.get k = a.summary.supplied.get k + supplies es k
  smokers : f'.table.smokers = f.table.smokers
  closed : (stage.hasClosed = true → f.table.agent = .closing) →
    next.hasClosed = true → f'.table.agent = .closing
  announced : ∀ n total, Expects a.summary.rounds a.rounds total (.ok stage) →
    Announced a.summary.rounds n total stage →
      Announced a'.summary.rounds (n + Event.times .announced es) (total + ∑ k, supplies es k) next
  heeded : ∀ total, Expects a.summary.rounds a.rounds total (.ok stage) →
    Heeded stopped a.summary.interrupted a.summary.rounds a.rounds stage →
      Heeded stopped a'.summary.interrupted a'.summary.rounds a'.rounds next
  snapshots : (snapshots es).length + stage.closings =
    ∑ k, supplies es k + Event.times .announced es + next.closings

theorem Advance.of_still {stopped : Bool} {a a' : Agent} {f f' : Factory ω L} {stage next : Stage}
    (hpoisoned : f'.poisoned = f.poisoned) (htable : f'.table = f.table)
    (hsupplied : a'.summary.supplied = a.summary.supplied) (hclosed : next.hasClosed = stage.hasClosed)
    (hannounced : ∀ n total, Expects a.summary.rounds a.rounds total (.ok stage) →
      Announced a.summary.rounds n total stage → Announced a'.summary.rounds n total next)
    (hheeded : ∀ total, Expects a.summary.rounds a.rounds total (.ok stage) →
      Heeded stopped a.summary.interrupted a.summary.rounds a.rounds stage →
        Heeded stopped a'.summary.interrupted a'.summary.rounds a'.rounds next) :
    Advance stopped a a' f f' stage next [] := by
  refine ⟨hpoisoned, by simp [hsupplied, supplies], by rw [htable], ?_, ?_, hheeded, ?_⟩
  · rw [htable, hclosed]
    exact id
  · simpa [supplies] using hannounced
  · simp [supplies, Stage.closings, hclosed]

variable [StateLog L] [DecidableEq ω]

theorem Step.advance {w : ω} {stopped : Bool} {a a' : Agent} {f f' : Factory ω L}
    {stage next : Stage} {es : List Event} (h : Step w stopped a f stage es (.ok next) a' f') :
    Advance stopped a a' f f' stage next es := by
  cases h with
  | supplied h =>
      rename_i k
      obtain ⟨-, hd, rfl⟩ := h.of_ok
      have hsum : ∑ j, supplies [.entered (.supplied k) f'.table] j = 1 := by simp [supplies]
      refine ⟨h.poisoned_of_ok, fun j => ?_, hd.smokers, by simp [Stage.hasClosed], ?_, ?_, ?_⟩
      · by_cases hj : j = k
        · subst hj; simp [Agent.supplied, supplies]
        · simp [Agent.supplied, supplies, hj, Ne.symm hj]
      · intro n total _ hn
        simpa [Announced, Agent.supplied] using hn
      · intro total _ hh
        simpa [Heeded, Agent.supplied] using hh
      · simp [hsum, Stage.closings, Stage.hasClosed]
  | announced h =>
      obtain ⟨-, hd, rfl⟩ := h.of_ok
      refine ⟨h.poisoned_of_ok, by simp [supplies], hd.smokers, by simp [Stage.hasClosed], ?_, ?_, ?_⟩
      · intro n total _ hn
        simpa [Announced] using hn
      · intro total _ hh
        simpa [Heeded] using hh
      · simp [supplies, Stage.closings, Stage.hasClosed]
  | closed h =>
      obtain ⟨-, hd, rfl⟩ := h.of_ok
      refine ⟨h.poisoned_of_ok, by simp [supplies], hd.smokers, fun _ _ => hd.agent, ?_, ?_, ?_⟩
      · intro n total _ hn
        simpa [Announced, supplies] using hn
      · intro total _ hh
        simpa [Heeded] using hh
      · simp [supplies, Stage.closings, Stage.hasClosed]
  | completed hr =>
      refine .of_still rfl rfl rfl rfl (fun n total he hn => ?_) (fun total he hh => ?_)
      · simp only [Expects, Announced] at he hn ⊢
        omega
      · simp only [Heeded] at hh ⊢
        simp [hh, hr]
  | heeded hr hs =>
      refine .of_still rfl rfl rfl rfl (fun n total he hn => ?_) (fun total he hh => ?_)
      · simp only [Expects, Announced, interrupt] at he hn ⊢
        omega
      · simp only [Expects, Heeded, interrupt] at he ⊢
        simp [hs]
        omega
  | forwent hs | cancelled hs | abandoned hs h =>
      refine .of_still rfl rfl rfl rfl (fun n total he hn => ?_) (fun total he hh => ?_)
      · simp only [Expects, Announced, interrupt] at he hn ⊢
        omega
      · simp only [Expects, Heeded, interrupt] at he ⊢
        simp [hs, he]
  | drew | called | passed | queued | released | left =>
      exact .of_still rfl rfl rfl rfl (fun n total _ hn => hn) (fun total _ hh => hh)

end Agent

namespace Run

variable {L : Type}

/-- A run of `n` rounds in which nothing has gone wrong. -/
structure Faultless (n : Nat) (es : List Event) (r : Run L) : Prop where
  sound : r.Sound
  poisoned : r.factory.poisoned = false
  destroyed : r.factory.destroyed = false
  failure : r.failure = none
  smoked : ∀ k, (r.smokers.get k).smoker.smoked = (r.factory.table.cigarettes.get k).toNat
  left : ∀ k, (r.smokers.get k).course = .ok .gone → r.factory.table.smokers.get k = .closing
  closed : ∀ stage, r.agent.course = .ok stage → stage.hasClosed = true →
    r.factory.table.agent = .closing
  supplied : ∀ k, r.agent.agent.summary.supplied.get k = supplies es k
  announced : ∀ stage, r.agent.course = .ok stage →
    Agent.Announced r.agent.agent.summary.rounds (Event.times .announced es) (∑ k, supplies es k) stage
  heeded : ∀ stage, r.agent.course = .ok stage →
    Agent.Heeded r.stop.requested r.agent.agent.summary.interrupted r.agent.agent.summary.rounds n stage
  snapshots : (snapshots es).length + ∑ k, tally Smoker.Stage.behind (r.smokers.get k).course =
    5 * ∑ k, servings es k + ∑ k, tally Smoker.Stage.ahead (r.smokers.get k).course +
      ∑ k, supplies es k + Event.times .announced es + tally Agent.Stage.closings r.agent.course

theorem faultless_start (seed : UInt64) (n : Nat) (delay : DelayModel) (log : L) :
    Faultless n [] (start seed n delay log) := by
  constructor <;> simp [start, Sound, Factory.destroyed, Table.initial, supplies, servings,
    Agent.Announced, Agent.Heeded, Agent.Stage.hasClosed, Agent.Stage.closings, Smoker.Stage.behind,
    Smoker.Stage.ahead]

theorem Faultless.gone_of_finished {n : Nat} {es : List Event} {r : Run L}
    (h : Faultless n es r) (hf : r.finished = true) :
    r.agent.course = .ok .gone ∧ ∀ k, (r.smokers.get k).course = .ok .gone := by
  constructor
  · obtain ⟨stage, hc⟩ := h.sound.1
    obtain rfl := agent_eq_gone hc (over_of_finished hf .agent)
    exact hc
  · intro k
    obtain ⟨stage, hc⟩ := h.sound.2 k
    obtain rfl := smoker_eq_gone hc (over_of_finished hf (.smoker k))
    exact hc

section

variable [StateLog L] {n : Nat} {es fs : List Event} {r : Run L}

omit [StateLog L] in
/-- A smoker that has been called finds what it came for, or the factory closing. -/
theorem Balanced.not_lacking (hb : Balanced n es r) {k i : Ingredient}
    (hc : (r.smokers.get k).course = .ok .collecting) (hopen : r.factory.table.closing = false)
    (hi : i ≠ k) : 1 ≤ (r.factory.table.ingredients.get i).toInt := by
  have hcalls := hb.calls k
  have hreleased := hb.released_eq_zero hopen k
  simp only [hc, hreleased, tally_ok, Smoker.Stage.called] at hcalls
  have hone : 1 ≤ untaken es k := by
    simp only [untaken]
    omega
  rw [hb.stock]
  exact hone.trans (Finset.single_le_sum (fun j _ => hb.untaken_nonneg j) (by simpa using hi.symm))

theorem Faultless.smoker_ok (h : Faultless n es r) (hb : Balanced n es r) (hw : Watched r)
    (hn : n < UInt64.size) {k : Ingredient} {stage : Smoker.Stage}
    {course : Except Failure Smoker.Stage} {s : Smoker} {f : Factory Actor L}
    (hc : (r.smokers.get k).course = .ok stage)
    (hst : Smoker.Step (.smoker k) (r.smokers.get k).smoker r.factory stage fs course s f)
    (hfault : Event.fault ∉ fs) : ∃ next, course = .ok next := by
  cases hst with
  | failed hs hin =>
      rename_i sec _ _
      have hsec : r.section? (.smoker k) false = some sec := by simpa only [section?, hc] using hs
      exact absurd (hin.fault_mem h.poisoned (hb.action_total hn hsec)) hfault
  | refused hp =>
      have hclosed := (Semaphore.refused_permits hp).2.2.1
      rw [hb.holds k, hw.closed k, show r.factory.cigarette.closed = false from h.destroyed] at hclosed
      cases hclosed
  | lacked hin =>
      obtain ⟨-, hd, -⟩ := hin.of_ok
      obtain ⟨hopen, hi, hlt⟩ := hd.finds
      rw [hb.holds k] at hi
      exact absurd (hb.not_lacking hc hopen hi) (by omega)
  | overslept | dozed => simp at hfault
  | arrived | called | queued | served | left | rolled | rested | told | lit | smoked | finished =>
      exact ⟨_, rfl⟩

theorem Faultless.agent_ok (h : Faultless n es r) (hb : Balanced n es r) (hn : n < UInt64.size)
    {stage : Agent.Stage} {course : Except Failure Agent.Stage} {a : Agent} {f : Factory Actor L}
    (hc : r.agent.course = .ok stage)
    (hst : Agent.Step .agent r.stop.requested r.agent.agent r.factory stage fs course a f)
    (hfault : Event.fault ∉ fs) : ∃ next, course = .ok next := by
  cases hst with
  | failed hs hin =>
      rename_i sec stopFirst _
      have hsec : r.section? .agent stopFirst = some sec := by simpa only [section?, hc] using hs
      exact absurd (hin.fault_mem h.poisoned (hb.action_total hn hsec)) hfault
  | refused hp =>
      have hclosed := (Semaphore.refused_permits hp).2.2.1
      rw [show r.factory.cigarette.closed = false from h.destroyed] at hclosed
      cases hclosed
  | completed | heeded | drew | supplied | called | forwent | announced | passed | queued | cancelled
  | abandoned | closed | released | left => exact ⟨_, rfl⟩

theorem Faultless.smoker (h : Faultless n es r) {k : Ingredient} {stage next : Smoker.Stage} {s : Smoker}
    {f : Factory Actor L} (hc : (r.smokers.get k).course = .ok stage)
    (hk : (r.smokers.get k).smoker.holds = k)
    (hst : Smoker.Step (.smoker k) (r.smokers.get k).smoker r.factory stage fs (.ok next) s f) :
    Faultless n (es ++ fs) (noteEnd (.smoker k)
      { r with factory := f, smokers := r.smokers.set k { smoker := s, course := .ok next } }) := by
  have ha := hst.advance
  have he := hst.effect
  obtain ⟨-, -, hcig⟩ := hst.uses
  rw [hk] at ha he
  have hsup : ∀ j, supplies fs j = 0 := he.supplied
  have hserv : ∑ j, servings fs j = servings fs k :=
    Finset.sum_eq_single k (fun j _ hj => he.served_ne j hj) (by simp)
  have hbehind := r.smokers.sum_set k { smoker := s, course := .ok next }
    fun t => tally Smoker.Stage.behind t.course
  have hahead := r.smokers.sum_set k { smoker := s, course := .ok next }
    fun t => tally Smoker.Stage.ahead t.course
  simp only [hc, tally_ok] at hbehind hahead
  rw [noteEnd_eq]
  constructor
  case sound =>
    refine ⟨h.sound.1, fun j => ?_⟩
    by_cases hj : j = k
    · subst hj
      exact ⟨next, by simp⟩
    · simpa [hj] using h.sound.2 j
  case poisoned => exact ha.poisoned.trans h.poisoned
  case destroyed => exact (hcig (.smoker k)).closed.trans h.destroyed
  case failure => exact h.failure
  case smoked =>
    intro j
    by_cases hj : j = k
    · subst hj
      have hsmoked := ha.smoked
      rw [h.smoked] at hsmoked
      simp only [Trio.get_set_self]
      omega
    · simpa [hj, he.cigarettes_ne j hj] using h.smoked j
  case left =>
    intro j hg
    by_cases hj : j = k
    · subst hj
      exact ha.left (by simpa using hg)
    · exact (ha.smokers_ne j hj).trans (h.left j (by simpa [hj] using hg))
  case closed => exact fun stage hstage hclosed => ha.agent.trans (h.closed stage hstage hclosed)
  all_goals simp only [Event.supplies_append, Event.servings_append, Event.times_append,
    Event.snapshots_append, List.length_append, hsup, ha.announced, Nat.add_zero]
  case supplied => exact h.supplied
  case announced => exact h.announced
  case heeded => exact h.heeded
  case snapshots =>
    have hsnapshots := ha.snapshots
    have hbooks := h.snapshots
    rw [Finset.sum_add_distrib, hserv]
    omega

theorem Faultless.agent (h : Faultless n es r) (hb : Balanced n es r) {stage next : Agent.Stage}
    {a : Agent} {f : Factory Actor L} (hc : r.agent.course = .ok stage)
    (hst : Agent.Step .agent r.stop.requested r.agent.agent r.factory stage fs (.ok next) a f) :
    Faultless n (es ++ fs) (noteEnd .agent
      { r with factory := f, agent := { agent := a, course := .ok next } }) := by
  have ha := hst.advance
  have he := hst.effect fun k hk => hb.supply_fits (hk ▸ hc)
  obtain ⟨-, hcig⟩ := hst.uses
  have hserv : ∀ j, servings fs j = 0 := he.served
  have hexpects := hb.expects
  rw [hc, ← hb.rounds] at hexpects
  have hsnapshots := ha.snapshots
  have hbooks := h.snapshots
  simp only [hc, tally_ok] at hbooks
  rw [noteEnd_eq]
  constructor
  case sound => exact ⟨⟨next, rfl⟩, h.sound.2⟩
  case poisoned => exact ha.poisoned.trans h.poisoned
  case destroyed => exact hcig.closed.trans h.destroyed
  case failure => exact h.failure
  case left => exact fun k hk => ha.smokers ▸ h.left k hk
  all_goals simp only [Event.supplies_append, Event.servings_append, Event.times_append,
    Event.snapshots_append, List.length_append, hserv, he.cigarettes, Except.ok.injEq, tally_ok,
    Finset.sum_add_distrib, Nat.add_zero]
  case smoked => exact h.smoked
  case supplied => exact fun k => (ha.supplied k).trans (by rw [h.supplied k])
  case closed =>
    rintro _ rfl
    exact ha.closed (h.closed stage hc)
  case announced =>
    rintro _ rfl
    exact ha.announced _ _ hexpects (h.announced stage hc)
  case heeded =>
    rintro _ rfl
    rw [← hb.rounds, ← he.rounds]
    exact ha.heeded _ hexpects (hb.rounds ▸ h.heeded stage hc)
  case snapshots => omega

theorem Faultless.moves (h : Faultless n es r) (hb : Balanced n es r) (hw : Watched r)
    (hn : n < UInt64.size) {r' : Run L} (hm : Moves r fs r') (hfault : Event.fault ∉ fs) :
    Faultless n (es ++ fs) r' := by
  cases hm with
  | smoker _ hc _ hst =>
      obtain ⟨next, rfl⟩ := h.smoker_ok hb hw hn hc hst hfault
      exact h.smoker hc (hb.holds _) hst
  | agent _ hc _ hst =>
      obtain ⟨next, rfl⟩ := h.agent_ok hb hn hc hst hfault
      exact h.agent hb hc hst
  | smokerReported | agentReported | abandoned =>
      rw [List.append_nil]
      exact { h with }
  | @failed a rest e he hf =>
      -- Nobody has failed for the supervisor to find.
      have hnone : r.failed? a = none := by
        cases a with
        | smoker k =>
            obtain ⟨stage, hc⟩ := h.sound.2 k
            simp [failed?, hc]
        | agent =>
            obtain ⟨stage, hc⟩ := h.sound.1
            simp [failed?, hc]
      simp [hnone] at hf
  | stopped =>
      rw [List.append_nil]
      refine { h with heeded := fun stage hc => ?_ }
      have hheeded := h.heeded stage hc
      cases stage <;> first | exact hheeded | exact ⟨hheeded.1, fun _ => rfl⟩

theorem Faultless.of_start {r₀ : Run L} (h₀ : Faultless n [] r₀) (hb : Balanced n [] r₀)
    (hw : Watched r₀) (hn : n < UInt64.size) (h : Reaches r₀ es r) (hfault : Event.fault ∉ es) :
    Faultless n es r := by
  induction h with
  | refl => exact h₀
  | step hr hs ih =>
      rw [List.mem_append, not_or] at hfault
      exact (ih hfault.1).moves (hb.of_start hr) (hw.of_start hb hr) hn hs.moves hfault.2
  | overtake _ _ ih => exact { ih hfault with }

end

end Run

end CigaretteSmokers
