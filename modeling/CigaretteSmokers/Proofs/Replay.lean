import CigaretteSmokers.Proofs.Failures
import CigaretteSmokers.Proofs.LifeCycle

/-!
What the seed of a run determines. Each actor draws from a generator of its own, so that the kinds
that are laid out and the times that the work takes are the same in every interleaving; and a run
that is not interrupted ends with the same report, however long the work takes.
-/

namespace CigaretteSmokers

open Event (supplies servings)

namespace Random.Generator

/-- The generator that has drawn `n` kinds. -/
def afterKinds (g : Generator) : Nat → Generator
  | 0 => g
  | n + 1 => (g.afterKinds n).nextIngredient.2

/-- The kind that a generator draws after `n` others. -/
def kind (g : Generator) (n : Nat) : Except ActorError Ingredient := (g.afterKinds n).nextIngredient.1

theorem nextIngredient_afterKinds (g : Generator) (n : Nat) :
    (g.afterKinds n).nextIngredient = (g.kind n, g.afterKinds (n + 1)) := by
  simp only [kind, afterKinds]

/-- The first `n` kinds that a generator draws. -/
def kinds (g : Generator) (n : Nat) : List (Except ActorError Ingredient) := (List.range n).map g.kind

theorem kinds_succ (g : Generator) (n : Nat) : g.kinds (n + 1) = g.kinds n ++ [g.kind n] := by
  simp [kinds, List.range_succ]

theorem kinds_prefix (g : Generator) {m n : Nat} (h : m ≤ n) : g.kinds m <+: g.kinds n := by
  obtain ⟨d, rfl⟩ := Nat.exists_eq_add_of_le h
  rw [kinds, kinds, List.range_add, List.map_append]
  exact List.prefix_append _ _

/-- Of what two have drawn from generators with one seed, one is the beginning of the other. -/
theorem prefix_of_kinds {g : Generator} {ks ks' : List Ingredient} (h : ks.map .ok = g.kinds ks.length)
    (h' : ks'.map .ok = g.kinds ks'.length) (hle : ks.length ≤ ks'.length) : ks <+: ks' := by
  rw [← List.prefix_map_iff_of_injective (f := Except.ok) fun _ _ => Except.ok.inj, h, h']
  exact g.kinds_prefix hle

end Random.Generator

namespace DelayModel

/-- The generator from which `n` times have been drawn. -/
def afterTimes (m : DelayModel) (g : Random.Generator) : Nat → Random.Generator
  | 0 => g
  | n + 1 => (m.sample (m.afterTimes g n)).2

/-- The time that is drawn after `n` others. -/
def time (m : DelayModel) (g : Random.Generator) (n : Nat) : Except Crash Duration :=
  (m.sample (m.afterTimes g n)).1

theorem sample_afterTimes (m : DelayModel) (g : Random.Generator) (n : Nat) :
    m.sample (m.afterTimes g n) = (m.time g n, m.afterTimes g (n + 1)) := by
  simp only [time, afterTimes]

end DelayModel

namespace Event

def target? : Event → Option Ingredient
  | .entered (.supplied k) _ => some k
  | _ => none

/-- The smokers for whom the agent has laid out, in turn. -/
def targets (es : List Event) : List Ingredient := es.filterMap target?

@[simp] theorem targets_nil : targets [] = [] := rfl

@[simp] theorem targets_append (es fs : List Event) : targets (es ++ fs) = targets es ++ targets fs :=
  List.filterMap_append

theorem count_targets (es : List Event) (k : Ingredient) : (targets es).count k = supplies es k := by
  induction es with
  | nil => rfl
  | cons e es ih =>
      cases e with
      | fault => exact ih
      | entered d t =>
          cases d with
          | supplied j =>
              change (j :: targets es).count k = times (.supplied k) (.entered (.supplied j) t :: es)
              rw [List.count_cons, ih, times_entered]
              simp [supplies]
          | arrived | visited | rolled | lit | finished | announced | closed =>
              change (targets es).count k = times (.supplied k) (.entered _ t :: es)
              rw [ih, times_entered]
              simp [supplies]

theorem targets_eq_nil {es : List Event} (h : ∀ k, supplies es k = 0) : targets es = [] := by
  refine List.eq_nil_iff_forall_not_mem.2 fun k => List.count_eq_zero.1 ?_
  rw [count_targets, h]

theorem length_targets (es : List Event) : (targets es).length = ∑ k, supplies es k := by
  simp only [← count_targets]
  generalize targets es = ks
  induction ks with
  | nil => simp
  | cons k ks ih => simp [List.count_cons, Finset.sum_add_distrib, ← ih]

theorem targets_eq_filterMap (es : List Event) :
    targets es = (deeds es).filterMap fun | .supplied k => some k | _ => none := by
  rw [targets, deeds, List.filterMap_filterMap]
  congr 1
  funext e
  cases e with
  | entered d t => cases d <;> rfl
  | fault => rfl

end Event

open Event (targets)

namespace Smoker

/-- Where the generator of a smoker stands that has drawn two times for each cigarette from `g`, and
which time it takes over the work under way. -/
def Draws (g : Random.Generator) (s : Smoker) : Stage → Prop
  | .arriving | .awaiting | .collecting | .starting | .gone =>
      s.generator = s.delay.afterTimes g (2 * s.smoked)
  | .rolling work => s.generator = s.delay.afterTimes g (2 * s.smoked + 1) ∧
      s.delay.time g (2 * s.smoked) = .ok work
  | .telling | .lighting => s.generator = s.delay.afterTimes g (2 * s.smoked + 1)
  | .smoking work => s.generator = s.delay.afterTimes g (2 * s.smoked + 2) ∧
      s.delay.time g (2 * s.smoked + 1) = .ok work
  | .finishing => s.generator = s.delay.afterTimes g (2 * s.smoked + 2)

variable {ω L : Type} [StateLog L] [DecidableEq ω] {w : ω} {s s' : Smoker} {f f' : Factory ω L}
  {stage next : Stage} {course : Except Failure Stage} {es : List Event} {g : Random.Generator}

theorem Step.delay (h : Step w s f stage es course s' f') : s'.delay = s.delay := by
  cases h <;> rfl

theorem Step.draws (h : Step w s f stage es (.ok next) s' f') (hs : s.Draws g stage) :
    s'.Draws g next := by
  cases h with
  | rolled hd =>
      rw [show s.generator = _ from hs, DelayModel.sample_afterTimes] at hd
      obtain ⟨htime, rfl⟩ := Prod.mk.inj hd
      exact ⟨rfl, htime⟩
  | lit hd =>
      rw [show s.generator = _ from hs, DelayModel.sample_afterTimes] at hd
      obtain ⟨htime, rfl⟩ := Prod.mk.inj hd
      exact ⟨rfl, htime⟩
  | rested | smoked => exact hs.1
  | arrived | called | queued | served | left | told | finished => exact hs

end Smoker

namespace Agent

/-- Where the generator of an agent stands that has laid out `n` times and draws from `g`. -/
def Draws (g : Random.Generator) (n : Nat) (a : Agent) : Stage → Prop
  | .supplying k => a.generator = g.afterKinds (n + 1) ∧ g.kind n = .ok k
  | _ => a.generator = g.afterKinds n

variable {ω L : Type} [StateLog L] [DecidableEq ω] {w : ω} {stopped : Bool} {a a' : Agent}
  {f f' : Factory ω L} {stage next : Stage} {course : Except Failure Stage} {es : List Event}
  {g : Random.Generator} {n : Nat}

theorem Step.lays (h : Step w stopped a f stage es course a' f') :
    targets es = [] ∨ ∃ k, stage = .supplying k ∧ targets es = [k] := by
  rw [Event.targets_eq_filterMap]
  rcases h.deeds with hes | ⟨k, hk, hes⟩ | ⟨-, hes⟩ | ⟨-, hes⟩
  · exact .inl (by rw [hes]; rfl)
  · exact .inr ⟨k, hk, by rw [hes]; rfl⟩
  all_goals exact .inl (by rw [hes]; rfl)

theorem perform_choosing {stop : Stop} {stopFirst : Bool} {k : Ingredient}
    (h : (a.perform w stop stopFirst .choosing f).1 = .ok (.supplying k)) :
    a.generator.nextIngredient = (.ok k, (a.perform w stop stopFirst .choosing f).2.1.generator) := by
  simp only [perform] at h ⊢
  split at h
  · cases h
  · rename_i hr
    split at h
    · cases h
    · rename_i hs
      rw [if_neg hr, if_neg hs]
      rcases hn : a.generator.nextIngredient with ⟨e | j, g⟩
      · simp [hn] at h
      · obtain rfl : j = k := by simpa [hn] using h
        rfl

theorem Step.draws (h : Step w stopped a f stage es (.ok next) a' f')
    (hdraw : ∀ k, stage = .choosing → next = .supplying k →
      a.generator.nextIngredient = (.ok k, a'.generator))
    (ha : a.Draws g n stage) : a'.Draws g (n + (targets es).length) next := by
  cases h with
  | drew =>
      have hk := hdraw _ rfl rfl
      rw [show a.generator = _ from ha, Random.Generator.nextIngredient_afterKinds] at hk
      obtain ⟨hkind, hgen⟩ := Prod.mk.inj hk
      exact ⟨hgen.symm, hkind⟩
  | supplied h =>
      obtain ⟨-, -, rfl⟩ := h.of_ok
      exact ha.1
  | announced h | closed h =>
      obtain ⟨-, -, rfl⟩ := h.of_ok
      exact ha
  | completed | heeded | called | forwent | passed | queued | cancelled | abandoned | released | left =>
      exact ha

end Agent

namespace Run

variable {L : Type} [StateLog L]

/-- As `Reaches`, for a run whose agent lays out what its generator draws. -/
inductive Plays (r : Run L) : List Event → Run L → Prop
  | refl : Plays r [] r
  | take {es u c} (h : Plays r es u) (hc : u.allows c = true) : Plays r (es ++ u.events c) (u.take c)
  | overtake {es u order} (h : Plays r es u) (ho : order.Perm u.ended) :
      Plays r es { u with ended := order }

variable {seed : UInt64} {delay : DelayModel} {n : Nat} {es fs : List Event} {r u v : Run L}

theorem Plays.reaches (h : Plays r es v) : Reaches r es v := by
  induction h with
  | refl => exact .refl
  | take _ hc ih => exact ih.step (.take _ hc)
  | overtake _ ho ih => exact ih.overtake ho

theorem Plays.trans (h : Plays r es u) (h' : Plays u fs v) : Plays r (es ++ fs) v := by
  induction h' with
  | refl => simpa using h
  | take _ hc ih => simpa only [List.append_assoc] using ih.take hc
  | overtake _ ho ih => exact ih.overtake ho

theorem plays_follow (cs : List Choice) (r : Run L) : Plays r (follow cs r).1 (follow cs r).2 := by
  induction cs generalizing r with
  | nil => exact .refl
  | cons c cs ih =>
      unfold follow
      split
      · rename_i hc
        exact (Plays.refl.take hc).trans (ih _)
      · exact ih r

/-- What the generators have come to in a run with the seed `seed`. -/
structure Driven (seed : UInt64) (delay : DelayModel) (es : List Event) (r : Run L) : Prop where
  kinds : (targets es).map .ok = (Random.Generator.ofSeed (seed + 3)).kinds (targets es).length
  agent : ∀ stage, r.agent.course = .ok stage →
    r.agent.agent.Draws (.ofSeed (seed + 3)) (targets es).length stage
  delay : ∀ k, (r.smokers.get k).smoker.delay = delay
  smokers : ∀ k stage, (r.smokers.get k).course = .ok stage →
    (r.smokers.get k).smoker.Draws (.ofSeed (seed + .ofNat k.index)) stage

omit [StateLog L] in
theorem driven_start (seed : UInt64) (n : Nat) (delay : DelayModel) (log : L) :
    Driven seed delay [] (start seed n delay log) := by
  refine ⟨rfl, fun stage hc => ?_, fun k => by simp [start], fun k stage hc => ?_⟩
  · obtain rfl : .choosing = stage := by simpa [start] using hc
    rfl
  · obtain rfl : .arriving = stage := by simpa [start] using hc
    simp [start, Smoker.Draws, DelayModel.afterTimes]

omit [StateLog L] in
theorem Driven.aside (h : Driven seed delay es u) (ha : v.agent = u.agent) (hs : v.smokers = u.smokers) :
    Driven seed delay es v := by
  constructor
  case kinds => exact h.kinds
  all_goals simp only [ha, hs]
  case agent => exact h.agent
  case delay => exact h.delay
  case smokers => exact h.smokers

theorem Driven.smoker (h : Driven seed delay es u) {k : Ingredient} {stage : Smoker.Stage}
    {course : Except Failure Smoker.Stage} {s : Smoker} {f : Factory Actor L}
    (hc : (u.smokers.get k).course = .ok stage)
    (hst : Smoker.Step (.smoker k) (u.smokers.get k).smoker u.factory stage fs course s f) :
    Driven seed delay (es ++ fs) (noteEnd (.smoker k)
      { u with factory := f, smokers := u.smokers.set k { smoker := s, course } }) := by
  have hnone : Event.targets fs = [] := Event.targets_eq_nil hst.effect.supplied
  rw [noteEnd_eq]
  constructor
  all_goals simp only [Event.targets_append, hnone, List.append_nil]
  case kinds => exact h.kinds
  case agent => exact h.agent
  case delay =>
    intro j
    by_cases hj : j = k
    · subst hj
      simpa using hst.delay.trans (h.delay j)
    · simpa [hj] using h.delay j
  case smokers =>
    intro j next hnext
    by_cases hj : j = k
    · subst hj
      simp only [Trio.get_set_self] at hnext ⊢
      subst hnext
      exact hst.draws (h.smokers j stage hc)
    · simp only [Trio.get_set_of_ne _ _ hj] at hnext ⊢
      exact h.smokers j next hnext

theorem Driven.agent_step (h : Driven seed delay es u) {stage : Agent.Stage}
    {course : Except Failure Agent.Stage} {a : Agent} {f : Factory Actor L}
    (hc : u.agent.course = .ok stage)
    (hst : Agent.Step .agent u.stop.requested u.agent.agent u.factory stage fs course a f)
    (hdraw : ∀ k, stage = .choosing → course = .ok (.supplying k) →
      u.agent.agent.generator.nextIngredient = (.ok k, a.generator)) :
    Driven seed delay (es ++ fs) (noteEnd .agent
      { u with factory := f, agent := { agent := a, course } }) := by
  have hdraws := h.agent stage hc
  rw [noteEnd_eq]
  refine ⟨?_, fun next hnext => ?_, h.delay, h.smokers⟩
  · rw [Event.targets_append]
    rcases hst.lays with hnone | ⟨k, rfl, hk⟩
    · rw [hnone, List.append_nil]
      exact h.kinds
    · rw [hk, List.length_append, List.length_singleton, Random.Generator.kinds_succ, ← h.kinds,
        hdraws.2, List.map_append, List.map_singleton]
  · obtain rfl : course = .ok next := hnext
    rw [Event.targets_append, List.length_append]
    exact hst.draws (fun k hs hn => hdraw k hs (congrArg _ hn)) hdraws

theorem Driven.take (h : Driven seed delay es u) {c : Choice} (hc : u.allows c = true) :
    Driven seed delay (es ++ u.events c) (u.take c) := by
  cases c with
  | act a stopFirst =>
      simp only [allows, enabled, Bool.and_eq_true, Bool.not_eq_true'] at hc
      cases a with
      | smoker k =>
          obtain ⟨stage, hstage, hg⟩ := smoker_of_not_over hc.1
          have hst := Smoker.step_perform (.smoker k) (u.smokers.get k).smoker hg u.factory
          simpa only [Run.take, act_smoker stopFirst hstage hg, events, hstage] using h.smoker hstage hst
      | agent =>
          obtain ⟨stage, hstage, hg⟩ := agent_of_not_over hc.1
          have hst := Agent.step_perform .agent u.stop stopFirst u.agent.agent hg u.factory
          -- A step leaves the kind that is drawn open; what is performed does not.
          have hdraw := h.agent_step hstage hst fun k hs hn => by
            subst hs
            exact Agent.perform_choosing hn
          simpa only [Run.take, act_agent stopFirst hstage hg, events, hstage] using hdraw
  | supervise =>
      rw [show u.events .supervise = [] from rfl, List.append_nil]
      change Driven seed delay es u.supervise
      unfold supervise
      split
      · exact h
      · split <;> exact h.aside rfl rfl
  | requestStop | dropSender =>
      simp only [events, List.append_nil]
      exact h.aside rfl rfl

theorem Driven.plays (h : Driven seed delay [] r) (hr : Plays r es v) : Driven seed delay es v := by
  induction hr with
  | refl => exact h
  | take _ hc ih => exact ih.take hc
  | overtake _ _ ih => exact ih.aside rfl rfl

end Run

/-- What two reports say alike that differ in their keys at most. -/
structure Report.Agrees (p p' : Report) : Prop where
  final : p.final = p'.final
  smokers : p.smokers = p'.smokers
  agent : p.agent = p'.agent
  snapshots : p.snapshots = p'.snapshots

/-- A complete run is told by what the agent has laid out. -/
theorem Report.Complete.agrees {n w w' : Nat} {p p' : Report} (hc : p.Complete n) (hc' : p'.Complete n)
    (h : p.Lawful n w) (h' : p'.Lawful n w') (hs : ∀ k, p.agent.supplied.get k = p'.agent.supplied.get k)
    (hi : p.agent.interrupted = p'.agent.interrupted) : p.Agrees p' := by
  have hsmoked : ∀ k, p.smoked k = p'.smoked k := fun k =>
    (hc.smoked k).trans ((hs k).trans (hc'.smoked k).symm)
  have hagent : p.agent = p'.agent := by
    have hrounds := hc.rounds.trans hc'.rounds.symm
    have hsupplied := Trio.ext_get hs
    cases hp : p.agent with
    | mk =>
        cases hp' : p'.agent with
        | mk => simp_all
  refine ⟨Table.ext_get ?_ ?_ ?_ ?_ ?_, ?_, hagent,
    UInt64.toNat.inj (hc.snapshots.trans hc'.snapshots.symm)⟩
  · exact fun j => (hc.ingredients j).trans (hc'.ingredients j).symm
  · exact fun j => (h.smokersClosing j).trans (h'.smokersClosing j).symm
  · exact fun j => UInt64.toNat.inj (hsmoked j)
  · exact h.agentClosing.trans h'.agentClosing.symm
  · exact h.closing.trans h'.closing.symm
  · rw [h.smokers, h'.smokers]
    simp only [hsmoked]

namespace Run

variable {L L' : Type} [StateLog L] [StateLog L']

/-- A run that comes to its end without a fault has a report. If it was not interrupted, the agent
has laid out for the first of the kinds that its generator draws, one for each round. -/
theorem Plays.report (key : AccessKey) {seed rounds : UInt64} {delay : DelayModel} {log : L}
    {es : List Event} {r : Run (Observer L)}
    (h : Plays (start seed rounds.toNat delay { inner := log }) es r) (hfault : Event.fault ∉ es)
    (hend : ∀ c, c.isInside = true → r.allows c = false) :
    ∃ p w, r.outcome key seed = .ok p ∧ p.Lawful rounds.toNat w ∧ (p.agent.interrupted = false →
      p.Complete rounds.toNat ∧ ∃ ks : List Ingredient,
        ks.map .ok = (Random.Generator.ofSeed (seed + 3)).kinds rounds.toNat ∧
        ∀ k, p.agent.supplied.get k = ks.count k) := by
  have hk := (known_start seed rounds.toNat delay ({ inner := log } : Observer L)).reaches
    rounds.toNat_lt_size h.reaches
  have hf := hk.faultless hfault
  have hfinished : r.finished = true := hk.balanced.finished_of_stuck hk.watched (stuck_of_allows hend)
  obtain ⟨p, hp, hagent, hlaw⟩ := hf.outcome_lawful hk.balanced hk.heard
    (Counts.reaches ⟨rfl, rfl⟩ h.reaches hfault) hfinished key seed
  have hsupplied : ∀ k, p.agent.supplied.get k = supplies es k := by
    intro k
    rw [hagent, hf.supplied]
  refine ⟨p, _, hp, hlaw, fun hi => ?_⟩
  have hcomplete := hlaw.complete (by simpa only [hsupplied] using hk.balanced.supplies_le_rounds) hi
  have hlength : (targets es).length = rounds.toNat := by
    rw [Event.length_targets, ← hcomplete.total]
    simp only [hcomplete.smoked, hsupplied]
  have hdriven := (driven_start seed rounds.toNat delay ({ inner := log } : Observer L)).plays h
  refine ⟨hcomplete, targets es, hlength ▸ hdriven.kinds, fun k => ?_⟩
  rw [hsupplied, Event.count_targets]

/-- Schedule independence. Whatever the interleaving, the stop requests and the log do, the kinds
that are laid out are the first that the agent's generator draws, and a smoker takes the times for
the two pieces of work of each cigarette in turn from its own. Of two runs with the same seed and as
many rounds, one lays out the beginning of what the other does; and if they come to their end without
a fault and are not interrupted, their reports agree. -/
theorem schedule_independent (key key' : AccessKey) (seed rounds : UInt64) (delay delay' : DelayModel)
    (log : L) (log' : L') {es es' : List Event} {r : Run (Observer L)} {r' : Run (Observer L')}
    (h : Plays (start seed rounds.toNat delay { inner := log }) es r)
    (h' : Plays (start seed rounds.toNat delay' { inner := log' }) es' r') :
    (targets es).map .ok = (Random.Generator.ofSeed (seed + 3)).kinds (targets es).length ∧
    (∀ k work, (r.smokers.get k).course = .ok (.rolling work) →
      delay.time (.ofSeed (seed + .ofNat k.index)) (2 * (r.factory.table.cigarettes.get k).toNat) =
        .ok work) ∧
    (∀ k work, (r.smokers.get k).course = .ok (.smoking work) →
      delay.time (.ofSeed (seed + .ofNat k.index)) (2 * (r.factory.table.cigarettes.get k).toNat + 1) =
        .ok work) ∧
    (targets es <+: targets es' ∨ targets es' <+: targets es) ∧
    (Event.fault ∉ es → Event.fault ∉ es' → (∀ c, c.isInside = true → r.allows c = false) →
      (∀ c, c.isInside = true → r'.allows c = false) →
      ∃ p p', r.outcome key seed = .ok p ∧ r'.outcome key' seed = .ok p' ∧
        (p.agent.interrupted = false → p'.agent.interrupted = false → p.Agrees p')) := by
  have hd := (driven_start seed rounds.toNat delay ({ inner := log } : Observer L)).plays h
  have hd' := (driven_start seed rounds.toNat delay' ({ inner := log' } : Observer L')).plays h'
  have htallied : Tallied r := (tallied_start seed _ delay _).reaches (balanced_start ..) h.reaches
  refine ⟨hd.kinds, fun k work hc => ?_, fun k work hc => ?_, ?_, fun hf hf' hend hend' => ?_⟩
  · rw [← htallied k _ hc, ← hd.delay k]
    exact (hd.smokers k _ hc).2
  · rw [← htallied k _ hc, ← hd.delay k]
    exact (hd.smokers k _ hc).2
  · rcases Nat.le_total (targets es).length (targets es').length with hle | hle
    · exact .inl (Random.Generator.prefix_of_kinds hd.kinds hd'.kinds hle)
    · exact .inr (Random.Generator.prefix_of_kinds hd'.kinds hd.kinds hle)
  · obtain ⟨p, w, hp, hlaw, hreport⟩ := h.report key hf hend
    obtain ⟨p', w', hp', hlaw', hreport'⟩ := h'.report key' hf' hend'
    refine ⟨p, p', hp, hp', fun hi hi' => ?_⟩
    obtain ⟨hcomplete, ks, hks, hsupplied⟩ := hreport hi
    obtain ⟨hcomplete', ks', hks', hsupplied'⟩ := hreport' hi'
    obtain rfl : ks = ks' := List.map_injective_iff.2 (fun _ _ => Except.ok.inj) (hks.trans hks'.symm)
    exact hcomplete.agrees hcomplete' hlaw hlaw' (fun k => (hsupplied k).trans (hsupplied' k).symm)
      (hi.trans hi'.symm)

omit [StateLog L] in
theorem outcome_agent {key : AccessKey} {seed : UInt64} {r : Run (Observer L)} {p : Report}
    (h : r.outcome key seed = .ok p) : r.agentReport = some p.agent := by
  unfold outcome at h
  split at h
  · cases h
  · split at h
    · cases h
    · split at h <;> cases h
      assumption

/-- A run of one round in which the actors move in turn, in the order given. -/
def inTurn (order : List Actor) (unit : TimeUnit) : List Event × Run (Observer Recorder) :=
  follow (List.replicate 16 (order.map (.act · false) ++ [.supervise])).flatten
    (start 1 (1 : UInt64).toNat (instant unit) { inner := {} })

theorem schedule_independent_inTurn :
    (inTurn Actor.all .milliseconds).1 ≠ (inTurn Actor.all.reverse .microseconds).1 ∧
    ∃ p p', (inTurn Actor.all .milliseconds).2.outcome default 1 = .ok p ∧
      (inTurn Actor.all.reverse .microseconds).2.outcome default 1 = .ok p' ∧ p.Agrees p' := by
  have hplays : ∀ order unit, (start 1 (1 : UInt64).toNat (instant unit) { inner := {} }).Plays
      (inTurn order unit).1 (inTurn order unit).2 := fun _ _ => plays_follow _ _
  obtain ⟨hne, hf, hf', hi, hi', hend, hend'⟩ :
      (inTurn Actor.all .milliseconds).1 ≠ (inTurn Actor.all.reverse .microseconds).1 ∧
      Event.fault ∉ (inTurn Actor.all .milliseconds).1 ∧
      Event.fault ∉ (inTurn Actor.all.reverse .microseconds).1 ∧
      (inTurn Actor.all .milliseconds).2.agentReport.map (·.interrupted) = some false ∧
      (inTurn Actor.all.reverse .microseconds).2.agentReport.map (·.interrupted) = some false ∧
      (inTurn Actor.all .milliseconds).2.finished = true ∧
      (inTurn Actor.all.reverse .microseconds).2.finished = true := by decide +kernel
  obtain ⟨-, -, -, -, hreports⟩ := schedule_independent default default 1 1 (instant .milliseconds)
    (instant .microseconds) ({} : Recorder) ({} : Recorder) (hplays Actor.all .milliseconds)
    (hplays Actor.all.reverse .microseconds)
  obtain ⟨p, p', hp, hp', hagrees⟩ := hreports hf hf' (fun _ => not_allows_of_finished hend)
    fun _ => not_allows_of_finished hend'
  refine ⟨hne, p, p', hp, hp', hagrees ?_ ?_⟩
  · simpa [outcome_agent hp] using hi
  · simpa [outcome_agent hp'] using hi'

end Run

end CigaretteSmokers
