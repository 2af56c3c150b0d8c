import CigaretteSmokers.Log.Recorder
import CigaretteSmokers.Proofs.DelayBounds
import CigaretteSmokers.Proofs.LawfulDeeds
import CigaretteSmokers.Proofs.Observing
import CigaretteSmokers.Proofs.Replay

/-!
Runs that cannot fail: the log takes every table that the actors make, and every delay can be told
as a duration.
-/

namespace CigaretteSmokers

namespace StateLog

variable {L : Type} [StateLog L]

/-- The log records the next `b` tables that deeds make of `t`, one after another. -/
def Follows (b : Nat) (t : Table) (log : L) : Prop :=
  ∀ saves : List (Nat × Table), saves.length ≤ b →
    (t :: saves.map Prod.snd).IsChain (fun t u => ∃ d : Deed, d.Makes t u) →
      ∀ answer ∈ (saveAll saves log).1, answer = .ok ()

/-- The log records whatever it is given. -/
def NeverFails (log : L) : Prop :=
  ∀ saves : List (Nat × Table), ∀ answer ∈ (saveAll saves log).1, answer = .ok ()

theorem NeverFails.follows {log : L} (h : NeverFails log) (b : Nat) (t : Table) : Follows b t log :=
  fun saves _ _ => h saves

theorem Follows.save {b : Nat} {t u : Table} {log : L} {d : Deed} (h : Follows (b + 1) t log)
    (hd : d.Makes t u) (clock : Nat) :
    (save clock u log).1 = .ok () ∧ Follows b u (save clock u log).2 := by
  constructor
  · exact h [(clock, u)] (by simp) (.cons_cons ⟨d, hd⟩ (.singleton u)) _ (by simp [saveAll])
  · intro saves hlength hsaves answer hanswer
    exact h ((clock, u) :: saves) (by simpa using hlength) (.cons_cons ⟨d, hd⟩ hsaves) answer
      (by simp [saveAll, hanswer])

end StateLog

open StateLog (Follows NeverFails)

open Event (snapshots)

/-- No count changes by more than one, so that no checker can crash over it. -/
theorem Deed.Makes.calm {d : Deed} {t u : Table} (h : d.Makes t u) (law : Law) :
    law.checker.Calm (some t, u) := by
  cases law with
  | pairedConsumption => simp [Checker.Calm, Law.checker, Law.check, h.deltas_eq, Except.map]
  | monotonicCigarettes => simp [Checker.Calm, Law.checker, Law.check, Law.miscounted?_eq, Except.map]
  | nonNegativeIngredients | closingIsTerminal => exact ⟨_, rfl⟩

theorem Law.calm_first (law : Law) (u : Table) : law.checker.Calm (none, u) := by
  cases law <;> exact ⟨_, rfl⟩

theorem calm_of_isChain {past : Option Table} {t : Table} {ts : List Table}
    (hpast : ∀ p ∈ past, p = t)
    (h : (t :: ts).IsChain fun t u => ∃ d : Deed, d.Makes t u) :
    ∀ s ∈ Table.steps past ts, ∀ law : Law, law.checker.Calm s := by
  induction ts generalizing past t with
  | nil => simp [Table.steps]
  | cons u ts ih =>
      cases h with
      | cons_cons hmakes hrest =>
          intro s hs law
          rw [Table.steps_cons, List.mem_cons] at hs
          rcases hs with rfl | hs
          · obtain ⟨d, hd⟩ := hmakes
            cases past with
            | none => exact law.calm_first u
            | some p =>
                rw [hpast p rfl]
                exact hd.calm law
          · exact ih (by simp) hrest s hs law

/-- The observer passes on whatever deeds make, as long as it can count. -/
theorem Observer.follows {L : Type} [StateLog L] {log : L} (h : NeverFails log) {b : Nat}
    (hb : b < UInt64.size) : Follows b .initial ({ inner := log } : Observer L) := by
  intro saves hlength hsaves answer hanswer
  have hcalm : ∀ s ∈ Table.steps none (saves.map Prod.snd), ∀ law : Law, law.checker.Calm s :=
    calm_of_isChain (by simp) hsaves
  have hcount : (0 : UInt64).toNat + saves.length < UInt64.size := by
    rw [UInt64.toNat_zero]
    omega
  rw [saveAll_calm rfl (fun s hs c hc => ?_) hcount] at hanswer
  · exact h saves answer hanswer
  · obtain ⟨law, -, rfl⟩ := List.mem_map.1 hc
    exact hcalm s hs law

namespace Factory

variable {ω L : Type} [StateLog L] {f f' : Factory ω L} {sec : Section} {o : Option Section}
  {es : List Event} {e : Failure} {b : Nat}

theorem Enters.not_failed (h : f.Enters sec es (.error e) f') (hp : f.poisoned = false)
    (hf : Follows (b + (snapshots es).length) f.table f.log)
    (ht : ∃ d t, sec.action f.table = .ok d t) : False := by
  obtain ⟨d, t, ht⟩ := ht
  cases h with
  | barred hp' => simp [hp] at hp'
  | crashed _ ht' => simp [ht] at ht'
  | refused _ ht' hs' | struck _ ht' hs' =>
      obtain ⟨hs, -⟩ := hf.save (Section.makes ht') f.clock
      simp [hs'] at hs

theorem Records.snapshots_le (h : f.Records f' o es) : (snapshots es).length ≤ 1 := by
  cases h with
  | silent hs => simp [hs]
  | deed _ _ _ _ hrest => simp [hrest]

theorem Records.follows (h : f.Records f' o es) (hp : f'.poisoned = false)
    (hf : Follows (b + (snapshots es).length) f.table f.log) : Follows b f'.table f'.log := by
  cases h with
  | silent hs hl ht =>
      rw [hs] at hf
      rw [hl, (ht hp).2]
      exact hf
  | deed _ _ hd hl hrest =>
      rw [Event.snapshots_entered, hrest] at hf
      rw [hl]
      exact (hf.save hd f.clock).2

end Factory

section

variable {ω L : Type} [StateLog L] [DecidableEq ω] {w : ω} {f f' : Factory ω L} {es : List Event}
  {b : Nat}

theorem Smoker.Step.not_fault {s s' : Smoker} {stage : Stage} {course : Except Failure Stage}
    (h : Step w s f stage es course s' f') (hp : f.poisoned = false)
    (hf : Follows (b + (snapshots es).length) f.table f.log)
    (htotal : ∀ sec, s.section? stage = some sec → ∃ d t, sec.action f.table = .ok d t)
    (hdelay : ∀ g, ∃ work, (s.delay.sample g).1 = .ok work) : Event.fault ∉ es := by
  cases h with
  | failed hs h => exact absurd (h.not_failed hp hf (htotal _ hs)) id
  | overslept hd | dozed hd =>
      obtain ⟨work, hwork⟩ := hdelay s.generator
      simp [hd] at hwork
  | arrived h | served h | left h | lacked h | rolled _ h | lit _ h | finished h =>
      exact h.not_fault_mem
  | called | queued | refused | rested | told | smoked => simp

theorem Smoker.perform_starting_of_error (w : ω) {s : Smoker} {c : Crash}
    (hs : (s.delay.sample s.generator).1 = .error c) (f : Factory ω L) :
    (s.perform w .starting f).1 = .error (.crash c) := by
  simp only [perform]
  rcases hd : s.delay.sample s.generator with ⟨res, g⟩
  rw [hd] at hs
  cases hs
  rfl

theorem Agent.Step.not_fault {a a' : Agent} {stopped : Bool} {stage : Stage}
    {course : Except Failure Stage} (h : Step w stopped a f stage es course a' f')
    (hp : f.poisoned = false) (hf : Follows (b + (snapshots es).length) f.table f.log)
    (htotal : ∀ stopFirst sec, section? stopped stopFirst stage = some sec →
      ∃ d t, sec.action f.table = .ok d t) : Event.fault ∉ es := by
  cases h with
  | failed hs h => exact absurd (h.not_failed hp hf (htotal _ _ hs)) id
  | supplied h | announced h | closed h => exact h.not_fault_mem
  | completed | heeded | drew | called | forwent | passed | queued | cancelled | abandoned | refused
  | released | left => simp

end

namespace Run

variable {L : Type} {b n : Nat} {es fs : List Event} {r r₀ r' : Run L}

/-- Every delay that a smoker may draw is a duration. -/
def Timed (r : Run L) : Prop :=
  ∀ k g, ∃ work, ((r.smokers.get k).smoker.delay.sample g).1 = .ok work

variable [StateLog L]

theorem Moves.timed (hm : Moves r fs r') (h : r.Timed) : r'.Timed := by
  cases hm with
  | @smoker k _ _ _ _ _ _ _ _ hst =>
      rw [noteEnd_eq]
      intro j
      by_cases hj : j = k
      · subst hj
        simpa [hst.delay] using h j
      · simpa [hj] using h j
  | agent =>
      rw [noteEnd_eq]
      exact h
  | smokerReported | agentReported | failed | stopped | abandoned => exact h

theorem Moves.snapshots_le (hm : Moves r fs r') : (snapshots fs).length ≤ 1 := by
  cases hm with
  | smoker _ _ _ hst => exact hst.records.snapshots_le
  | agent _ _ _ hst =>
      obtain ⟨o, hrecords⟩ := hst.records
      exact hrecords.snapshots_le
  | smokerReported | agentReported | failed | stopped | abandoned => simp

/-- No step makes more than one table. -/
theorem snapshots_follow_le (cs : List Choice) (r : Run L) :
    (snapshots (follow cs r).1).length ≤ cs.length := by
  induction cs generalizing r with
  | nil => simp [follow]
  | cons c cs ih =>
      unfold follow
      split
      · rename_i hc
        have hfirst := (Step.take c hc).moves.snapshots_le
        have hrest := ih (r.take c)
        rw [Event.snapshots_append, List.length_append, List.length_cons]
        omega
      · exact (ih r).trans (Nat.le_succ _)

theorem Moves.follows (hm : Moves r fs r') (hp : r'.factory.poisoned = false)
    (h : Follows (b + (snapshots fs).length) r.factory.table r.factory.log) :
    Follows b r'.factory.table r'.factory.log := by
  cases hm with
  | smoker _ _ _ hst =>
      rw [noteEnd_eq] at hp ⊢
      exact hst.records.follows hp h
  | agent _ _ _ hst =>
      rw [noteEnd_eq] at hp ⊢
      obtain ⟨o, hrecords⟩ := hst.records
      exact hrecords.follows hp h
  | smokerReported | agentReported | stopped | abandoned => exact h
  | failed =>
      simp only
      split <;> exact h

theorem Moves.not_fault (hm : Moves r fs r') (hb : Balanced n es r) (hn : n < UInt64.size)
    (hp : r.factory.poisoned = false)
    (h : Follows (b + (snapshots fs).length) r.factory.table r.factory.log) (ht : r.Timed) :
    Event.fault ∉ fs := by
  cases hm with
  | @smoker k _ _ _ _ _ _ hc _ hst =>
      refine hst.not_fault hp h (fun sec hs => ?_) (ht k)
      have hsec : r.section? (.smoker k) false = some sec := by simpa only [section?, hc] using hs
      exact hb.action_total hn hsec
  | agent _ hc _ hst =>
      refine hst.not_fault hp h fun stopFirst sec hs => ?_
      have hsec : r.section? .agent stopFirst = some sec := by simpa only [section?, hc] using hs
      exact hb.action_total hn hsec
  | smokerReported | agentReported | failed | stopped | abandoned => simp

theorem Reaches.not_fault (hr : Reaches r₀ es r) (h₀ : Known n [] r₀) (hn : n < UInt64.size)
    (h : Follows (b + (snapshots es).length) r₀.factory.table r₀.factory.log) (ht : r₀.Timed) :
    Event.fault ∉ es ∧ Follows b r.factory.table r.factory.log ∧ r.Timed := by
  induction hr generalizing b with
  | refl => exact ⟨by simp, h, ht⟩
  | @step es fs u v hu hs ih =>
      rw [Event.snapshots_append, List.length_append, Nat.add_comm (snapshots es).length, ← Nat.add_assoc] at h
      obtain ⟨hes, hf, ht⟩ := ih h
      have hk := h₀.reaches hn hu
      have hfs := hs.moves.not_fault hk.balanced hn (hk.faultless hes).poisoned hf ht
      have hfaultless := (h₀.reaches hn (hu.step hs)).faultless (by simp [hes, hfs])
      exact ⟨by simp [hes, hfs], hs.moves.follows hfaultless.poisoned hf, hs.moves.timed ht⟩
  | overtake _ _ ih => exact ih h

/-- Nobody fails before a log that records what the run makes. -/
theorem Reaches.none_failed (hr : Reaches r₀ es r) (h₀ : Known n [] r₀) (hn : n < UInt64.size)
    (h : Follows (snapshots es).length r₀.factory.table r₀.factory.log) (ht : r₀.Timed) :
    Event.fault ∉ es ∧ ∀ a, r.failed? a = none := by
  rw [← Nat.zero_add (snapshots es).length] at h
  obtain ⟨hes, -⟩ := hr.not_fault h₀ hn h ht
  obtain ⟨hagent, hsmokers⟩ := ((h₀.reaches hn hr).faultless hes).sound
  refine ⟨hes, ?_⟩
  rintro (k | _)
  · obtain ⟨stage, hc⟩ := hsmokers k
    simp [failed?, hc]
  · obtain ⟨stage, hc⟩ := hagent
    simp [failed?, hc]

end Run

theorem Recorder.neverFails (log : Recorder) (h : ∀ n, log.fault n = none) : NeverFails log := by
  intro saves
  induction saves generalizing log with
  | nil => simp [StateLog.saveAll]
  | cons s saves ih =>
      have hs : StateLog.save s.1 s.2 log = (.ok (),
          { log with calls := log.calls + 1, entries := log.entries.push s }) := by
        change log.save s.1 s.2 = _
        simp only [save, h]
      intro answer hanswer
      simp only [StateLog.saveAll, hs, List.mem_cons] at hanswer
      rcases hanswer with rfl | hanswer
      · rfl
      · exact ih { log with calls := log.calls + 1, entries := log.entries.push s } h answer hanswer

namespace Settings

theorem amounts_of_validate {s : Settings} (h : s.validate = .ok ()) :
    isAmount s.delay.base = true ∧ isAmount s.delay.stddev = true := by
  unfold validate at h
  split at h
  · cases h
  · split at h
    · cases h
    · split at h
      · cases h
      · simp_all

/-- Settings that make sense and ask for moderate delays crash no actor: every draw is a duration,
and before a log that never fails nothing goes wrong and nobody fails, whoever moves next and
whenever the stop request comes. With an observer in between, this lasts as long as it can count the
snapshots. -/
theorem moderate_never_crashes {s : Settings} (hvalid : s.validate = .ok ())
    (h : s.delay.Moderate) :
    (∀ g, ∃ d, (s.delay.sample g).1 = .ok d) ∧
    (∀ (L : Type) [StateLog L] (log : L), NeverFails log → ∀ (seed : UInt64) es r,
      (Run.start seed s.cigarettes.toNat s.delay log).Reaches es r →
        Event.fault ∉ es ∧ ∀ a, r.failed? a = none) ∧
    ∀ (L : Type) [StateLog L] (log : L), NeverFails log → ∀ (seed : UInt64) es r,
      (Run.start seed s.cigarettes.toNat s.delay ({ inner := log } : Observer L)).Reaches es r →
        (snapshots es).length < UInt64.size → Event.fault ∉ es ∧ ∀ a, r.failed? a = none := by
  obtain ⟨hbase, hstddev⟩ := amounts_of_validate hvalid
  have hsample := DelayModel.sample_of_moderate hbase hstddev h
  have htimed : ∀ {L : Type} (seed : UInt64) (log : L),
      (Run.start seed s.cigarettes.toNat s.delay log).Timed := by
    intro L seed log k
    simpa only [Run.start, Trio.get_ofFn] using hsample
  have hn := s.cigarettes.toNat_lt_size
  refine ⟨hsample, ?_, ?_⟩
  · intro L _ log hlog seed es r hr
    exact hr.none_failed (Run.known_start ..) hn (hlog.follows _ _) (htimed seed log)
  · intro L _ log hlog seed es r hr hcount
    exact hr.none_failed (Run.known_start ..) hn (Observer.follows hlog hcount) (htimed seed _)

/-- The holder of paper is called and served, and rolls next. -/
def untilRolling : List Run.Choice :=
  [.act .agent false, .act .agent false, .act (.smoker .paper) false, .act (.smoker .paper) false,
    .act (.smoker .paper) false]

def called : List Event × Run (Observer Recorder) :=
  Run.follow untilRolling (Run.drawn { inner := {} })

def rolling : List Event × Run (Observer Recorder) :=
  Run.follow (untilRolling ++ [.act (.smoker .paper) false]) (Run.drawn { inner := {} })

theorem moderate_never_crashes_rolling : Settings.validate { cigarettes := 1 } = .ok () ∧
    (∃ d, (DelayModel.sample {} (.ofSeed 1)).1 = .ok d) ∧
    (called.2.smokers.get .paper).course = .ok .starting ∧
    Event.fault ∉ rolling.1 ∧ rolling.2.failed? (.smoker .paper) = none := by
  have hvalid : Settings.validate { cigarettes := 1 } = .ok () := by decide
  have hmoderate : DelayModel.Moderate {} := by
    have hbase : (DelayModel.base {}).magnitude = 100 := by
      have hm : (DelayModel.base {}).mantissa = 7036874417766400 := rfl
      have he : (DelayModel.base {}).exponent = -46 := rfl
      rw [Binary64.magnitude, hm, he]
      norm_num
    have hstddev : (DelayModel.stddev {}).magnitude = 30 := by
      have hm : (DelayModel.stddev {}).mantissa = 8444249301319680 := rfl
      have he : (DelayModel.stddev {}).exponent = -48 := rfl
      rw [Binary64.magnitude, hm, he]
      norm_num
    rw [DelayModel.Moderate, hbase, hstddev]
    norm_num [TimeUnit.count]
  have hr : (Run.start 1 (1 : UInt64).toNat {} ({ inner := {} } : Observer Recorder)).Reaches
      rolling.1 rolling.2 := Run.reaches_drawn _ _
  obtain ⟨hsample, -, hruns⟩ := moderate_never_crashes hvalid hmoderate
  have hcount : (snapshots rolling.1).length < UInt64.size :=
    (Run.snapshots_follow_le _ _).trans_lt (by decide)
  obtain ⟨hfault, hfailed⟩ := hruns _ _ (Recorder.neverFails {} fun _ => rfl) 1 _ _ hr hcount
  exact ⟨hvalid, hsample _, by decide +kernel, hfault, hfailed _⟩

/-- A base of 10³⁰ microseconds, which is valid and longer than a duration can be. -/
def excessive : Settings := { delay := { base := ⟨0x46293e5939a08cea⟩, stddev := ⟨0⟩ } }

def burdened : Run (Observer Recorder) :=
  Run.start 1 excessive.cigarettes.toNat excessive.delay { inner := {} }

/-- Settings that make sense, of which no draw is a duration: the first smoker to set about to roll
crashes, whatever the log. -/
theorem excessive_crashes : excessive.validate = .ok () ∧
    (∀ g, (excessive.delay.sample g).1 = .error .delayTooLong) ∧ NeverFails ({} : Recorder) ∧
    ∃ es r, burdened.Reaches es r ∧ r.failed? (.smoker .paper) = some (.crash .delayTooLong) := by
  have hsample : ∀ g, (excessive.delay.sample g).1 = .error .delayTooLong := by
    intro g
    have hbase : excessive.delay.base.toFloat.toModel.unpack =
      .finite .positive (2 ^ 52 + 0x93e5939a08cea) (0x462 - 1075) (by decide) := rfl
    rw [DelayModel.sample_of_zero rfl hbase g]
    decide +kernel
  have hdraw : burdened.Reaches [] ((burdened.act .agent false).redraw .paper) :=
    Run.Reaches.refl.step (.draw .paper rfl)
  obtain ⟨es, r, hr, hallows, hc, hdelay⟩ : ∃ es r, burdened.Reaches es r ∧
      r.allows (.act (.smoker .paper) false) = true ∧
      (r.smokers.get .paper).course = .ok .starting ∧
      (r.smokers.get .paper).smoker.delay = excessive.delay :=
    ⟨_, _, hdraw.trans (Run.reaches_follow untilRolling _), by decide +kernel,
      by decide +kernel, by decide +kernel⟩
  refine ⟨by decide, hsample, Recorder.neverFails _ fun _ => rfl, _, _,
    hr.step (.take _ hallows), ?_⟩
  have hfails := Smoker.perform_starting_of_error (.smoker .paper) (hdelay ▸ hsample _) r.factory
  change Run.failed? (r.act (.smoker .paper) false) (.smoker .paper) = _
  rw [Run.act_smoker false hc (by simp), Run.noteEnd_eq]
  simp only [Run.failed?, Trio.get_set_self, hfails]

end Settings

end CigaretteSmokers
