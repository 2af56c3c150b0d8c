import CigaretteSmokers.Proofs.ReportLaw

/-!
Runs in which something goes wrong. A run fails if and only if a save or a delay has failed, and the
failure that it returns is the first that the supervisor met, a cause and not a consequence.
-/

namespace CigaretteSmokers

/-- A failure that does not come from the semaphores or from what lies on the table. The lock fails
those only who find it poisoned. -/
def Failure.IsCause (poisoned : Bool) : Failure → Prop
  | .crash _ | .error (.stateLog _) => True
  | .error .lockPoisoned => poisoned = true
  | .error (.semaphoreClosed _) | .error (.missingIngredient _ _) | .error (.invalidSmoker _ _) => False

theorem Failure.IsCause.mono {p q : Bool} {e : Failure} (h : e.IsCause p) (hpq : p = true → q = true) :
    e.IsCause q := by
  unfold IsCause at h ⊢
  split at h
  · trivial
  · trivial
  · exact hpq h
  all_goals exact h

namespace Factory

variable {ω L : Type} [StateLog L] {f f' : Factory ω L} {sec : Section} {es : List Event}
  {res : Except Failure Deed}

theorem Enters.critical_eq (h : f.Enters sec es res f') : f.critical sec.action = (res, f') := by
  cases h with
  | barred hp => simp [critical, hp]
  | crashed hp ht => simp [critical, hp, ht]
  | saved hp ht hs | refused hp ht hs | struck hp ht hs => simp [critical, hp, ht, hs]

theorem Enters.isCause {e : Failure} (h : f.Enters sec es (.error e) f') : e.IsCause f'.poisoned := by
  cases h with
  | barred hp => exact hp
  | crashed | refused | struck => trivial

theorem Enters.crash_of_poisoned (h : f.Enters sec es res f') (hp : f.poisoned = false)
    (hp' : f'.poisoned = true) : ∃ c, res = .error (.crash c) := by
  cases h with
  | barred | saved | refused => simp_all
  | crashed | struck => exact ⟨_, rfl⟩

theorem Enters.not_fault_mem {d : Deed} (h : f.Enters sec es (.ok d) f') : Event.fault ∉ es := by
  obtain ⟨-, -, rfl⟩ := h.of_ok
  simp

end Factory

theorem Smoker.Step.fails_of_fault {ω L : Type} [StateLog L] [DecidableEq ω] {w : ω} {s s' : Smoker}
    {f f' : Factory ω L} {stage : Stage} {course : Except Failure Stage} {es : List Event}
    (h : Step w s f stage es course s' f') (hf : Event.fault ∈ es) : ∃ e, course = .error e := by
  cases h with
  | failed | lacked | overslept | dozed => exact ⟨_, rfl⟩
  | arrived h | served h | left h | rolled _ h | lit _ h | finished h =>
      exact absurd hf h.not_fault_mem
  | called | queued | refused | rested | told | smoked => simp at hf

theorem Agent.Step.fails_of_fault {ω L : Type} [StateLog L] [DecidableEq ω] {w : ω} {stopped : Bool}
    {a a' : Agent} {f f' : Factory ω L} {stage : Stage} {course : Except Failure Stage}
    {es : List Event} (h : Step w stopped a f stage es course a' f') (hf : Event.fault ∈ es) :
    ∃ e, course = .error e := by
  cases h with
  | failed => exact ⟨_, rfl⟩
  | supplied h | announced h | closed h => exact absurd hf h.not_fault_mem
  | completed | heeded | drew | called | forwent | passed | queued | cancelled | abandoned | refused
  | released | left => simp at hf

theorem Smoker.Step.crashes {ω L : Type} [StateLog L] [DecidableEq ω] {w : ω} {s s' : Smoker}
    {f f' : Factory ω L} {stage : Stage} {course : Except Failure Stage} {es : List Event}
    (h : Step w s f stage es course s' f') (hp : f.poisoned = false) (hp' : f'.poisoned = true) :
    ∃ sec c, s.section? stage = some sec ∧ f.critical sec.action = (.error (.crash c), f') := by
  cases h with
  | failed hs h =>
      obtain ⟨c, hc⟩ := h.crash_of_poisoned hp hp'
      exact ⟨_, c, hs, hc ▸ h.critical_eq⟩
  | arrived h | served h | left h | lacked h | rolled _ h | lit _ h | dozed _ h | finished h =>
      simp [h.poisoned_of_ok, hp] at hp'
  | called | queued | refused | overslept | rested | told | smoked =>
      exact absurd (hp.symm.trans hp') (by simp)

theorem Agent.Step.crashes {ω L : Type} [StateLog L] [DecidableEq ω] {w : ω} {stopped : Bool}
    {a a' : Agent} {f f' : Factory ω L} {stage : Stage} {course : Except Failure Stage}
    {es : List Event} (h : Step w stopped a f stage es course a' f') (hp : f.poisoned = false)
    (hp' : f'.poisoned = true) : ∃ stopFirst sec c, section? stopped stopFirst stage = some sec ∧
      f.critical sec.action = (.error (.crash c), f') := by
  cases h with
  | failed hs h =>
      obtain ⟨c, hc⟩ := h.crash_of_poisoned hp hp'
      exact ⟨_, _, c, hs, hc ▸ h.critical_eq⟩
  | supplied h | announced h | closed h => simp [h.poisoned_of_ok, hp] at hp'
  | completed | heeded | drew | called | forwent | passed | queued | cancelled | abandoned | refused
  | released | left => exact absurd (hp.symm.trans hp') (by simp)

namespace Run

variable {L : Type} [StateLog L]

/-- A critical section has crashed on the way from `r` to `v`. -/
def SectionCrashed (r v : Run L) : Prop :=
  ∃ es u fs w gs a stopFirst sec c, Reaches r es u ∧ u.section? a stopFirst = some sec ∧
    u.factory.critical sec.action = (.error (.crash c), w.factory) ∧ Step u fs w ∧ Reaches w gs v

/-- On the way from `r` to `v` the failure `e` of `a` was the first to come before the supervisor:
of those that had come before, nobody had failed, and the semaphores were open. -/
def MetFirst (r v : Run L) (a : Actor) (e : Failure) : Prop :=
  ∃ es u rest fs, Reaches r es u ∧ u.ended = a :: rest ∧ u.failed? a = some e ∧
    (∀ b, u.isOver b = true → b ∉ u.ended → u.failed? b = none) ∧ u.factory.destroyed = false ∧
    Reaches u.supervise fs v

section

variable {n : Nat} {es fs : List Event} {r r' u v w : Run L} {a : Actor} {e : Failure}

theorem SectionCrashed.trans (h : SectionCrashed r u) (hv : Reaches u fs v) : SectionCrashed r v := by
  obtain ⟨es, w, gs, x, hs', a, stopFirst, sec, c, hw, hsec, hc, hx, hu⟩ := h
  exact ⟨es, w, gs, x, _, a, stopFirst, sec, c, hw, hsec, hc, hx, hu.trans hv⟩

theorem MetFirst.trans (h : MetFirst r u a e) (hv : Reaches u fs v) : MetFirst r v a e := by
  obtain ⟨es, w, rest, gs, hw, he, hf, hb, hd, hu⟩ := h
  exact ⟨es, w, rest, _, hw, he, hf, hb, hd, hu.trans hv⟩

theorem Moves.failed_mono (hm : Moves r fs r') (h : r.failed? a = some e) : r'.failed? a = some e := by
  cases hm with
  | @smoker k stage _ _ _ _ _ hc =>
      rw [noteEnd_eq]
      cases a with
      | smoker j =>
          by_cases hj : j = k
          · subst hj
            simp [failed?, hc] at h
          · simpa [failed?, hj] using h
      | agent => exact h
  | agent _ hc =>
      rw [noteEnd_eq]
      cases a with
      | smoker j => exact h
      | agent => simp [failed?, hc] at h
  | smokerReported | agentReported | failed | stopped | abandoned => exact h

theorem Moves.fails_of_fault (hm : Moves r fs r') (hf : Event.fault ∈ fs) :
    ∃ a, r'.failed? a ≠ none := by
  cases hm with
  | @smoker k _ _ _ _ _ _ _ _ hst =>
      obtain ⟨e, rfl⟩ := hst.fails_of_fault hf
      rw [noteEnd_eq]
      exact ⟨.smoker k, by simp [failed?]⟩
  | agent _ _ _ hst =>
      obtain ⟨e, rfl⟩ := hst.fails_of_fault hf
      rw [noteEnd_eq]
      exact ⟨.agent, by simp [failed?]⟩
  | smokerReported | agentReported | failed | stopped | abandoned => simp at hf

theorem Moves.crashes (hm : Moves r fs r') (hp : r.factory.poisoned = false)
    (hp' : r'.factory.poisoned = true) : ∃ a stopFirst sec c, r.section? a stopFirst = some sec ∧
      r.factory.critical sec.action = (.error (.crash c), r'.factory) := by
  cases hm with
  | @smoker k _ _ _ _ _ _ hc _ hst =>
      rw [noteEnd_eq] at hp' ⊢
      obtain ⟨sec, c, hs, hcrit⟩ := hst.crashes hp hp'
      exact ⟨.smoker k, false, sec, c, by simpa only [section?, hc] using hs, hcrit⟩
  | agent _ hc _ hst =>
      rw [noteEnd_eq] at hp' ⊢
      obtain ⟨stopFirst, sec, c, hs, hcrit⟩ := hst.crashes hp hp'
      exact ⟨.agent, stopFirst, sec, c, by simpa only [section?, hc] using hs, hcrit⟩
  | smokerReported | agentReported | stopped | abandoned => exact absurd (hp.symm.trans hp') (by simp)
  | failed =>
      simp only at hp'
      split at hp' <;> exact absurd (hp.symm.trans hp') (by simp)

theorem Reaches.sectionCrashed (h : Reaches r es v) (hp : r.factory.poisoned = false)
    (hp' : v.factory.poisoned = true) : SectionCrashed r v := by
  -- The lock is poisoned by the last step, or was poisoned before it.
  induction h with
  | refl => simp [hp] at hp'
  | @step es fs u v hl hs ih =>
      by_cases hu : u.factory.poisoned = true
      · exact (ih hu).trans (.step .refl hs)
      · obtain ⟨a, stopFirst, sec, c, hsec, hc⟩ := hs.moves.crashes (by simpa using hu) hp'
        exact ⟨es, u, fs, v, [], a, stopFirst, sec, c, hl, hsec, hc, hs, .refl⟩
  | overtake _ ho ih => exact (ih hp').trans (.overtake .refl ho)

theorem Reaches.fails_of_fault (h : Reaches r es v) (hf : Event.fault ∈ es) :
    ∃ a, v.failed? a ≠ none := by
  induction h with
  | refl => simp at hf
  | step _ hs ih =>
      rcases List.mem_append.1 hf with hf | hf
      · obtain ⟨a, ha⟩ := ih hf
        obtain ⟨e, he⟩ := Option.ne_none_iff_exists'.1 ha
        exact ⟨a, by simp [hs.moves.failed_mono he]⟩
      · exact hs.moves.fails_of_fault hf
  | overtake _ _ ih => exact ih hf

/-- The supervisor has closed the semaphores over a failure that it has recorded; until then nobody
fails but for a cause. -/
structure Attended (r : Run L) : Prop where
  recorded : r.factory.destroyed = true → r.failure ≠ none
  cause : r.factory.destroyed = false → ∀ a e, r.failed? a = some e → e.IsCause r.factory.poisoned

omit [StateLog L] in
theorem attended_start (seed : UInt64) (n : Nat) (delay : DelayModel) (log : L) :
    Attended (start seed n delay log) where
  recorded := by simp [start, Factory.destroyed]
  cause := fun _ a e h => by cases a <;> simp [start, failed?] at h

theorem Balanced.smoker_cause (hb : Balanced n es r) (hw : Watched r)
    (hd : r.factory.destroyed = false) {k : Ingredient} {stage : Smoker.Stage} {s : Smoker}
    {f : Factory Actor L} (hc : (r.smokers.get k).course = .ok stage)
    (hst : Smoker.Step (.smoker k) (r.smokers.get k).smoker r.factory stage fs (.error e) s f) :
    e.IsCause f.poisoned := by
  cases hst with
  | failed _ hin => exact hin.isCause
  | refused hp =>
      have hclosed := (Semaphore.refused_permits hp).2.2.1
      rw [hb.holds k, hw.closed k, show r.factory.cigarette.closed = false from hd] at hclosed
      cases hclosed
  | lacked hin =>
      obtain ⟨-, hdeed, -⟩ := hin.of_ok
      obtain ⟨hopen, hi, hlt⟩ := hdeed.finds
      rw [hb.holds k] at hi
      exact absurd (hb.not_lacking hc hopen hi) (by omega)
  | overslept | dozed => trivial

theorem agent_cause (hd : r.factory.destroyed = false) {stage : Agent.Stage} {g : Agent}
    {f : Factory Actor L}
    (hst : Agent.Step .agent r.stop.requested r.agent.agent r.factory stage fs (.error e) g f) :
    e.IsCause f.poisoned := by
  cases hst with
  | failed _ hin => exact hin.isCause
  | refused hp =>
      have hclosed := (Semaphore.refused_permits hp).2.2.1
      rw [show r.factory.cigarette.closed = false from hd] at hclosed
      cases hclosed

omit [StateLog L] in
theorem Attended.noteEnd (h : Attended r) (hd : r'.factory.destroyed = r.factory.destroyed)
    (hf : r'.failure = r.failure) (hp : r'.factory.poisoned = false → r.factory.poisoned = false)
    (hothers : ∀ b, b ≠ a → r'.failed? b = r.failed? b)
    (hself : r.factory.destroyed = false → ∀ e, r'.failed? a = some e → e.IsCause r'.factory.poisoned) :
    Attended (noteEnd a r') := by
  rw [noteEnd_eq]
  refine ⟨fun hdes => ?_, fun hdes b e he => ?_⟩
  · rw [show r'.failure = r.failure from hf]
    exact h.recorded (hd ▸ hdes)
  · have hopen : r.factory.destroyed = false := hd ▸ hdes
    change r'.failed? b = some e at he
    by_cases hb : b = a
    · subst hb
      exact hself hopen e he
    · rw [hothers b hb] at he
      refine (h.cause hopen b e he).mono fun hpois => ?_
      by_contra hno
      simp [hp (by simpa using hno)] at hpois

theorem Attended.moves (h : Attended r) (hb : Balanced n es r) (hw : Watched r)
    (hm : Moves r fs r') : Attended r' := by
  cases hm with
  | @smoker k stage _ course s f _ hc _ hst =>
      obtain ⟨-, -, hcig⟩ := hst.uses
      refine h.noteEnd (hcig (.smoker k)).closed rfl hst.records.unpoisoned (fun b hb => ?_) ?_
      · cases b with
        | smoker j => simp [failed?, show j ≠ k from fun hj => hb (by rw [hj])]
        | agent => rfl
      · intro hd e he
        simp only [failed?, Trio.get_set_self] at he
        split at he <;> cases he
        exact hb.smoker_cause hw hd hc (by simpa only using hst)
  | agent _ _ _ hst =>
      obtain ⟨o, hr⟩ := hst.records
      refine h.noteEnd hst.uses.2.closed rfl hr.unpoisoned (fun b hb => ?_) ?_
      · cases b with
        | smoker j => rfl
        | agent => exact absurd rfl hb
      · intro hd e he
        simp only [failed?] at he
        split at he <;> cases he
        exact agent_cause hd (by simpa only using hst)
  | smokerReported | agentReported | stopped | abandoned => exact ⟨h.recorded, h.cause⟩
  | failed =>
      have hclosed : (if r.factory.destroyed then r.factory else r.factory.destroy).destroyed = true := by
        split
        · assumption
        · rfl
      refine ⟨fun _ => ?_, fun hd => ?_⟩
      · cases r.failure <;> simp
      · rw [hclosed] at hd
        cases hd

/-- What is known of a run that has come to `r`, whoever has overtaken whom. -/
structure Known (n : Nat) (es : List Event) (r : Run L) : Prop where
  balanced : Balanced n es r
  watched : Watched r
  attended : Attended r
  heard : Heard r
  faultless : Event.fault ∉ es → Faultless n es r

omit [StateLog L] in
theorem known_start (seed : UInt64) (n : Nat) (delay : DelayModel) (log : L) :
    Known n [] (start seed n delay log) :=
  ⟨balanced_start .., watched_start .., attended_start .., heard_start .., fun _ => faultless_start ..⟩

omit [StateLog L] in
theorem Known.overtake (h : Known n es r) {order : List Actor} (ho : order.Perm r.ended) :
    Known n es { r with ended := order } where
  balanced := h.balanced.overtake order
  watched := h.watched.overtake ho
  attended := { h.attended with }
  heard := h.heard.overtake ho
  faultless := fun hf => { h.faultless hf with }

theorem Known.reaches {r₀ : Run L} (h₀ : Known n [] r₀) (hn : n < UInt64.size)
    (h : Reaches r₀ es r) : Known n es r := by
  induction h with
  | refl => exact h₀
  | step _ hs ih =>
      have hm := hs.moves
      refine ⟨ih.balanced.moves hm, ih.watched.moves ih.balanced.holds hm,
        ih.attended.moves ih.balanced ih.watched hm, ih.heard.moves hm, fun hf => ?_⟩
      rw [List.mem_append, not_or] at hf
      exact (ih.faultless hf.1).moves ih.balanced ih.watched hn hm hf.2
  | overtake _ ho ih => exact ih.overtake ho

omit [StateLog L] in
/-- Until the supervisor meets a failure, those that it has handled have not failed. -/
theorem Known.none_failed (h : Known n es r) (hd : r.factory.destroyed = false) {b : Actor}
    (hb : b ∉ r.ended) : r.failed? b = none := by
  by_contra hf
  rcases h.watched.noted b hf with hmem | hdes
  · exact hb hmem
  · simp [hd] at hdes

theorem Known.metFirst {r₀ : Run L} (h₀ : Known n [] r₀) (hn : n < UInt64.size)
    (hfresh : r₀.failure = none) (h : Reaches r₀ es r) (hf : r.failure = some (a, e)) :
    MetFirst r₀ r a e := by
  induction h with
  | refl => simp [hfresh] at hf
  | @step es fs u v hl hs ih =>
      cases hs.moves with
      | smoker | agent =>
          rw [noteEnd_eq] at hf
          exact (ih hf).trans (.step .refl hs)
      | smokerReported | agentReported | stopped | abandoned => exact (ih hf).trans (.step .refl hs)
      | @failed b rest c he hb =>
          rcases Option.eq_none_or_eq_some u.failure with hu | ⟨met, hu⟩
          -- With nothing recorded the semaphores are still open, and this failure is the first.
          · have hk := h₀.reaches hn hl
            have hopen : u.factory.destroyed = false := by
              by_contra hd
              exact hk.attended.recorded (by simpa using hd) hu
            obtain ⟨rfl, rfl⟩ : b = a ∧ c = e := by simpa [hu] using hf
            refine ⟨es, u, rest, [], hl, he, hb, fun d _ hd => hk.none_failed hopen hd, hopen, ?_⟩
            have hv : u.supervise = { u with
                ended := rest
                factory := if u.factory.destroyed then u.factory else u.factory.destroy
                failure := u.failure <|> some (b, c) } := by
              simp only [supervise, he, hb]
            rw [hv]
            exact .refl
          · exact (ih (by simpa [hu] using hf)).trans (.step .refl hs)
  | overtake _ ho ih => exact (ih hf).trans (.overtake .refl ho)

end

/-- The failure that the supervisor met first is one of a log or of a delay, or of a lock in whose
hold somebody had crashed. -/
theorem Known.cause_of_metFirst {n : Nat} {r₀ r : Run L} {a : Actor} {x : ActorError}
    (h₀ : Known n [] r₀) (hn : n < UInt64.size) (hp : r₀.factory.poisoned = false)
    (h : MetFirst r₀ r a (.error x)) :
    (∃ l, x = .stateLog l) ∨ x = .lockPoisoned ∧ SectionCrashed r₀ r := by
  obtain ⟨es, u, rest, fs, hu, he, hf, -, hopen, hv⟩ := h
  have hcause := (h₀.reaches hn hu).attended.cause hopen a _ hf
  cases x with
  | stateLog l => exact .inl ⟨l, rfl⟩
  | lockPoisoned =>
      have hs : Step u [] u.supervise := .take .supervise (by simp [allows, he])
      exact .inr ⟨rfl, (hu.sectionCrashed hp hcause).trans ((Reaches.refl.step hs).trans hv)⟩
  | semaphoreClosed | missingIngredient | invalidSmoker => exact hcause.elim

variable {n : Nat} {es : List Event} {r : Run (Observer L)}

omit [StateLog L] in
/-- At the end every failure has come before the supervisor. -/
theorem Known.destroyed_of_failed (h : Known n es r) (hf : r.finished = true) {a : Actor}
    (ha : r.failed? a ≠ none) : r.factory.destroyed = true := by
  by_contra hd
  exact ha (h.none_failed (by simpa using hd) (by simp [ended_nil_of_finished hf]))

omit [StateLog L] in
theorem Known.failure_iff (h : Known n es r) (hf : r.finished = true)
    (hfaults : Event.fault ∈ es → ∃ a, r.failed? a ≠ none) : r.failure ≠ none ↔ Event.fault ∈ es := by
  constructor
  · intro hfailure
    by_contra hfault
    exact hfailure (h.faultless hfault).failure
  · intro hfault
    obtain ⟨a, ha⟩ := hfaults hfault
    exact h.attended.recorded (h.destroyed_of_failed hf ha)

omit [StateLog L] in
theorem Known.outcome_eq (h : Known n es r) (hf : r.finished = true)
    (hfailure : r.failure ≠ none ↔ Event.fault ∈ es) (key : AccessKey) (seed : UInt64) {e : RunError}
    (he : r.outcome key seed = .error e) : ∃ a c, r.failure = some (a, c) ∧ e = .ofFailure a c := by
  rcases Option.eq_none_or_eq_some r.failure with hnone | ⟨⟨a, c⟩, hsome⟩
  -- Nobody has failed: the table can be read, and the agent has reported.
  · have hfault : Event.fault ∉ es := fun hfault => hfailure.2 hfault hnone
    have hreport := h.heard.agentReport_eq (ended_nil_of_finished hf)
      ((h.faultless hfault).gone_of_finished hf).1
    simp [outcome, hnone, hreport, Factory.snapshot, (h.faultless hfault).poisoned] at he
  · refine ⟨a, c, hsome, ?_⟩
    simpa [outcome, hsome] using he.symm

/-- The outcome of a run in which something goes wrong: there is an error if and only if a save or a
delay has failed, and then everybody has ended and the semaphores are destroyed. The error is the
failure that came before the supervisor first, and the actor's error in it, if there is one, says
that a save failed or that the lock was poisoned by a crash. -/
theorem failure_outcome (key : AccessKey) (seed rounds : UInt64) (delay : DelayModel) (log : L)
    (h : (start seed rounds.toNat delay ({ inner := log } : Observer L)).Reaches es r)
    (hend : ∀ c, c.isInside = true → r.allows c = false) :
    ((∃ e, r.outcome key seed = .error e) ↔ Event.fault ∈ es) ∧
    ∀ e, r.outcome key seed = .error e →
      r.factory.destroyed = true ∧ (∀ k, (r.factory.ready.get k).closed = true) ∧
      (∀ a, r.isOver a = true) ∧
      ∃ a c, e = .ofFailure a c ∧
        MetFirst (start seed rounds.toNat delay { inner := log }) r a c ∧
        ∀ x, e.actorError? = some x → (∃ l, x = .stateLog l) ∨
          x = .lockPoisoned ∧ SectionCrashed (start seed rounds.toNat delay { inner := log }) r := by
  have hn : rounds.toNat < UInt64.size := rounds.toNat_lt_size
  have h₀ := known_start seed rounds.toNat delay ({ inner := log } : Observer L)
  have hk := h₀.reaches hn h
  have hf : r.finished = true := hk.balanced.finished_of_stuck hk.watched (stuck_of_allows hend)
  have hfailure := hk.failure_iff hf h.fails_of_fault
  refine ⟨⟨fun ⟨e, he⟩ => ?_, fun hfault => ?_⟩, fun e he => ?_⟩
  · obtain ⟨a, c, hc, -⟩ := hk.outcome_eq hf hfailure key seed he
    exact hfailure.1 (by simp [hc])
  · obtain ⟨⟨a, c⟩, hc⟩ := Option.ne_none_iff_exists'.1 (hfailure.2 hfault)
    exact ⟨.ofFailure a c, by simp [outcome, hc]⟩
  · obtain ⟨a, c, hc, rfl⟩ := hk.outcome_eq hf hfailure key seed he
    have hmet := h₀.metFirst hn rfl h hc
    obtain ⟨b, hb⟩ := h.fails_of_fault (hfailure.1 (by simp [hc]))
    have hdestroyed := hk.destroyed_of_failed hf hb
    refine ⟨hdestroyed, fun k => (hk.watched.closed k).trans hdestroyed, over_of_finished hf,
      a, c, rfl, hmet, fun x hx => ?_⟩
    cases c with
    | crash => cases hx
    | error y =>
        cases hx
        exact h₀.cause_of_metFirst hn rfl hmet

def crashing : Recorder := { fault := fun n => if n = 0 then some (.crashed (.other "")) else none }

/-- The first save crashes; the smoker that finds the lock poisoned overtakes the one that crashed. -/
def overtaken : List Event × Run (Observer Recorder) :=
  follow [.act (.smoker .tobacco) false, .act (.smoker .paper) false]
    (start 1 1 {} { inner := crashing })

def overtakenEnd : List Event × Run (Observer Recorder) :=
  follow ([.supervise, .supervise, .act (.smoker .matchstick) false, .supervise, .requestStop] ++
    List.replicate 2 (.act .agent false) ++ [.supervise])
    { overtaken.2 with ended := overtaken.2.ended.reverse }

theorem failure_outcome_overtaken : Event.fault ∈ overtaken.1 ++ overtakenEnd.1 ∧
    ∃ e, overtakenEnd.2.outcome default 1 = .error e ∧ e.actorError? = some .lockPoisoned ∧
      overtakenEnd.2.factory.destroyed = true := by
  have hl : (start 1 (1 : UInt64).toNat {} { inner := crashing }).Reaches
      (overtaken.1 ++ overtakenEnd.1) overtakenEnd.2 :=
    ((reaches_follow _ _).overtake (List.reverse_perm _)).trans (reaches_follow _ _)
  obtain ⟨hf, hfault, hfailure⟩ : overtakenEnd.2.finished = true ∧
      Event.fault ∈ overtaken.1 ++ overtakenEnd.1 ∧
      overtakenEnd.2.failure = some (.smoker .paper, .error .lockPoisoned) := by decide +kernel
  have houtcome : overtakenEnd.2.outcome default 1 =
      .error (.terminated (.smoker .paper) .lockPoisoned) := by simp [outcome, hfailure, RunError.ofFailure]
  obtain ⟨-, he⟩ := failure_outcome default 1 1 {} crashing hl fun _ => not_allows_of_finished hf
  exact ⟨hfault, _, houtcome, rfl, (he _ houtcome).1⟩

end Run

end CigaretteSmokers
