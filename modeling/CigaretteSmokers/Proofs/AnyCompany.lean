import CigaretteSmokers.Law.Observer
import CigaretteSmokers.Log.Recorder
import CigaretteSmokers.Run
import CigaretteSmokers.Proofs.LawfulDeeds
import CigaretteSmokers.Proofs.SmokerSteps

/-!
The smokers in any company. Whoever lays out, calls, closes or destroys, as often and in whatever
order, the smokers break no law.
-/

namespace CigaretteSmokers

open Event (snapshots)

namespace Smoker

/-- The status that a smoker shows at a stage. -/
def Stage.Shows : Stage → SmokerStatus → Prop
  | .arriving, s => s ≠ .closing
  | .awaiting, s | .collecting, s | .starting, s => s = .waiting
  | .rolling _, s | .telling, s | .lighting, s => s = .rolling
  | .smoking _, s | .finishing, s => s = .smoking
  | .gone, _ => True

variable {ω L : Type} {s s' : Smoker} {f f' : Factory ω L} {stage next : Stage} {es : List Event}

theorem timely {d : Deed} {t : Table} (h : s.section? stage = some d.origin)
    (hs : stage.Shows (t.smokers.get s.holds)) : d.Timely t := by
  rcases section?_eq h with ⟨rfl, hd⟩ | ⟨rfl, hd⟩ | ⟨rfl, hd⟩ | ⟨rfl, hd⟩ | ⟨rfl, hd⟩
  all_goals
    simp only [Stage.Shows] at hs
    cases d <;> cases hd
    simp [Deed.Timely, hs]

theorem smokersAfter_ne {d : Deed} (h : s.section? stage = some d.origin) {k : Ingredient}
    (hk : k ≠ s.holds) (t : Trio SmokerStatus) : (d.smokersAfter t).get k = t.get k := by
  rcases section?_eq h with ⟨-, hd⟩ | ⟨-, hd⟩ | ⟨-, hd⟩ | ⟨-, hd⟩ | ⟨-, hd⟩
  case inr.inl =>
    cases d <;> cases hd
    rename_i v
    cases v <;> simp [Deed.smokersAfter, hk]
  all_goals
    cases d <;> cases hd
    simp [Deed.smokersAfter, hk]

variable [StateLog L] [DecidableEq ω]

theorem Step.shows {w : ω} (h : Step w s f stage es (.ok next) s' f')
    (hs : stage.Shows (f.table.smokers.get s.holds)) : next.Shows (f'.table.smokers.get s.holds) := by
  cases h with
  | arrived h | served h | left h | rolled _ h | lit _ h | finished h =>
      obtain ⟨-, hd, -⟩ := h.of_ok
      simp only [Stage.Shows] at hs
      simp [hd.smokers, Deed.smokersAfter, Stage.Shows, hs]
  | called | queued | rested | told | smoked => exact hs

end Smoker

namespace Observer

variable {L : Type}

theorem inspect_passes {past : Option Table} {now : Table} (h : Law.Passes past now) (n : UInt64)
    (laws : List Law) : inspect past now n (laws.map Law.checker) = .ok [] := by
  induction laws with
  | nil => rfl
  | cons law laws ih => simp [inspect, Law.checker, h law, Except.map, ih]

/-- A table to which there is nothing to object is counted, if it still can be. -/
theorem save_passes [StateLog L] {o : Observer L} {t : Table} (hp : o.poisoned = false)
    (hc : o.checkers = Law.all.map Law.checker) (ht : Law.Passes o.previous t) (clock : Nat) :
    (o.seen.toNat + 1 < UInt64.size ∧ (StateLog.save clock t o).2 = { o with
      previous := some t
      seen := UInt64.ofNat (o.seen.toNat + 1)
      inner := (StateLog.save clock t o.inner).2 }) ∨
    (o.seen.toNat + 1 = UInt64.size ∧ StateLog.save clock t o =
      (.error (.crashed .additionOverflow), { o with previous := some t, poisoned := true })) := by
  change (_ ∧ (o.save clock t).2 = _) ∨ (_ ∧ o.save clock t = _)
  by_cases hn : o.seen.toNat + 1 < UInt64.size
  · exact .inl ⟨hn, by simp [save, hp, hc, inspect_passes ht, Checked.unsigned, hn]⟩
  · have := o.seen.toNat_lt_size
    exact .inr ⟨by omega, by simp [save, hp, hc, inspect_passes ht, Checked.unsigned, hn]⟩

end Observer

/-- The observer has found nothing to object to in the snapshots it was given, and it has seen the
table as it stands. Only a snapshot too many to be counted poisons it, and the factory with it. -/
structure Watching {ω L : Type} (es : List Event) (f : Factory ω (Observer L)) : Prop where
  seen : f.log.poisoned = false → f.log.seen.toNat = (snapshots es).length
  full : f.log.poisoned = true → f.poisoned = true ∧ UInt64.size ≤ (snapshots es).length
  checkers : f.log.checkers = Law.all.map Law.checker
  found : f.log.found = []
  previous : f.log.previous = (snapshots es).getLast?
  current : f.poisoned = false → ∀ t ∈ (snapshots es).getLast?, t = f.table
  nonNegative : f.poisoned = false → f.table.NonNegative
  first : ∀ t ∈ (snapshots es).head?, Law.Passes none t
  chain : (snapshots es).IsChain fun past now => Law.Passes (some past) now

namespace Watching

variable {ω L : Type} [StateLog L] {es fs : List Event} {f f' : Factory ω (Observer L)}
  {o : Option Section}

theorem records (h : Watching es f) (hr : f.Records f' o fs)
    (ht : ∀ d : Deed, o = some d.origin → f.poisoned = false → d.Timely f.table) :
    Watching (es ++ fs) f' := by
  cases hr with
  | silent hs hl htable =>
      have hsnapshots : snapshots (es ++ fs) = snapshots es := by simp [hs]
      constructor
      case current =>
        intro hp
        rw [hsnapshots, (htable hp).2]
        exact h.current (htable hp).1
      case nonNegative => exact fun hp => (htable hp).2 ▸ h.nonNegative (htable hp).1
      case full =>
        intro hp
        rw [hl] at hp
        rw [hsnapshots]
        obtain ⟨hpoisoned, hn⟩ := h.full hp
        refine ⟨?_, hn⟩
        by_contra hf
        simp [(htable (by simpa using hf)).1] at hpoisoned
      all_goals simp only [hl, hsnapshots]
      case seen => exact h.seen
      case checkers => exact h.checkers
      case found => exact h.found
      case previous => exact h.previous
      case first => exact h.first
      case chain => exact h.chain
  | @deed d rest hp ho hd hl hrest _ hcrash =>
      have hsnapshots : snapshots (es ++ .entered d f'.table :: rest) = snapshots es ++ [f'.table] := by
        simp [hrest]
      obtain ⟨hnone, hsome⟩ := hd.passes (h.nonNegative hp) (ht d ho hp)
      -- What the observer saw last, if anything, is the table that the deed came upon.
      have hpasses : Law.Passes f.log.previous f'.table := by
        rw [h.previous]
        cases hlast : (snapshots es).getLast? with
        | none => exact hnone
        | some t =>
            rw [h.current hp t hlast]
            exact hsome
      have hlog : f.log.poisoned = false := by
        by_contra hfull
        simp [(h.full (by simpa using hfull)).1] at hp
      have hseen := h.seen hlog
      have hsave := Observer.save_passes hlog h.checkers hpasses f.clock
      obtain ⟨hcheckers, hfound, hprevious⟩ : f'.log.checkers = f.log.checkers ∧
          f'.log.found = f.log.found ∧ f'.log.previous = some f'.table := by
        rw [hl]
        rcases hsave with ⟨-, hsave⟩ | ⟨-, hsave⟩ <;> rw [hsave] <;> exact ⟨rfl, rfl, rfl⟩
      constructor
      case nonNegative => exact fun _ => hd.nonNegative (h.nonNegative hp)
      case checkers => exact hcheckers.trans h.checkers
      case found => exact hfound.trans h.found
      all_goals simp only [hsnapshots, List.length_append, List.length_singleton]
      case seen =>
        intro hlog'
        rcases hsave with ⟨hn, hsave⟩ | ⟨-, hsave⟩
        · rw [hl, hsave, ← hseen]
          exact UInt64.toNat_ofNat_of_lt' hn
        · simp [hl, hsave] at hlog'
      case full =>
        intro hlog'
        rcases hsave with ⟨-, hsave⟩ | ⟨hn, hsave⟩
        · simp [hl, hsave, hlog] at hlog'
        · exact ⟨hcrash _ (congrArg Prod.fst hsave), by omega⟩
      case previous => simp [hprevious]
      case current => simp
      case first =>
        intro t hmem
        rw [List.head?_append] at hmem
        cases hhead : (snapshots es).head? with
        | none =>
            obtain rfl : t = f'.table := by simpa [hhead, eq_comm] using hmem
            exact hnone
        | some u => exact h.first t (by simpa [hhead] using hmem)
      case chain =>
        refine List.isChain_append.2 ⟨h.chain, .singleton _, fun past hlast now hnow => ?_⟩
        obtain rfl : now = f'.table := by simpa [eq_comm] using hnow
        rw [h.current hp past hlast]
        exact hsome

end Watching

/-- The three smokers at a factory that others use as well. -/
structure Company (ω L : Type) where
  factory : Factory ω (Observer L)
  smokers : Trio Run.SmokerTask

namespace Company

variable {ω L : Type}

/-- The smokers come to a table that is laid out already. Each has a generator and a pace of its
own, and the observer keeps the laws. -/
def start (t : Table) (generators : Trio Random.Generator) (delays : Trio DelayModel) (log : L) :
    Company ω L where
  factory := { table := t, log := { inner := log } }
  smokers := .ofFn fun k =>
    { smoker := { holds := k, generator := generators.get k, delay := delays.get k } }

variable [StateLog L] [DecidableEq ω]

/-- What may happen next: a step of a smoker, or something that the others do. They lay out, call
and wait as they please, announce the closing, or destroy the semaphores. -/
inductive Choice (ω : Type)
  | smoker (k : Ingredient)
  | supply (k : Ingredient)
  | call (k : Ingredient)
  | announce
  | await (w : ω)
  | giveUp (w : ω)
  | close
  | destroy

/-- What comes of a choice. Smoker `k` waits by the name `v k`. -/
def take (v : Ingredient → ω) (c : Company ω L) : Choice ω → List Event × Company ω L
  | .smoker k =>
      let task := c.smokers.get k
      match task.course with
      | .error _ | .ok .gone => ([], c)
      | .ok stage =>
          let (course, smoker, factory) := task.smoker.perform (v k) stage c.factory
          (task.smoker.events stage c.factory,
            { factory, smokers := c.smokers.set k { smoker, course } })
  | .supply k => (c.factory.entry (.supply k), { c with factory := (c.factory.critical (.supply k)).2 })
  | .call k => ([], { c with factory := c.factory.signalIngredients k })
  | .announce => (c.factory.entry .announce,
      { c with factory := (c.factory.critical (.setAgent .waiting)).2 })
  | .await w => ([], { c with factory := (c.factory.awaitCigarette w).2 })
  | .giveUp w => ([], { c with factory := c.factory.cancelCigarette w })
  | .close => (c.factory.entry .close, { c with factory := (c.factory.critical .close).2 })
  | .destroy => ([], { c with factory := c.factory.destroy })

def follow (v : Ingredient → ω) : List (Choice ω) → Company ω L → List Event × Company ω L
  | [], c => ([], c)
  | m :: ms, c => ((c.take v m).1 ++ (follow v ms (c.take v m).2).1, (follow v ms (c.take v m).2).2)

/-- Every smoker that has not left shows what it is about, for the observer to see. -/
structure Orderly (es : List Event) (c : Company ω L) : Prop where
  holds : ∀ k, (c.smokers.get k).smoker.holds = k
  watching : Watching es c.factory
  shows : c.factory.poisoned = false → ∀ k stage, (c.smokers.get k).course = .ok stage →
    stage.Shows (c.factory.table.smokers.get k)

omit [StateLog L] [DecidableEq ω] in
theorem orderly_start {t : Table} (hn : t.NonNegative) (hs : ∀ k, t.smokers.get k ≠ .closing)
    (generators : Trio Random.Generator) (delays : Trio DelayModel) (log : L) :
    Orderly [] (start t generators delays log : Company ω L) where
  holds := by simp [start]
  watching := ⟨fun _ => rfl, by simp [start], rfl, rfl, rfl, by simp, fun _ => hn, by simp, .nil⟩
  shows := by
    intro _ k stage hc
    obtain rfl : stage = .arriving := by simpa [start, eq_comm] using hc
    exact hs k

namespace Orderly

variable {es fs : List Event} {c : Company ω L}

theorem smoker (h : Orderly es c) {v : Ingredient → ω} {k : Ingredient} {stage : Smoker.Stage}
    {course : Except Failure Smoker.Stage} {s : Smoker} {f : Factory ω (Observer L)}
    (hc : (c.smokers.get k).course = .ok stage)
    (hst : Smoker.Step (v k) (c.smokers.get k).smoker c.factory stage fs course s f) :
    Orderly (es ++ fs) { factory := f, smokers := c.smokers.set k { smoker := s, course } } := by
  have hk := h.holds k
  have hr := hst.records
  refine ⟨fun j => ?_, h.watching.records hr fun d hd hp => ?_, fun hp j next hn => ?_⟩
  · by_cases hj : j = k
    · subst hj
      simpa using hst.holds.trans hk
    · simpa [hj] using h.holds j
  · exact Smoker.timely hd (hk.symm ▸ h.shows hp k stage hc)
  · have hp₀ := hr.unpoisoned hp
    by_cases hj : j = k
    · subst hj
      obtain rfl : course = .ok next := by simpa using hn
      simpa only [hk] using hst.shows (hk.symm ▸ h.shows hp₀ j stage hc)
    · have hstatus := hr.status (k := j) hp fun d hd t => Smoker.smokersAfter_ne hd (by rwa [hk]) t
      rw [hstatus]
      exact h.shows hp₀ j next (by simpa [hj] using hn)

omit [DecidableEq ω] in
theorem others (h : Orderly es c) {o : Option Section} {f : Factory ω (Observer L)}
    (hr : c.factory.Records f o fs)
    (ho : o = none ∨ (∃ k, o = some (.supply k)) ∨ o = some .announce ∨ o = some .close) :
    Orderly (es ++ fs) { c with factory := f } := by
  have hd : ∀ d : Deed, o = some d.origin → (∀ t, d.Timely t) ∧ ∀ t, d.smokersAfter t = t := by
    rintro d rfl
    cases d <;> simp [Deed.origin, Deed.Timely, Deed.smokersAfter] at ho ⊢
  refine ⟨h.holds, h.watching.records hr fun d hd' _ => (hd d hd').1 _, fun hp k stage hc => ?_⟩
  have hstatus := hr.status (k := k) hp fun d hd' t => by rw [(hd d hd').2]
  rw [hstatus]
  exact h.shows (hr.unpoisoned hp) k stage hc

omit [DecidableEq ω] in
theorem aside (h : Orderly es c) {f : Factory ω (Observer L)} (ht : f.table = c.factory.table)
    (hl : f.log = c.factory.log) (hp : f.poisoned = c.factory.poisoned) :
    Orderly (es ++ []) { c with factory := f } :=
  h.others (.silent rfl hl fun hf => ⟨hp ▸ hf, ht⟩) (.inl rfl)

omit [DecidableEq ω] in
theorem enters (h : Orderly es c) {α : Type} {act : Table.Action α} {g : α → Deed} (sec : Section)
    (hact : sec.action = g <$> act) (ho : (∃ k, sec = .supply k) ∨ sec = .announce ∨ sec = .close) :
    Orderly (es ++ c.factory.entry sec) { c with factory := (c.factory.critical act).2 } := by
  have hin := c.factory.enters_critical sec
  rw [hact, Factory.critical_map] at hin
  exact h.others hin.records (.inr (by simpa using ho))

theorem take (h : Orderly es c) (v : Ingredient → ω) (m : Choice ω) :
    Orderly (es ++ (c.take v m).1) (c.take v m).2 := by
  cases m with
  | smoker k =>
      simp only [Company.take]
      split
      · simpa using h
      · simpa using h
      · rename_i stage hg hc
        exact h.smoker hc (Smoker.step_perform (v k) _ hg _)
  | supply k => exact h.enters (.supply k) rfl (.inl ⟨k, rfl⟩)
  | announce => exact h.enters .announce rfl (.inr (.inl rfl))
  | close => exact h.enters .close rfl (.inr (.inr rfl))
  | await w =>
      have hf : (c.factory.awaitCigarette w).2 =
          { c.factory with cigarette := (c.factory.cigarette.poll w).2 } := by
        unfold Factory.awaitCigarette
        rcases c.factory.cigarette.poll w with ⟨_ | _ | _, q⟩ <;> rfl
      simp only [Company.take, hf]
      exact h.aside rfl rfl rfl
  | call | giveUp | destroy => exact h.aside rfl rfl rfl

theorem follow (h : Orderly es c) (v : Ingredient → ω) (ms : List (Choice ω)) :
    Orderly (es ++ (c.follow v ms).1) (c.follow v ms).2 := by
  induction ms generalizing es c with
  | nil => simpa [Company.follow] using h
  | cons m ms ih => simpa only [Company.follow, List.append_assoc] using ih (h.take v m)

end Orderly

/-- The smokers break no law, whatever the others do and whatever becomes of the log: of every two
snapshots in a row the second is lawful after the first, and the observer has nothing to report. Nothing
poisons it but a snapshot too many to be counted in 64 bits. -/
theorem smokers_lawful (v : Ingredient → ω) {t : Table} (hn : ∀ j, 0 ≤ (t.ingredients.get j).toInt)
    (hs : ∀ k, t.smokers.get k ≠ .closing) (generators : Trio Random.Generator)
    (delays : Trio DelayModel) (log : L) (ms : List (Choice ω)) {es : List Event} {c : Company ω L}
    (h : (start t generators delays log).follow v ms = (es, c)) :
    (∀ first ∈ (snapshots es).head?, ∀ law : Law, law.check none first = .ok none) ∧
    ((snapshots es).IsChain fun past now => ∀ law : Law, law.check (some past) now = .ok none) ∧
    (c.factory.log.poisoned = true → UInt64.size ≤ (snapshots es).length) ∧
    c.factory.log.found = [] ∧ c.factory.log.violations = [] := by
  have ho := (orderly_start hn hs generators delays log).follow v ms
  rw [h, List.nil_append] at ho
  have hw : Watching es c.factory := ho.watching
  exact ⟨hw.first, hw.chain, fun hp => (hw.full hp).2, hw.found, by simp [Observer.violations, hw.found]⟩

/-- The holder of paper comes to a table that is laid out for it twice over, and is called once too
often. -/
def overcalled : List Event × Company Ingredient Recorder :=
  (start {} (.replicate (.ofSeed 1)) (.replicate {})
    { fault := fun n => if n = 1 then some (.refused .poisoned) else none }).follow id
    [.supply .paper, .supply .paper, .call .paper, .smoker .paper, .smoker .paper, .smoker .paper,
      .call .tobacco, .smoker .tobacco, .smoker .tobacco, .smoker .tobacco]

theorem smokers_lawful_overcalled : (snapshots overcalled.1).length = 6 ∧
    overcalled.2.factory.log.violations = [] := by
  have hn : ∀ j, 0 ≤ (({} : Table).ingredients.get j).toInt := fun j => by cases j <;> decide
  have hs : ∀ k, ({} : Table).smokers.get k ≠ .closing := fun k => by cases k <;> decide
  obtain ⟨-, -, -, -, hv⟩ := smokers_lawful id hn hs _ _ _ _ (rfl : _ = overcalled)
  exact ⟨by decide +kernel, hv⟩

end Company

end CigaretteSmokers
