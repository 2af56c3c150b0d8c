import CigaretteSmokers.Agent
import CigaretteSmokers.Proofs.Entering
import CigaretteSmokers.Proofs.Permits

/-!
All that one step of the agent can do, as a relation, and what a step moves.
-/

namespace CigaretteSmokers.Agent

variable {ω L : Type}

/-- The critical section that the agent enters next. -/
def section? (stopped stopFirst : Bool) : Stage → Option Section
  | .supplying k => some (.supply k)
  | .announcing => if stopped && stopFirst then none else some .announce
  | .closing => some .close
  | .choosing | .calling _ | .awaiting | .releasing _ | .gone => none

theorem section?_eq {stopped stopFirst : Bool} {stage : Stage} {sec : Section}
    (h : section? stopped stopFirst stage = some sec) :
    (∃ k, stage = .supplying k ∧ sec = .supply k) ∨ (stage = .announcing ∧ sec = .announce) ∨
      (stage = .closing ∧ sec = .close) := by
  cases stage with
  | announcing =>
      simp only [section?] at h
      split at h <;> cases h
      simp
  | _ => simp_all [section?]

/-- One for the smoker that the agent is about to call. -/
def Stage.calls (k : Ingredient) : Stage → Nat
  | .calling j => if j = k then 1 else 0
  | _ => 0

/-- One for a smoker that the agent has woken for the closing. -/
def Stage.released (k : Ingredient) : Stage → Nat
  | .releasing j => if k.index < j.index then 1 else 0
  | .gone => 1
  | _ => 0

def Stage.hasClosed : Stage → Bool
  | .releasing _ | .gone => true
  | _ => false

/-- How many supplies there have been, for an agent that counts `done` of `rounds` rounds. -/
def Expects (done rounds total : Nat) : Except Failure Stage → Prop
  | .ok .choosing => total = done ∧ done ≤ rounds
  | .ok (.supplying _) => total = done ∧ done < rounds
  | .ok (.calling _) | .ok .announcing | .ok .awaiting => total = done + 1 ∧ done < rounds
  | .ok .closing | .ok (.releasing _) | .ok .gone | .error _ =>
      done ≤ total ∧ total ≤ done + 1 ∧ total ≤ rounds

theorem Expects.fail {done rounds total : Nat} {course : Except Failure Stage} (e : Failure)
    (h : Expects done rounds total course) : Expects done rounds total (.error e) := by
  unfold Expects at h ⊢
  split at h <;> omega

structure Effect (a a' : Agent) (f f' : Factory ω L) (stage : Stage) (course : Except Failure Stage)
    (es : List Event) : Prop where
  rounds : a'.rounds = a.rounds
  served : ∀ j, Event.times (.visited j .served) es = 0
  ingredients : ∀ j, (f'.table.ingredients.get j).toInt = (f.table.ingredients.get j).toInt +
    ∑ k with k ≠ j, (Event.times (.supplied k) es : Int)
  cigarettes : f'.table.cigarettes = f.table.cigarettes
  closing_mono : f.table.closing = true → f'.table.closing = true
  closing : ∀ next, course = .ok next → f.table.closing = stage.hasClosed →
    f'.table.closing = next.hasClosed
  expects : ∀ total, Expects a.summary.rounds a.rounds total (.ok stage) →
    Expects a'.summary.rounds a.rounds (total + ∑ k, Event.times (.supplied k) es) course
  permits : ∀ k, (f'.ready.get k).permits + tally (Stage.calls k) course + stage.released k ≤
    (f.ready.get k).permits + stage.calls k + Event.times (.supplied k) es +
      tally (Stage.released k) course
  notices : a'.summary.rounds + f'.cigarette.permits ≤ a.summary.rounds + f.cigarette.permits
  exact : (∃ next, course = .ok next) →
    (∀ k, (f'.ready.get k).permits + tally (Stage.calls k) course + stage.released k =
      (f.ready.get k).permits + stage.calls k + Event.times (.supplied k) es +
        tally (Stage.released k) course) ∧
    a'.summary.rounds + f'.cigarette.permits = a.summary.rounds + f.cigarette.permits

def Stage.IsQuiet (stage : Stage) : Prop := ∀ k, stage.calls k = 0 ∧ stage.released k = 0

section

variable {a a' : Agent} {f f' : Factory ω L} {stage : Stage} {course : Except Failure Stage}
  {es : List Event}

theorem Effect.of_quiet (hrounds : a'.rounds = a.rounds) (hready : f'.ready = f.ready)
    (hi : ∀ j, (f'.table.ingredients.get j).toInt = (f.table.ingredients.get j).toInt)
    (hc : f'.table.cigarettes = f.table.cigarettes)
    (hsup : ∀ j, Event.times (.supplied j) es = 0) (hserved : ∀ j, Event.times (.visited j .served) es = 0)
    (hmono : f.table.closing = true → f'.table.closing = true)
    (hclosing : ∀ next, course = .ok next → f.table.closing = stage.hasClosed →
      f'.table.closing = next.hasClosed)
    (hstage : stage.IsQuiet) (hcourse : ∀ next, course = .ok next → next.IsQuiet)
    (hexp : ∀ total, Expects a.summary.rounds a.rounds total (.ok stage) →
      Expects a'.summary.rounds a.rounds total course)
    (hnotices : a'.summary.rounds + f'.cigarette.permits ≤ a.summary.rounds + f.cigarette.permits)
    (hexact : (∃ next, course = .ok next) →
      a'.summary.rounds + f'.cigarette.permits = a.summary.rounds + f.cigarette.permits) :
    Effect a a' f f' stage course es := by
  have hq : ∀ k, tally (Stage.calls k) course = 0 ∧ tally (Stage.released k) course = 0 := by
    intro k
    cases course with
    | error e => simp
    | ok next => exact hcourse next rfl k
  refine ⟨hrounds, hserved, ?_, hc, hmono, hclosing, ?_, ?_, hnotices, fun hok => ⟨?_, hexact hok⟩⟩
  · simp [hi, hsup]
  · simpa [hsup] using hexp
  · intro k
    simp [hready, hsup, hstage k, hq k]
  · intro k
    simp [hready, hsup, hstage k, hq k]

/-- A step outside the table, which may take a permit of the agent's own semaphore into the count
of rounds. -/
theorem Effect.of_look {q : Semaphore ω} {next : Stage} (hrounds : a'.rounds = a.rounds)
    (hstage : stage.IsQuiet) (hnext : next.IsQuiet) (hclosed : next.hasClosed = stage.hasClosed)
    (hexp : ∀ total, Expects a.summary.rounds a.rounds total (.ok stage) →
      Expects a'.summary.rounds a.rounds total (.ok next))
    (hq : a'.summary.rounds + q.permits = a.summary.rounds + f.cigarette.permits) :
    Effect a a' f { f with cigarette := q } stage (.ok next) [] := by
  refine .of_quiet hrounds rfl (fun _ => rfl) rfl (fun _ => rfl) (fun _ => rfl) id ?_ hstage ?_ hexp
    hq.le fun _ => hq
  · rintro _ ⟨⟩ h
    exact h.trans hclosed.symm
  · rintro _ ⟨⟩
    exact hnext

theorem Effect.of_section {d : Deed} (next : Stage)
    (hframe : f'.ready = f.ready ∧ f'.cigarette = f.cigarette) (hd : d.Makes f.table f'.table)
    (ht : ∀ c, Event.times c es = if d = c then 1 else 0)
    (hdeed : d = .announced ∨ d = .closed) (hclosed : d.closingAfter stage.hasClosed = next.hasClosed)
    (hstage : stage.IsQuiet) (hnext : next.IsQuiet)
    (hexp : ∀ total, Expects a.summary.rounds a.rounds total (.ok stage) →
      Expects a.summary.rounds a.rounds total (.ok next))
    (hcourse : course = .ok next ∨ ∃ e, course = .error e) : Effect a a f f' stage course es := by
  have hi : ∀ j, (f'.table.ingredients.get j).toInt = (f.table.ingredients.get j).toInt := by
    rcases hdeed with rfl | rfl <;> simp [hd.ingredients, Deed.brought]
  have hc : f'.table.cigarettes = f.table.cigarettes := by
    refine Trio.ext_get fun j => UInt64.toNat.inj ?_
    rcases hdeed with rfl | rfl <;> simp [hd.cigarettes, Deed.counted]
  have hmono : f.table.closing = true → f'.table.closing = true := by
    rcases hdeed with rfl | rfl <;> simp [hd.closing, Deed.closingAfter]
  have hcount : (∀ j, Event.times (.supplied j) es = 0) ∧ ∀ j, Event.times (.visited j .served) es = 0 := by
    rcases hdeed with rfl | rfl <;> simp [ht]
  rcases hcourse with rfl | ⟨e, rfl⟩
  · refine .of_quiet rfl hframe.1 hi hc hcount.1 hcount.2 hmono ?_ hstage ?_ hexp ?_ ?_
    · rintro _ ⟨⟩ h
      rw [hd.closing, h, hclosed]
    · rintro _ ⟨⟩
      exact hnext
    all_goals simp [hframe.2]
  · exact .of_quiet rfl hframe.1 hi hc hcount.1 hcount.2 hmono (by rintro _ ⟨⟩) hstage (by rintro _ ⟨⟩)
      (fun total h => (hexp total h).fail e) (by simp [hframe.2]) (by simp [hframe.2])

theorem Effect.of_supplied {k : Ingredient} (hrounds : a'.rounds = a.rounds)
    (hdone : a'.summary.rounds = a.summary.rounds)
    (hframe : f'.ready = f.ready ∧ f'.cigarette = f.cigarette)
    (hd : (Deed.supplied k).Makes f.table f'.table)
    (ht : ∀ c, Event.times c es = if Deed.supplied k = c then 1 else 0)
    (hcourse : course = .ok (.calling k) ∨ ∃ e, course = .error e) :
    Effect a a' f f' (.supplying k) course es := by
  have hone : ∀ j, Event.times (.supplied j) es = if k = j then 1 else 0 := by simp [ht]
  have hsum : ∑ j, Event.times (.supplied j) es = 1 := by simp [hone]
  have hsumInt : ∑ j, (Event.times (.supplied j) es : Int) = 1 := by exact_mod_cast hsum
  have hclosing : f'.table.closing = f.table.closing := hd.closing
  have hcigarettes : f'.table.cigarettes = f.table.cigarettes :=
    Trio.ext_get fun j => UInt64.toNat.inj (by simp [hd.cigarettes, Deed.counted])
  refine ⟨hrounds, by simp [ht], fun j => ?_, hcigarettes, by simp [hclosing], ?_, ?_, ?_, ?_, ?_⟩
  · rw [hd.ingredients, Ingredient.sum_others, hsumInt]
    by_cases hj : j = k
    · subst hj; simp [hone, Deed.brought]
    · simp [hone, Deed.brought, hj, Ne.symm hj]
  · rintro next rfl
    obtain rfl : next = .calling k := by simpa using hcourse
    simp [hclosing, Stage.hasClosed]
  · intro total h
    rw [hsum, hdone]
    simp only [Expects] at h
    rcases hcourse with rfl | ⟨e, rfl⟩ <;> simp only [Expects] <;> omega
  · intro j
    rcases hcourse with rfl | ⟨e, rfl⟩ <;> simp [hframe.1, hone, Stage.calls, Stage.released]
  · simp [hdone, hframe.2]
  · rintro ⟨next, rfl⟩
    obtain rfl : next = .calling k := by simpa using hcourse
    simp [hdone, hframe, hone, Stage.calls, Stage.released]

/-- A signal to `k` that takes a call or a release from in hand to under way. -/
theorem Effect.of_signal {k : Ingredient} {next : Stage}
    (hstage : ∀ j, next.calls j + stage.released j + (if j = k then 1 else 0) =
      stage.calls j + next.released j)
    (hclosed : next.hasClosed = stage.hasClosed)
    (hexp : ∀ total, Expects a.summary.rounds a.rounds total (.ok stage) →
      Expects a.summary.rounds a.rounds total (.ok next)) :
    Effect a a f (f.signalIngredients k) stage (.ok next) [] := by
  have hperm : ∀ j, ((f.signalIngredients k).ready.get j).permits =
      (f.ready.get j).permits + if j = k then 1 else 0 := by
    intro j
    by_cases hj : j = k
    · subst hj; simp [Factory.signalIngredients]
    · simp [Factory.signalIngredients, hj]
  refine ⟨rfl, by simp, by simp [Factory.signalIngredients], rfl, id, ?_, by simpa using hexp, ?_, le_rfl,
    fun _ => ⟨?_, rfl⟩⟩
  · rintro _ ⟨⟩ h
    rw [hclosed, ← h]
    rfl
  · intro j
    have := hstage j
    rw [hperm]
    simp only [tally_ok, Event.times_nil]
    omega
  · intro j
    have := hstage j
    rw [hperm]
    simp only [tally_ok, Event.times_nil]
    omega

end

variable [StateLog L]

def events (stopped stopFirst : Bool) (stage : Stage) (f : Factory ω L) : List Event :=
  match section? stopped stopFirst stage with
  | some sec => f.entry sec
  | none => []

variable [DecidableEq ω]

/-- The steps of an agent whose wait goes by the name `w`. The kind that it draws is left open. -/
inductive Step (w : ω) (stopped : Bool) (a : Agent) (f : Factory ω L) :
    Stage → List Event → Except Failure Stage → Agent → Factory ω L → Prop
  | failed {stage sec stopFirst es e f'} (hs : section? stopped stopFirst stage = some sec)
      (h : f.Enters sec es (.error e) f') : Step w stopped a f stage es (.error e) a f'
  | completed (hr : a.summary.rounds = a.rounds) : Step w stopped a f .choosing [] (.ok .closing) a f
  | heeded (hr : a.summary.rounds ≠ a.rounds) (hs : stopped = true) :
      Step w stopped a f .choosing [] (.ok .closing) a.interrupt f
  | drew {k g} (hr : a.summary.rounds ≠ a.rounds) (hs : stopped = false) :
      Step w stopped a f .choosing [] (.ok (.supplying k)) { a with generator := g } f
  | supplied {k es f'} (h : f.Enters (.supply k) es (.ok (.supplied k)) f') :
      Step w stopped a f (.supplying k) es (.ok (.calling k)) (a.supplied k) f'
  | called {k} : Step w stopped a f (.calling k) [] (.ok .announcing) a (f.signalIngredients k)
  | forwent (hs : stopped = true) : Step w stopped a f .announcing [] (.ok .closing) a.interrupt f
  | announced {es f'} (h : f.Enters .announce es (.ok .announced) f') :
      Step w stopped a f .announcing es (.ok .awaiting) a f'
  | passed {q} (h : f.cigarette.poll w = (.passed, q)) :
      Step w stopped a f .awaiting [] (.ok .choosing) a.finishedRound { f with cigarette := q }
  | queued {q} (hs : stopped = false) (h : f.cigarette.poll w = (.pending, q)) :
      Step w stopped a f .awaiting [] (.ok .awaiting) a { f with cigarette := q }
  | cancelled (hs : stopped = true) :
      Step w stopped a f .awaiting [] (.ok .closing) a.interrupt (f.cancelCigarette w)
  | abandoned {q} (hs : stopped = true) (h : f.cigarette.poll w = (.pending, q)) :
      Step w stopped a f .awaiting [] (.ok .closing) a.interrupt { f with cigarette := q.cancel w }
  | refused {q} (h : f.cigarette.poll w = (.refused, q)) :
      Step w stopped a f .awaiting [] (.error (.error (.semaphoreClosed Factory.cigaretteName))) a
        { f with cigarette := q }
  | closed {es f'} (h : f.Enters .close es (.ok .closed) f') :
      Step w stopped a f .closing es (.ok (.releasing .tobacco)) a f'
  | released {j k} (hk : next? j = some k) :
      Step w stopped a f (.releasing j) [] (.ok (.releasing k)) a (f.signalIngredients j)
  | left {j} (hk : next? j = none) :
      Step w stopped a f (.releasing j) [] (.ok .gone) a (f.signalIngredients j)

/-- A sender that is gone makes no difference to what the agent does, and what it draws is the number
of a smoker. -/
theorem step_perform (w : ω) (stop : Stop) (stopFirst : Bool) (a : Agent) {stage : Stage}
    (hg : stage ≠ .gone) (f : Factory ω L) :
    Step w stop.requested a f stage (events stop.requested stopFirst stage f)
      (a.perform w stop stopFirst stage f).1 (a.perform w stop stopFirst stage f).2.1
      (a.perform w stop stopFirst stage f).2.2 := by
  cases stage with
  | choosing =>
      simp only [perform, events, section?]
      split
      · rename_i hr
        exact .completed hr
      · rename_i hr
        split
        · rename_i hs
          exact .heeded hr hs
        · rename_i hs
          obtain ⟨k, hk⟩ := a.generator.nextIngredient_ok
          rcases hn : a.generator.nextIngredient with ⟨e | k, g⟩
          · simp [hn] at hk
          · exact .drew hr (by simpa using hs)
  | supplying k =>
      have h := f.enters_critical (.supply k)
      rw [Section.action, Factory.critical_map] at h
      simp only [perform, events, section?]
      rcases hr : f.critical (Table.Action.supply k) with ⟨e | u, f'⟩
      · rw [hr] at h
        exact .failed (show section? stop.requested stopFirst _ = _ from rfl) h
      · rw [hr] at h
        exact .supplied h
  | calling k => exact .called
  | announcing =>
      by_cases hs : stop.requested && stopFirst
      · have hstop : stop.requested = true := by simp_all
        simpa only [perform, Stop.interrupts_eq, events, section?, hs, if_true] using Step.forwent hstop
      · have h := f.enters_critical .announce
        rw [Section.action, Factory.critical_map] at h
        have hsec : section? stop.requested stopFirst .announcing = some .announce := by simp [section?, hs]
        simp only [perform, Stop.interrupts_eq, events, hsec, hs]
        rcases hr : f.critical (Table.Action.setAgent .waiting) with ⟨e | u, f'⟩
        · rw [hr] at h
          exact .failed hsec h
        · rw [hr] at h
          exact .announced h
  | awaiting =>
      by_cases hs : stop.requested && stopFirst
      · have hstop : stop.requested = true := by simp_all
        simpa only [perform, Stop.interrupts_eq, events, section?, hs, if_true] using Step.cancelled hstop
      · simp only [perform, Stop.interrupts_eq, events, section?, hs, Factory.awaitCigarette]
        rcases hr : f.cigarette.poll w with ⟨_ | _ | _, q⟩
        · exact .passed hr
        · cases stop.requested with
          | false => exact .queued rfl hr
          | true => exact .abandoned rfl hr
        · exact .refused hr
  | closing =>
      have h := f.enters_critical .close
      rw [Section.action, Factory.critical_map] at h
      simp only [perform, events, section?]
      rcases hr : f.critical Table.Action.close with ⟨e | u, f'⟩
      · rw [hr] at h
        exact .failed (show section? stop.requested stopFirst _ = _ from rfl) h
      · rw [hr] at h
        exact .closed h
  | releasing j =>
      simp only [perform, events, section?]
      cases hk : next? j with
      | none => exact .left hk
      | some k => exact .released hk
  | gone => exact absurd rfl hg

theorem Step.uses {w : ω} {stopped : Bool} {a a' : Agent} {f f' : Factory ω L} {stage : Stage}
    {course : Except Failure Stage} {es : List Event} (h : Step w stopped a f stage es course a' f') :
    (∀ k v, Semaphore.Uses v (f.ready.get k) (f'.ready.get k)) ∧
      Semaphore.Uses w f.cigarette f'.cigarette := by
  have hsignal : ∀ j k v, Semaphore.Uses v (f.ready.get k) ((f.signalIngredients j).ready.get k) := by
    intro j k v
    by_cases hk : k = j
    · subst hk
      simpa [Factory.signalIngredients] using Semaphore.Uses.signal (w := v) .refl
    · simpa [Factory.signalIngredients, hk] using Semaphore.Uses.refl (w := v)
  have hpoll := Semaphore.Uses.poll (w := w) (.refl (s := f.cigarette))
  cases h with
  | failed _ h | supplied h | announced h | closed h =>
      rw [h.frame.1, h.frame.2]
      exact ⟨fun _ _ => .refl, .refl⟩
  | completed | heeded | drew | forwent => exact ⟨fun _ _ => .refl, .refl⟩
  | called | released _ | left _ => exact ⟨hsignal _, .refl⟩
  | passed h | queued _ h | refused h =>
      rw [h] at hpoll
      exact ⟨fun _ _ => .refl, hpoll⟩
  | cancelled => exact ⟨fun _ _ => .refl, .cancel .refl⟩
  | abandoned _ h =>
      rw [h] at hpoll
      exact ⟨fun _ _ => .refl, .cancel hpoll⟩

theorem Step.deeds {w : ω} {stopped : Bool} {a a' : Agent} {f f' : Factory ω L} {stage : Stage}
    {course : Except Failure Stage} {es : List Event} (h : Step w stopped a f stage es course a' f') :
    Event.deeds es = [] ∨ (∃ k, stage = .supplying k ∧ Event.deeds es = [.supplied k]) ∨
      (stage = .announcing ∧ Event.deeds es = [.announced]) ∨
      (stage = .closing ∧ Event.deeds es = [.closed]) := by
  cases h with
  | failed hs h =>
      rcases h.deeds with hnil | ⟨d, hd, hes⟩
      · exact .inl hnil
      · rcases section?_eq hs with ⟨k, rfl, rfl⟩ | ⟨rfl, rfl⟩ | ⟨rfl, rfl⟩
        all_goals
          cases d <;> cases hd
          simp [hes]
  | supplied h | announced h | closed h =>
      obtain ⟨-, -, rfl⟩ := h.of_ok
      simp [Event.deeds, Event.deed?]
  | completed | heeded | drew | called | forwent | passed | queued | cancelled | abandoned | refused
  | released | left => exact .inl rfl

theorem Step.records {w : ω} {stopped : Bool} {a a' : Agent} {f f' : Factory ω L} {stage : Stage}
    {course : Except Failure Stage} {es : List Event} (h : Step w stopped a f stage es course a' f') :
    ∃ o, f.Records f' o es := by
  cases h with
  | failed _ h | supplied h | announced h | closed h => exact ⟨_, h.records⟩
  | completed | heeded | drew | called | forwent | passed | queued | cancelled | abandoned | refused
  | released | left => exact ⟨none, .silent rfl rfl fun hp => ⟨hp, rfl⟩⟩

theorem Step.effect {w : ω} {stopped : Bool} {a a' : Agent} {f f' : Factory ω L} {stage : Stage}
    {course : Except Failure Stage} {es : List Event} (h : Step w stopped a f stage es course a' f')
    (hfit : ∀ k, stage = .supplying k → (Section.supply k).Fits f.table) :
    Effect a a' f f' stage course es := by
  have hstill : ∀ stage : Stage, stage.hasClosed = false → (∀ k, stage ≠ .calling k) → stage.IsQuiet := by
    intro stage h hc k
    cases stage <;> simp_all [Stage.hasClosed, Stage.calls, Stage.released]
  have hwoken : (Stage.releasing .tobacco).IsQuiet := by
    intro k
    simp [Stage.calls, Stage.released, Ingredient.index]
  cases h with
  | failed hs h =>
      rename_i sec stopFirst e
      have hcrash : ∀ c t, sec.action f.table = .error c t → t = f.table := by
        intro c t ht
        rcases section?_eq hs with ⟨k, rfl, rfl⟩ | ⟨-, rfl⟩ | ⟨-, rfl⟩
        · obtain ⟨d, u, hd⟩ := Section.action_total (hfit k rfl)
          rw [hd] at ht
          cases ht
        all_goals exact Section.table_of_crash ht (by simp)
      rcases h.outcome hcrash with ⟨ht, htable, -⟩ | ⟨d, rfl, hd, ht, -⟩
      · have hquiet : stage.IsQuiet := by
          rcases section?_eq hs with ⟨k, rfl, -⟩ | ⟨rfl, -⟩ | ⟨rfl, -⟩ <;> exact hstill _ rfl (by simp)
        exact .of_quiet rfl h.frame.1 (by simp [htable]) (by rw [htable]) (fun j => ht _) (fun j => ht _)
          (by simp [htable]) (by rintro _ ⟨⟩) hquiet (by rintro _ ⟨⟩) (fun total h => h.fail _)
          (by simp [h.frame.2]) (by rintro ⟨_, ⟨⟩⟩)
      · rcases section?_eq hs with ⟨k, rfl, ho⟩ | ⟨rfl, ho⟩ | ⟨rfl, ho⟩
        · obtain rfl : d = .supplied k := by cases d <;> simp_all [Deed.origin]
          exact .of_supplied rfl rfl h.frame hd ht (.inr ⟨e, rfl⟩)
        · obtain rfl : d = .announced := by cases d <;> simp_all [Deed.origin]
          exact .of_section .awaiting h.frame hd ht (.inl rfl) rfl (hstill _ rfl (by simp))
            (hstill _ rfl (by simp)) (fun total h => h) (.inr ⟨e, rfl⟩)
        · obtain rfl : d = .closed := by cases d <;> simp_all [Deed.origin]
          exact .of_section (.releasing .tobacco) h.frame hd ht (.inr rfl) rfl
            (hstill _ rfl (by simp)) hwoken (fun total h => h) (.inr ⟨e, rfl⟩)
  | completed hr =>
      refine .of_look (q := f.cigarette) rfl (hstill _ rfl (by simp)) (hstill _ rfl (by simp)) rfl
        (fun total h => ?_) rfl
      simp only [Expects] at h ⊢
      omega
  | heeded hr hs =>
      refine .of_look (q := f.cigarette) rfl (hstill _ rfl (by simp)) (hstill _ rfl (by simp)) rfl
        (fun total h => ?_) rfl
      simp only [Expects, interrupt] at h ⊢
      omega
  | drew hr hs =>
      refine .of_look (q := f.cigarette) rfl (hstill _ rfl (by simp)) (hstill _ rfl (by simp)) rfl
        (fun total h => ?_) rfl
      simp only [Expects] at h ⊢
      omega
  | supplied h =>
      obtain ⟨-, hd, rfl⟩ := h.of_ok
      exact .of_supplied rfl rfl h.frame hd (by simp) (.inl rfl)
  | called =>
      refine .of_signal (fun j => ?_) rfl fun total h => h
      simp [Stage.calls, Stage.released, eq_comm]
  | forwent hs =>
      refine .of_look (q := f.cigarette) rfl (hstill _ rfl (by simp)) (hstill _ rfl (by simp)) rfl
        (fun total h => ?_) rfl
      simp only [Expects, interrupt] at h ⊢
      omega
  | announced h =>
      obtain ⟨-, hd, rfl⟩ := h.of_ok
      exact .of_section .awaiting h.frame hd (by simp) (.inl rfl) rfl (hstill _ rfl (by simp))
        (hstill _ rfl (by simp)) (fun total h => h) (.inl rfl)
  | passed h =>
      have hq := (Semaphore.passed_permits h).1
      refine .of_look rfl (hstill _ rfl (by simp)) (hstill _ rfl (by simp)) rfl (fun total h => ?_) ?_
      · simp only [Expects, finishedRound] at h ⊢
        omega
      · simp only [finishedRound]
        omega
  | queued hs h =>
      have hq := (Semaphore.pending_permits h).1
      refine .of_look rfl (hstill _ rfl (by simp)) (hstill _ rfl (by simp)) rfl (fun total h => h) ?_
      rw [hq]
  | cancelled hs =>
      refine .of_look rfl (hstill _ rfl (by simp)) (hstill _ rfl (by simp)) rfl (fun total h => ?_) ?_
      · simp only [Expects, interrupt] at h ⊢
        omega
      · simp [interrupt]
  | abandoned hs h =>
      have hq := (Semaphore.pending_permits h).1
      refine .of_look rfl (hstill _ rfl (by simp)) (hstill _ rfl (by simp)) rfl (fun total h => ?_) ?_
      · simp only [Expects, interrupt] at h ⊢
        omega
      · simp [interrupt, hq]
  | refused h =>
      have hq := (Semaphore.refused_permits h).1
      exact .of_quiet rfl rfl (fun _ => rfl) rfl (fun _ => rfl) (fun _ => rfl) id (by rintro _ ⟨⟩)
        (hstill _ rfl (by simp)) (by rintro _ ⟨⟩) (fun total h => h.fail _) (by simpa using hq)
        (by rintro ⟨_, ⟨⟩⟩)
  | closed h =>
      obtain ⟨-, hd, rfl⟩ := h.of_ok
      exact .of_section (.releasing .tobacco) h.frame hd (by simp) (.inr rfl) rfl
        (hstill _ rfl (by simp)) hwoken (fun total h => h) (.inl rfl)
  | released hk =>
      refine .of_signal (fun i => ?_) rfl fun total h => h
      rename_i j k
      cases j <;> cases hk <;> cases i <;> rfl
  | left hk =>
      refine .of_signal (fun i => ?_) rfl fun total h => h
      rename_i j
      cases j <;> cases i <;> first | rfl | cases hk

/-- An agent counts a supply that it has laid out, unless something went wrong over it. -/
theorem Step.supplied_le {w : ω} {stopped : Bool} {a a' : Agent} {f f' : Factory ω L} {stage : Stage}
    {course : Except Failure Stage} {es : List Event} (h : Step w stopped a f stage es course a' f')
    (k : Ingredient) :
    a'.summary.supplied.get k ≤ a.summary.supplied.get k + Event.times (.supplied k) es := by
  cases h with
  | @supplied j _ _ h =>
      obtain ⟨-, -, rfl⟩ := h.of_ok
      by_cases hk : k = j
      · subst hk
        simp [Agent.supplied]
      · simp [Agent.supplied, hk]
  | failed | completed | heeded | drew | called | forwent | announced | passed | queued | cancelled
  | abandoned | refused | closed | released | left => exact Nat.le_add_right _ _

end CigaretteSmokers.Agent
