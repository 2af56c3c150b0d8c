import CigaretteSmokers.Smoker
import CigaretteSmokers.Proofs.Entering
import CigaretteSmokers.Proofs.Permits

/-!
All that one step of a smoker can do, as a relation, and what a step moves: permits, ingredients
and cigarettes.
-/

namespace CigaretteSmokers.Smoker

variable {ω L : Type}

/-- The critical section that a smoker enters next. It draws the time for rolling first. -/
def section? (s : Smoker) : Stage → Option Section
  | .arriving => some (.arrive s.holds)
  | .collecting => some (.visit s.holds)
  | .starting => match (s.delay.sample s.generator).1 with
      | .ok _ => some (.roll s.holds)
      | .error _ => none
  | .lighting => some (.light s.holds)
  | .finishing => some (.finish s.holds)
  | .awaiting | .rolling _ | .telling | .smoking _ | .gone => none

theorem section?_eq {s : Smoker} {stage : Stage} {sec : Section} (h : s.section? stage = some sec) :
    (stage = .arriving ∧ sec = .arrive s.holds) ∨ (stage = .collecting ∧ sec = .visit s.holds) ∨
      (stage = .starting ∧ sec = .roll s.holds) ∨ (stage = .lighting ∧ sec = .light s.holds) ∨
      (stage = .finishing ∧ sec = .finish s.holds) := by
  cases stage with
  | starting =>
      simp only [section?] at h
      split at h <;> cases h
      simp
  | _ => simp_all [section?]

/-- Adds up to one for a smoker that has been called and not yet served. -/
def Stage.called : Stage → Nat
  | .collecting => 1
  | _ => 0

def Stage.departed : Stage → Nat
  | .gone => 1
  | _ => 0

/-- One for a smoker that has taken its ingredients and not told the agent. -/
def Stage.untold : Stage → Nat
  | .starting | .rolling _ | .telling => 1
  | _ => 0

/-- One for a smoker that has taken its ingredients and not counted the cigarette. -/
def Stage.uncounted : Stage → Nat
  | .starting | .rolling _ | .telling | .lighting | .smoking _ | .finishing => 1
  | _ => 0

/-- What a step of the smoker that holds `k` moves. A step that ends in failure may lose what it
had in hand, which is where an inequality stands. -/
structure Effect (k : Ingredient) (f f' : Factory ω L) (stage : Stage) (course : Except Failure Stage)
    (es : List Event) : Prop where
  ready_ne : ∀ j, j ≠ k → f'.ready.get j = f.ready.get j
  supplied : ∀ j, Event.times (.supplied j) es = 0
  served_ne : ∀ j, j ≠ k → Event.times (.visited j .served) es = 0
  served_le : Event.times (.visited k .served) es ≤ stage.called
  served_open : Event.times (.visited k .served) es ≠ 0 → f.table.closing = false
  closing : f'.table.closing = f.table.closing
  gone_closing : course = .ok .gone → f.table.closing = true
  ingredients : ∀ j, (f'.table.ingredients.get j).toInt = (f.table.ingredients.get j).toInt -
    if j = k then 0 else (Event.times (.visited k .served) es : Int)
  cigarettes_ne : ∀ j, j ≠ k → (f'.table.cigarettes.get j).toNat = (f.table.cigarettes.get j).toNat
  cigarettes_le : (f.table.cigarettes.get k).toNat ≤ (f'.table.cigarettes.get k).toNat
  cigarettes : (f'.table.cigarettes.get k).toNat + tally Stage.uncounted course ≤
    (f.table.cigarettes.get k).toNat + stage.uncounted + Event.times (.visited k .served) es
  permits : (f'.ready.get k).permits + tally Stage.called course + tally Stage.departed course +
    Event.times (.visited k .served) es ≤ (f.ready.get k).permits + stage.called
  notices : f'.cigarette.permits + tally Stage.untold course ≤
    f.cigarette.permits + stage.untold + Event.times (.visited k .served) es
  exact : (∃ next, course = .ok next) →
    (f'.table.cigarettes.get k).toNat + tally Stage.uncounted course =
      (f.table.cigarettes.get k).toNat + stage.uncounted + Event.times (.visited k .served) es ∧
    (f'.ready.get k).permits + tally Stage.called course + tally Stage.departed course +
      Event.times (.visited k .served) es = (f.ready.get k).permits + stage.called ∧
    f'.cigarette.permits + tally Stage.untold course =
      f.cigarette.permits + stage.untold + Event.times (.visited k .served) es

section

variable {f f' : Factory ω L} {k : Ingredient} {stage : Stage} {course : Except Failure Stage}
  {es : List Event}

def Keeps (stage : Stage) (course : Except Failure Stage) : Prop :=
  ∀ next, course = .ok next → next.called = stage.called ∧ next.departed = 0 ∧
    next.untold = stage.untold ∧ next.uncounted = stage.uncounted

theorem Effect.of_quiet (hready : f'.ready = f.ready) (hcig : f'.cigarette = f.cigarette)
    (hi : ∀ j, (f'.table.ingredients.get j).toInt = (f.table.ingredients.get j).toInt)
    (hc : ∀ j, (f'.table.cigarettes.get j).toNat = (f.table.cigarettes.get j).toNat)
    (hclosing : f'.table.closing = f.table.closing)
    (hsup : ∀ j, Event.times (.supplied j) es = 0)
    (hserved : ∀ j, Event.times (.visited j .served) es = 0) (hk : Keeps stage course) :
    Effect k f f' stage course es := by
  have hle : tally Stage.called course + tally Stage.departed course ≤ stage.called ∧
      tally Stage.untold course ≤ stage.untold ∧ tally Stage.uncounted course ≤ stage.uncounted := by
    cases course with
    | error e => simp
    | ok next =>
        obtain ⟨h₁, h₂, h₃, h₄⟩ := hk next rfl
        simp [h₁, h₂, h₃, h₄]
  constructor
  case gone_closing =>
    rintro rfl
    have := (hk .gone rfl).2.1
    simp [Stage.departed] at this
  case exact =>
    rintro ⟨next, rfl⟩
    obtain ⟨h₁, h₂, h₃, h₄⟩ := hk next rfl
    simp [hready, hcig, hc, hserved, h₁, h₂, h₃, h₄]
  all_goals simp only [hready, hcig, hi, hc, hclosing, hsup, hserved]
  all_goals first | omega | simp

variable {d : Deed}

theorem Effect.of_quiet_deed (hframe : f'.ready = f.ready ∧ f'.cigarette = f.cigarette)
    (hd : d.Makes f.table f'.table) (ht : ∀ c, Event.times c es = if d = c then 1 else 0)
    (hb : ∀ j, d.brought j = 0) (hc : ∀ j, d.counted j = 0) (hcl : d ≠ .closed)
    (hne : ∀ j, d ≠ .supplied j ∧ d ≠ .visited j .served) (hk : Keeps stage course) :
    Effect k f f' stage course es := by
  refine .of_quiet hframe.1 hframe.2 (by simp [hd.ingredients, hb]) (by simp [hd.cigarettes, hc]) ?_
    (fun j => by simp [ht, (hne j).1]) (fun j => by simp [ht, (hne j).2]) hk
  rw [hd.closing]
  cases d <;> first | rfl | exact absurd rfl hcl

theorem Effect.of_served (hframe : f'.ready = f.ready ∧ f'.cigarette = f.cigarette)
    (hd : (Deed.visited k .served).Makes f.table f'.table)
    (ht : ∀ c, Event.times c es = if Deed.visited k .served = c then 1 else 0)
    (hcourse : course = .ok .starting ∨ ∃ e, course = .error e) :
    Effect k f f' .collecting course es := by
  have hi : ∀ j, (f'.table.ingredients.get j).toInt =
      (f.table.ingredients.get j).toInt - if j = k then 0 else 1 := by
    intro j
    rw [hd.ingredients]
    by_cases hj : j = k
    · simp [Deed.brought, hj]
    · simp [Deed.brought, hj, Int.sub_eq_add_neg]
  have hc : ∀ j, (f'.table.cigarettes.get j).toNat = (f.table.cigarettes.get j).toNat := by
    simp [hd.cigarettes, Deed.counted]
  have hclosing : f'.table.closing = f.table.closing := hd.closing
  constructor
  case ingredients => simpa [ht] using hi
  case served_ne => intro j hj; simp [ht, Ne.symm hj]
  case served_open => exact fun _ => hd.finds.1
  case gone_closing => rintro rfl; simp at hcourse
  case exact =>
    rintro ⟨next, rfl⟩
    obtain rfl : next = .starting := by simpa using hcourse
    simp [hframe, hc, ht, Stage.uncounted, Stage.called, Stage.departed, Stage.untold]
  all_goals simp only [hframe, hc, hclosing, ht]
  all_goals rcases hcourse with rfl | ⟨e, rfl⟩ <;>
    simp [Stage.uncounted, Stage.called, Stage.departed, Stage.untold]

theorem Effect.of_finished (hframe : f'.ready = f.ready ∧ f'.cigarette = f.cigarette)
    (hd : (Deed.finished k).Makes f.table f'.table)
    (ht : ∀ c, Event.times c es = if Deed.finished k = c then 1 else 0)
    (hcourse : course = .ok .arriving ∨ ∃ e, course = .error e) :
    Effect k f f' .finishing course es := by
  have hi : ∀ j, (f'.table.ingredients.get j).toInt = (f.table.ingredients.get j).toInt := by
    simp [hd.ingredients, Deed.brought]
  have hc : (f'.table.cigarettes.get k).toNat = (f.table.cigarettes.get k).toNat + 1 := by
    simp [hd.cigarettes, Deed.counted]
  have hclosing : f'.table.closing = f.table.closing := hd.closing
  constructor
  case cigarettes_ne => intro j hj; simp [hd.cigarettes, Deed.counted, hj]
  case gone_closing => rintro rfl; simp at hcourse
  case exact =>
    rintro ⟨next, rfl⟩
    obtain rfl : next = .arriving := by simpa using hcourse
    simp [hframe, hc, ht, Stage.uncounted, Stage.called, Stage.departed, Stage.untold]
  all_goals simp only [hframe, hi, hc, hclosing, ht]
  all_goals rcases hcourse with rfl | ⟨e, rfl⟩ <;>
    simp [Stage.uncounted, Stage.called, Stage.departed, Stage.untold]

theorem Effect.of_section (hframe : f'.ready = f.ready ∧ f'.cigarette = f.cigarette)
    (hd : d.Makes f.table f'.table) (ht : ∀ c, Event.times c es = if d = c then 1 else 0)
    (horigin : d.origin = .arrive k ∨ d.origin = .roll k ∨ d.origin = .light k ∨
      ∃ v, d = .visited k v ∧ v ≠ .served)
    (hk : Keeps stage course) : Effect k f f' stage course es := by
  refine .of_quiet_deed hframe hd ht ?_ ?_ ?_ ?_ hk
  all_goals
    rcases horigin with h | h | h | ⟨v, rfl, hv⟩
    iterate 3 cases d <;> simp [Deed.origin, Deed.brought, Deed.counted] at h ⊢
    cases v <;> simp_all [Deed.brought, Deed.counted]

theorem Effect.of_left (hframe : f'.ready = f.ready ∧ f'.cigarette = f.cigarette)
    (hd : (Deed.visited k .closed).Makes f.table f'.table)
    (ht : ∀ c, Event.times c es = if Deed.visited k .closed = c then 1 else 0) :
    Effect k f f' .collecting (.ok .gone) es := by
  have hi : ∀ j, (f'.table.ingredients.get j).toInt = (f.table.ingredients.get j).toInt := by
    simp [hd.ingredients, Deed.brought]
  have hc : ∀ j, (f'.table.cigarettes.get j).toNat = (f.table.cigarettes.get j).toNat := by
    simp [hd.cigarettes, Deed.counted]
  have hclosing : f'.table.closing = f.table.closing := hd.closing
  constructor
  case gone_closing => exact fun _ => hd.finds
  all_goals simp only [hframe, hi, hc, hclosing, ht]
  all_goals simp [Stage.uncounted, Stage.called, Stage.departed, Stage.untold]

/-- A look at the semaphore: the permit passes into the smoker's hands, if there is one. -/
theorem Effect.of_look {q : Semaphore ω}
    (hq : (course = .ok .collecting ∧ q.permits + 1 = (f.ready.get k).permits) ∨
      (course = .ok .awaiting ∧ q.permits = (f.ready.get k).permits) ∨
      ((∃ e, course = .error e) ∧ q.permits ≤ (f.ready.get k).permits)) :
    Effect k f { f with ready := f.ready.set k q } .awaiting course [] := by
  rcases hq with ⟨rfl, hq⟩ | ⟨rfl, hq⟩ | ⟨⟨e, rfl⟩, hq⟩
  all_goals
    constructor
    case ready_ne => intro j hj; simp [hj]
    all_goals simp [Stage.uncounted, Stage.called, Stage.departed, Stage.untold, hq]

end

variable [StateLog L]

/-- What a step brings about. The time for smoking is drawn once the section has ended well. -/
def events (s : Smoker) (stage : Stage) (f : Factory ω L) : List Event :=
  let missed := match (s.delay.sample s.generator).1 with
    | .ok _ => []
    | .error _ => [Event.fault]
  match stage with
  | .starting => match s.section? stage with
      | some sec => f.entry sec
      | none => missed
  | .lighting => f.entry (.light s.holds) ++
      match (f.critical (Section.light s.holds).action).1 with
        | .ok _ => missed
        | .error _ => []
  | stage => match s.section? stage with
      | some sec => f.entry sec
      | none => []

theorem Effect.of_failed {s : Smoker} {f f' : Factory ω L} {stage : Stage} {sec : Section}
    {es : List Event} {e : Failure} (hs : s.section? stage = some sec)
    (h : f.Enters sec es (.error e) f') : Effect s.holds f f' stage (.error e) es := by
  have hk : Keeps stage (.error e) := by intro next hn; cases hn
  have hsec : ∀ k, sec ≠ .supply k := by
    rintro k rfl
    rcases section?_eq hs with h | h | h | h | h <;> simp at h
  rcases h.outcome (fun c t ht => Section.table_of_crash ht hsec) with
    ⟨ht, htable, -⟩ | ⟨d, rfl, hd, ht, -⟩
  · exact .of_quiet h.frame.1 h.frame.2 (by simp [htable]) (by simp [htable]) (by rw [htable])
      (fun j => ht _) (fun j => ht _) hk
  · rcases section?_eq hs with ⟨-, ho⟩ | ⟨rfl, ho⟩ | ⟨-, ho⟩ | ⟨-, ho⟩ | ⟨rfl, ho⟩
    · exact .of_section h.frame hd ht (.inl ho) hk
    · obtain ⟨v, rfl⟩ : ∃ v, d = .visited s.holds v := by cases d <;> simp_all [Deed.origin]
      by_cases hv : v = .served
      · subst hv
        exact .of_served h.frame hd ht (.inr ⟨e, rfl⟩)
      · exact .of_section h.frame hd ht (.inr (.inr (.inr ⟨v, rfl, hv⟩))) hk
    · exact .of_section h.frame hd ht (.inr (.inl ho)) hk
    · exact .of_section h.frame hd ht (.inr (.inr (.inl ho))) hk
    · obtain rfl : d = .finished s.holds := by cases d <;> simp_all [Deed.origin]
      exact .of_finished h.frame hd ht (.inr ⟨e, rfl⟩)

variable [DecidableEq ω]

/-- The steps of a smoker whose waits go by the name `w`. -/
inductive Step (w : ω) (s : Smoker) (f : Factory ω L) :
    Stage → List Event → Except Failure Stage → Smoker → Factory ω L → Prop
  | failed {stage sec es e g f'} (hs : s.section? stage = some sec) (h : f.Enters sec es (.error e) f') :
      Step w s f stage es (.error e) { s with generator := g } f'
  | arrived {es f'} (h : f.Enters (.arrive s.holds) es (.ok (.arrived s.holds)) f') :
      Step w s f .arriving es (.ok .awaiting) s f'
  | called {q} (h : (f.ready.get s.holds).poll w = (.passed, q)) :
      Step w s f .awaiting [] (.ok .collecting) s { f with ready := f.ready.set s.holds q }
  | queued {q} (h : (f.ready.get s.holds).poll w = (.pending, q)) :
      Step w s f .awaiting [] (.ok .awaiting) s { f with ready := f.ready.set s.holds q }
  | refused {q} (h : (f.ready.get s.holds).poll w = (.refused, q)) :
      Step w s f .awaiting [] (.error (.error (.semaphoreClosed (Factory.readyName s.holds)))) s
        { f with ready := f.ready.set s.holds q }
  | served {es f'} (h : f.Enters (.visit s.holds) es (.ok (.visited s.holds .served)) f') :
      Step w s f .collecting es (.ok .starting) s f'
  | left {es f'} (h : f.Enters (.visit s.holds) es (.ok (.visited s.holds .closed)) f') :
      Step w s f .collecting es (.ok .gone) s f'
  | lacked {es i f'} (h : f.Enters (.visit s.holds) es (.ok (.visited s.holds (.lacking i))) f') :
      Step w s f .collecting es (.error (.error (.missingIngredient s.holds.index i))) s f'
  | rolled {es g work f'} (hd : s.delay.sample s.generator = (.ok work, g))
      (h : f.Enters (.roll s.holds) es (.ok (.rolled s.holds)) f') :
      Step w s f .starting es (.ok (.rolling work)) { s with generator := g } f'
  | overslept {c g} (hd : s.delay.sample s.generator = (.error c, g)) :
      Step w s f .starting [.fault] (.error (.crash c)) { s with generator := g } f
  | rested {work} : Step w s f (.rolling work) [] (.ok .telling) s f
  | told : Step w s f .telling [] (.ok .lighting) s f.signalCigarette
  | lit {es g work f'} (hd : s.delay.sample s.generator = (.ok work, g))
      (h : f.Enters (.light s.holds) es (.ok (.lit s.holds)) f') :
      Step w s f .lighting es (.ok (.smoking work)) { s with generator := g } f'
  | dozed {es c g f'} (hd : s.delay.sample s.generator = (.error c, g))
      (h : f.Enters (.light s.holds) es (.ok (.lit s.holds)) f') :
      Step w s f .lighting (es ++ [.fault]) (.error (.crash c)) { s with generator := g } f'
  | smoked {work} : Step w s f (.smoking work) [] (.ok .finishing) s f
  | finished {es f'} (h : f.Enters (.finish s.holds) es (.ok (.finished s.holds)) f') :
      Step w s f .finishing es (.ok .arriving) { s with smoked := s.smoked + 1 } f'

theorem step_perform (w : ω) (s : Smoker) {stage : Stage} (hg : stage ≠ .gone) (f : Factory ω L) :
    Step w s f stage (s.events stage f) (s.perform w stage f).1 (s.perform w stage f).2.1
      (s.perform w stage f).2.2 := by
  cases stage with
  | arriving =>
      have h := f.enters_critical (.arrive s.holds)
      rw [Section.action, Factory.critical_map] at h
      simp only [perform, events, section?]
      rcases hr : f.critical (Table.Action.setSmoker s.holds .waiting) with ⟨e | a, f'⟩
      · rw [hr] at h
        exact .failed (g := s.generator) rfl h
      · rw [hr] at h
        exact .arrived h
  | awaiting =>
      simp only [perform, events, section?, Factory.awaitIngredients]
      rcases hr : (f.ready.get s.holds).poll w with ⟨_ | _ | _, q⟩
      · exact .called hr
      · exact .queued hr
      · exact .refused hr
  | collecting =>
      have h := f.enters_critical (.visit s.holds)
      rw [Section.action, Factory.critical_map] at h
      simp only [perform, events, section?]
      rcases hr : f.critical (Table.Action.visit s.holds) with ⟨e | v, f'⟩
      · rw [hr] at h
        exact .failed (g := s.generator) rfl h
      · rw [hr] at h
        cases v with
        | closed => exact .left h
        | served => exact .served h
        | lacking i => exact .lacked h
  | starting =>
      have h := f.enters_critical (.roll s.holds)
      rw [Section.action, Factory.critical_map] at h
      simp only [perform, events, section?]
      rcases hd : s.delay.sample s.generator with ⟨c | work, g⟩
      · exact .overslept hd
      · rcases hr : f.critical (Table.Action.setSmoker s.holds .rolling) with ⟨e | a, f'⟩
        · rw [hr] at h
          exact .failed (by simp [section?, hd]) h
        · rw [hr] at h
          exact .rolled hd h
  | rolling work => exact .rested
  | telling => exact .told
  | lighting =>
      have h := f.enters_critical (.light s.holds)
      rw [Section.action, Factory.critical_map] at h
      simp only [perform, events, Section.action, Factory.critical_map]
      rcases hr : f.critical (Table.Action.setSmoker s.holds .smoking) with ⟨e | a, f'⟩
      · rw [hr] at h
        simpa [Except.map] using Step.failed (g := s.generator)
          (show s.section? .lighting = some (.light s.holds) from rfl) h
      · rw [hr] at h
        rcases hd : s.delay.sample s.generator with ⟨c | work, g⟩
        · exact .dozed hd h
        · simpa [Except.map] using Step.lit hd h
  | smoking work => exact .smoked
  | finishing =>
      have h := f.enters_critical (.finish s.holds)
      rw [Section.action, Factory.critical_map] at h
      simp only [perform, events, section?]
      rcases hr : f.critical (Table.Action.countCigarette s.holds) with ⟨e | a, f'⟩
      · rw [hr] at h
        exact .failed (g := s.generator) rfl h
      · rw [hr] at h
        exact .finished h
  | gone => exact absurd rfl hg

theorem Step.holds {w : ω} {s s' : Smoker} {f f' : Factory ω L} {stage : Stage}
    {course : Except Failure Stage} {es : List Event} (h : Step w s f stage es course s' f') :
    s'.holds = s.holds := by
  cases h <;> rfl

theorem Step.uses {w : ω} {s s' : Smoker} {f f' : Factory ω L} {stage : Stage}
    {course : Except Failure Stage} {es : List Event} (h : Step w s f stage es course s' f') :
    (∀ k, k ≠ s.holds → f'.ready.get k = f.ready.get k) ∧
      Semaphore.Uses w (f.ready.get s.holds) (f'.ready.get s.holds) ∧
      ∀ v, Semaphore.Uses v f.cigarette f'.cigarette := by
  cases h with
  | failed _ h | arrived h | served h | left h | lacked h | rolled _ h | lit _ h | dozed _ h | finished h =>
      rw [h.frame.1, h.frame.2]
      exact ⟨fun _ _ => rfl, .refl, fun _ => .refl⟩
  | called h | queued h | refused h =>
      refine ⟨fun k hk => by simp [hk], ?_, fun _ => .refl⟩
      simpa [h] using Semaphore.Uses.poll (w := w) (.refl (s := f.ready.get s.holds))
  | told => exact ⟨fun _ _ => rfl, .refl, fun _ => .signal .refl⟩
  | overslept | rested | smoked => exact ⟨fun _ _ => rfl, .refl, fun _ => .refl⟩

theorem Step.records {w : ω} {s s' : Smoker} {f f' : Factory ω L} {stage : Stage}
    {course : Except Failure Stage} {es : List Event} (h : Step w s f stage es course s' f') :
    f.Records f' (s.section? stage) es := by
  cases h with
  | failed hs h =>
      rw [hs]
      exact h.records
  | arrived h | served h | left h | lacked h | lit _ h | finished h => exact h.records
  | rolled hd h => simpa only [section?, hd] using h.records
  | dozed _ h => exact h.records.append_fault
  | called | queued | refused | overslept | rested | told | smoked => exact .silent rfl rfl fun hp => ⟨hp, rfl⟩

theorem Step.effect {w : ω} {s s' : Smoker} {f f' : Factory ω L} {stage : Stage}
    {course : Except Failure Stage} {es : List Event} (h : Step w s f stage es course s' f') :
    Effect s.holds f f' stage course es := by
  cases h with
  | failed hs h => exact .of_failed hs h
  | arrived h =>
      obtain ⟨ho, hd, rfl⟩ := h.of_ok
      exact .of_section h.frame hd (by simp) (.inl ho) (by rintro _ ⟨⟩; exact ⟨rfl, rfl, rfl, rfl⟩)
  | served h =>
      obtain ⟨-, hd, rfl⟩ := h.of_ok
      exact .of_served h.frame hd (by simp) (.inl rfl)
  | lacked h =>
      obtain ⟨-, hd, rfl⟩ := h.of_ok
      exact .of_section h.frame hd (by simp) (.inr (.inr (.inr ⟨_, rfl, by simp⟩))) (by rintro _ ⟨⟩)
  | rolled _ h =>
      obtain ⟨ho, hd, rfl⟩ := h.of_ok
      exact .of_section h.frame hd (by simp) (.inr (.inl ho)) (by rintro _ ⟨⟩; exact ⟨rfl, rfl, rfl, rfl⟩)
  | lit _ h =>
      obtain ⟨ho, hd, rfl⟩ := h.of_ok
      exact .of_section h.frame hd (by simp) (.inr (.inr (.inl ho)))
        (by rintro _ ⟨⟩; exact ⟨rfl, rfl, rfl, rfl⟩)
  | dozed _ h =>
      obtain ⟨ho, hd, rfl⟩ := h.of_ok
      exact .of_section h.frame hd (by simp) (.inr (.inr (.inl ho))) (by rintro _ ⟨⟩)
  | finished h =>
      obtain ⟨-, hd, rfl⟩ := h.of_ok
      exact .of_finished h.frame hd (by simp) (.inl rfl)
  | overslept =>
      exact .of_quiet rfl rfl (fun _ => rfl) (fun _ => rfl) rfl (fun _ => rfl) (fun _ => rfl)
        (by rintro _ ⟨⟩)
  | rested | smoked =>
      exact .of_quiet rfl rfl (fun _ => rfl) (fun _ => rfl) rfl (fun _ => rfl) (fun _ => rfl)
        (by rintro _ ⟨⟩; exact ⟨rfl, rfl, rfl, rfl⟩)
  | left h =>
      obtain ⟨-, hd, rfl⟩ := h.of_ok
      exact .of_left h.frame hd (by simp)
  | told =>
      constructor <;> simp [Factory.signalCigarette, Stage.called, Stage.departed, Stage.untold, Stage.uncounted]
  | called h =>
      have hq := (Semaphore.passed_permits h).1
      exact .of_look (.inl ⟨rfl, hq⟩)
  | queued h =>
      have hq := (Semaphore.pending_permits h).1
      exact .of_look (.inr (.inl ⟨rfl, hq⟩))
  | refused h =>
      have hq := (Semaphore.refused_permits h).1
      exact .of_look (.inr (.inr ⟨⟨_, rfl⟩, hq⟩))

/-- A smoker counts what the table counts, and never more. -/
theorem Step.smoked_le {w : ω} {s s' : Smoker} {f f' : Factory ω L} {stage : Stage}
    {course : Except Failure Stage} {es : List Event} (h : Step w s f stage es course s' f') :
    s'.smoked + (f.table.cigarettes.get s.holds).toNat ≤
      s.smoked + (f'.table.cigarettes.get s.holds).toNat := by
  have hmono := h.effect.cigarettes_le
  cases h with
  | finished h =>
      obtain ⟨-, hd, rfl⟩ := h.of_ok
      simp only [hd.cigarettes, Deed.counted, if_true]
      omega
  | failed | arrived | called | queued | refused | served | left | lacked | rolled | overslept | rested
  | told | lit | dozed | smoked => exact Nat.add_le_add_left hmono _

end CigaretteSmokers.Smoker
