import CigaretteSmokers.Proofs.Conservation
import CigaretteSmokers.Proofs.CriticalSections

/-!
What a step of a run writes: nothing, or the one table that a deed of the acting actor makes of the
table before. The tables that the log was given are therefore a full account of the shared table, as a
log that notes what it is given bears out.
-/

namespace CigaretteSmokers

namespace Event

def entry? : Event → Option (Deed × Table)
  | .entered d t => some (d, t)
  | .fault => none

/-- The critical sections that ran, each with the table that it left. -/
def entries (es : List Event) : List (Deed × Table) := es.filterMap entry?

@[simp] theorem entries_nil : entries [] = [] := rfl

@[simp] theorem entries_entered (d : Deed) (t : Table) (es : List Event) :
    entries (.entered d t :: es) = (d, t) :: entries es := rfl

@[simp] theorem entries_fault (es : List Event) : entries (.fault :: es) = entries es := rfl

@[simp] theorem entries_append (es fs : List Event) :
    entries (es ++ fs) = entries es ++ entries fs := List.filterMap_append

theorem map_snd_entries (es : List Event) : (entries es).map Prod.snd = snapshots es := by
  induction es with
  | nil => rfl
  | cons e es ih => cases e <;> simp [ih]

theorem times_eq_count (d : Deed) (es : List Event) :
    times d es = ((entries es).map Prod.fst).count d := by
  induction es with
  | nil => rfl
  | cons e es ih => cases e <;> simp [ih, List.count_cons]

theorem servings_eq_count (es : List Event) (k : Ingredient) :
    servings es k = ((entries es).map Prod.fst).count (.visited k .served) := times_eq_count _ _

end Event

open Event (entries snapshots)

/-- The smoker that a section belongs to. -/
def Section.smoker? : Section → Option Ingredient
  | .arrive k | .visit k | .roll k | .light k | .finish k => some k
  | .supply _ | .announce | .close => none

def Deed.smoker? (d : Deed) : Option Ingredient := d.origin.smoker?

theorem Smoker.smoker?_of_section? {s : Smoker} {stage : Stage} {sec : Section}
    (h : s.section? stage = some sec) : sec.smoker? = some s.holds := by
  rcases section?_eq h with ⟨-, rfl⟩ | ⟨-, rfl⟩ | ⟨-, rfl⟩ | ⟨-, rfl⟩ | ⟨-, rfl⟩ <;> rfl

theorem Agent.smoker?_of_section? {stopped stopFirst : Bool} {stage : Stage} {sec : Section}
    (h : section? stopped stopFirst stage = some sec) : sec.smoker? = none := by
  rcases section?_eq h with ⟨k, -, rfl⟩ | ⟨-, rfl⟩ | ⟨-, rfl⟩ <;> rfl

namespace Factory

variable {ω L : Type}

/-- A step that may enter the section `o` writes nothing, or it writes one deed. -/
inductive Writes (f f' : Factory ω L) (o : Option Section) (es : List Event) : Prop
  | nothing (hes : entries es = []) (ht : f'.table = f.table)
  | deed {d} (ho : o = some d.origin) (hd : d.Makes f.table f'.table)
      (hes : entries es = [(d, f'.table)])

variable [StateLog L] {f f' : Factory ω L} {sec : Section} {es : List Event}
  {res : Except Failure Deed}

theorem Enters.writes (h : f.Enters sec es res f')
    (htotal : ∃ d t, sec.action f.table = .ok d t) : f.Writes f' (some sec) es := by
  cases h with
  | barred => exact .nothing rfl rfl
  | crashed _ ht =>
      obtain ⟨d, t, hd⟩ := htotal
      simp [hd] at ht
  | saved _ ht | refused _ ht | struck _ ht =>
      exact .deed (by rw [Section.eq_origin ht]) (Section.makes ht) rfl

end Factory

variable {ω L : Type} [StateLog L] [DecidableEq ω]

theorem Smoker.Step.writes {w : ω} {s s' : Smoker} {f f' : Factory ω L} {stage : Stage}
    {course : Except Failure Stage} {es : List Event} (h : Step w s f stage es course s' f')
    (htotal : ∀ sec, s.section? stage = some sec → ∃ d t, sec.action f.table = .ok d t) :
    f.Writes f' (s.section? stage) es := by
  cases h with
  | failed hs h =>
      rw [hs]
      exact h.writes (htotal _ hs)
  | arrived h | served h | left h | lacked h | lit _ h | finished h =>
      exact h.writes (htotal _ rfl)
  | rolled hd h =>
      have hs : s.section? .starting = some (.roll s.holds) := by simp only [section?, hd]
      rw [hs]
      exact h.writes (htotal _ hs)
  | dozed _ h =>
      cases h.writes (htotal _ rfl) with
      | nothing hes ht => exact .nothing (by simp [hes]) ht
      | deed ho hd hes => exact .deed ho hd (by simp [hes])
  | called | queued | refused | overslept | rested | told | smoked => exact .nothing rfl rfl

theorem Agent.Step.writes {w : ω} {stopped : Bool} {a a' : Agent} {f f' : Factory ω L} {stage : Stage}
    {course : Except Failure Stage} {es : List Event} (h : Step w stopped a f stage es course a' f')
    (htotal : ∀ stopFirst sec, section? stopped stopFirst stage = some sec →
      ∃ d t, sec.action f.table = .ok d t) :
    ∃ stopFirst, f.Writes f' (section? stopped stopFirst stage) es := by
  cases h with
  | @failed _ _ stopFirst _ _ _ hs h =>
      refine ⟨stopFirst, ?_⟩
      rw [hs]
      exact h.writes (htotal _ _ hs)
  | supplied h | closed h => exact ⟨false, h.writes (htotal false _ rfl)⟩
  | announced h =>
      have hs : section? stopped false .announcing = some .announce := by simp [section?]
      refine ⟨false, ?_⟩
      rw [hs]
      exact h.writes (htotal _ _ hs)
  | completed | heeded | drew | called | forwent | passed | queued | cancelled | abandoned | refused
  | released | left => exact ⟨true, .nothing rfl rfl⟩

namespace Run

variable {n : Nat} {es fs : List Event} {r r' : Run L}

/-- The one account of what a step of a run does to the table. -/
theorem Balanced.writes (hb : Balanced n es r) (hn : n < UInt64.size) (hm : Moves r fs r') :
    ∃ a stopFirst, r.factory.Writes r'.factory (r.section? a stopFirst) fs := by
  cases hm with
  | @smoker k stage _ _ _ _ _ hc _ hst =>
      rw [noteEnd_eq]
      have hs : ∀ sf, r.section? (.smoker k) sf = (r.smokers.get k).smoker.section? stage := by
        simp [section?, hc]
      refine ⟨.smoker k, false, ?_⟩
      rw [hs]
      exact hst.writes fun sec hsec => hb.action_total hn ((hs false).trans hsec)
  | @agent stage _ _ _ _ _ hc _ hst =>
      rw [noteEnd_eq]
      have hs : ∀ sf, r.section? .agent sf = Agent.section? r.stop.requested sf stage := by
        simp [section?, hc]
      obtain ⟨stopFirst, hw⟩ :=
        hst.writes fun sf sec hsec => hb.action_total hn ((hs sf).trans hsec)
      exact ⟨.agent, stopFirst, (hs stopFirst).symm ▸ hw⟩
  | smokerReported | agentReported | stopped | abandoned => exact ⟨.agent, true, .nothing rfl rfl⟩
  | failed =>
      refine ⟨.agent, true, .nothing rfl ?_⟩
      simp only
      split <;> rfl

/-- The last table that the log was given is the one that lies there now. -/
theorem Balanced.getLast_snapshots (hb : Balanced n es r) (hn : n < UInt64.size)
    (h : Reaches r fs r') : (r.factory.table :: snapshots fs).getLast? = some r'.factory.table := by
  induction h with
  | refl => rfl
  | @step _ gs _ _ hr hs ih =>
      obtain ⟨_, _, hw⟩ := (hb.reaches hr).writes hn hs.moves
      rw [Event.snapshots_append, ← Event.map_snd_entries gs, ← List.cons_append]
      cases hw with
      | nothing hes ht => simpa [hes, ht] using ih
      | deed _ _ hes => simp only [hes, List.map_cons, List.map_nil, List.getLast?_concat]
  | overtake _ _ ih => exact ih

theorem Moves.given {r r' : Run (Tapped L)} (hm : Moves r fs r') :
    r'.factory.log.given.map Prod.snd = r.factory.log.given.map Prod.snd ++ snapshots fs := by
  have hrecords : ∀ {f : Factory Actor (Tapped L)} {o : Option Section},
      r.factory.Records f o fs →
        f.log.given.map Prod.snd = r.factory.log.given.map Prod.snd ++ snapshots fs := by
    intro f o h
    cases h with
    | silent hs hl => rw [hs, hl, List.append_nil]
    | deed _ _ _ hl hrest =>
        rw [hl, Event.snapshots_entered, hrest]
        simp [StateLog.save]
  cases hm with
  | smoker _ _ _ hst =>
      rw [noteEnd_eq]
      exact hrecords hst.records
  | agent _ _ _ hst =>
      rw [noteEnd_eq]
      obtain ⟨o, h⟩ := hst.records
      exact hrecords h
  | smokerReported | agentReported | stopped | abandoned => exact (List.append_nil _).symm
  | failed =>
      rw [Event.snapshots_nil, List.append_nil]
      simp only
      split <;> rfl

theorem Reaches.given {r r' : Run (Tapped L)} (h : Reaches r fs r') :
    r'.factory.log.given.map Prod.snd = r.factory.log.given.map Prod.snd ++ snapshots fs := by
  induction h with
  | refl => simp
  | step _ hs ih => rw [hs.moves.given, ih, Event.snapshots_append, List.append_assoc]
  | overtake _ _ ih => exact ih

end Run

end CigaretteSmokers
