import CigaretteSmokers.Factory
import CigaretteSmokers.Proofs.Deeds

/-!
Entering a critical section: the lock may be poisoned, the section may crash, and the log may
refuse the table or crash over it. What the log is given, and what goes wrong, are the events.
-/

namespace CigaretteSmokers

/-- What a step brings about: a critical section that ran, with the table that the log was given,
or a fault: a save that failed, or a delay that could not be drawn. -/
inductive Event
  | entered (d : Deed) (t : Table)
  | fault
  deriving DecidableEq

namespace Event

def deed? : Event → Option Deed
  | .entered d _ => some d
  | .fault => none

def table? : Event → Option Table
  | .entered _ t => some t
  | .fault => none

/-- The critical sections that ran, in turn. -/
def deeds (es : List Event) : List Deed := es.filterMap deed?

@[simp] theorem deeds_append (es fs : List Event) : deeds (es ++ fs) = deeds es ++ deeds fs :=
  List.filterMap_append

/-- How often a deed has been done. -/
def times (d : Deed) (es : List Event) : Nat := (es.filterMap deed?).count d

@[simp] theorem times_nil (d : Deed) : times d [] = 0 := rfl

@[simp] theorem times_append (d : Deed) (es fs : List Event) :
    times d (es ++ fs) = times d es + times d fs := by
  simp [times]

@[simp] theorem times_entered (d c : Deed) (t : Table) (es : List Event) :
    times d (.entered c t :: es) = times d es + if c = d then 1 else 0 := by
  simp [times, deed?, List.count_cons]

@[simp] theorem times_fault (d : Deed) (es : List Event) : times d (.fault :: es) = times d es := rfl

theorem times_pos {d : Deed} {es : List Event} : 0 < times d es ↔ d ∈ deeds es := List.count_pos_iff

theorem times_eq_zero {d : Deed} {es : List Event} : times d es = 0 ↔ d ∉ deeds es :=
  List.count_eq_zero

/-- The tables that the log was given. -/
def snapshots (es : List Event) : List Table := es.filterMap table?

@[simp] theorem snapshots_nil : snapshots [] = [] := rfl

@[simp] theorem snapshots_entered (d : Deed) (t : Table) (es : List Event) :
    snapshots (.entered d t :: es) = t :: snapshots es := rfl

@[simp] theorem snapshots_fault (es : List Event) : snapshots (.fault :: es) = snapshots es := rfl

@[simp] theorem snapshots_append (es fs : List Event) :
    snapshots (es ++ fs) = snapshots es ++ snapshots fs := List.filterMap_append

end Event

/-- What the stage of an actor weighs; an actor that failed weighs nothing. -/
def tally {σ : Type} (weight : σ → Nat) : Except Failure σ → Nat
  | .ok stage => weight stage
  | .error _ => 0

@[simp] theorem tally_ok {σ : Type} (weight : σ → Nat) (stage : σ) :
    tally weight (.ok stage) = weight stage := rfl

@[simp] theorem tally_error {σ : Type} (weight : σ → Nat) (e : Failure) :
    tally weight (.error e) = 0 := rfl

namespace Factory

variable {ω L α : Type} [StateLog L]

def entry (sec : Section) (f : Factory ω L) : List Event :=
  if f.poisoned then []
  else match sec.action f.table with
    | .error _ _ => []
    | .ok d t => match (StateLog.save f.clock t f.log).1 with
        | .ok () => [.entered d t]
        | .error _ => [.entered d t, .fault]

/-- The ways in which entering a critical section can go: the events, the answer, and the factory
that is left. -/
inductive Enters (f : Factory ω L) (sec : Section) :
    List Event → Except Failure Deed → Factory ω L → Prop
  | barred (hp : f.poisoned = true) : Enters f sec [] (.error (.error .lockPoisoned)) f
  | crashed {c t} (hp : f.poisoned = false) (ht : sec.action f.table = .error c t) :
      Enters f sec [] (.error (.crash c)) { f with table := t, poisoned := true }
  | saved {d t log} (hp : f.poisoned = false) (ht : sec.action f.table = .ok d t)
      (hs : StateLog.save f.clock t f.log = (.ok (), log)) :
      Enters f sec [.entered d t] (.ok d) { f with table := t, log }
  | refused {d t e log} (hp : f.poisoned = false) (ht : sec.action f.table = .ok d t)
      (hs : StateLog.save f.clock t f.log = (.error (.refused e), log)) :
      Enters f sec [.entered d t, .fault] (.error (.error (.stateLog e))) { f with table := t, log }
  | struck {d t c log} (hp : f.poisoned = false) (ht : sec.action f.table = .ok d t)
      (hs : StateLog.save f.clock t f.log = (.error (.crashed c), log)) :
      Enters f sec [.entered d t, .fault] (.error (.crash c))
        { f with table := t, log, poisoned := true }

theorem enters_critical (sec : Section) (f : Factory ω L) :
    f.Enters sec (f.entry sec) (f.critical sec.action).1 (f.critical sec.action).2 := by
  unfold critical entry
  split
  · rename_i hp
    exact .barred hp
  · rename_i hp
    have hp : f.poisoned = false := by simpa using hp
    cases ht : sec.action f.table with
    | error c t => exact .crashed hp ht
    | ok d t =>
        simp only
        rcases hs : StateLog.save f.clock t f.log with ⟨⟨e⟩ | ⟨⟨⟩⟩, log⟩
        · cases e with
          | refused e => exact .refused hp ht hs
          | crashed c => exact .struck hp ht hs
        · exact .saved hp ht hs

theorem critical_map {β : Type} (g : α → β) (act : Table.Action α) (f : Factory ω L) :
    f.critical (g <$> act) = ((f.critical act).1.map g, (f.critical act).2) := by
  unfold critical
  split
  · rfl
  · cases hact : act f.table with
    | error c t => simp [Functor.map, EStateM.map, hact, Except.map]
    | ok a t =>
        simp only [Functor.map, EStateM.map, hact]
        rcases hs : StateLog.save f.clock t f.log with ⟨_ | _, log⟩
        · rename_i e
          cases e <;> rfl
        · rfl

section

variable {f f' : Factory ω L} {sec : Section} {es : List Event} {res : Except Failure Deed}

theorem Enters.frame (h : f.Enters sec es res f') : f'.ready = f.ready ∧ f'.cigarette = f.cigarette := by
  cases h <;> exact ⟨rfl, rfl⟩

/-- Either the section did not run and the table is as it was, or it did one deed; then the answer
is that deed or a failure. -/
theorem Enters.outcome (h : f.Enters sec es res f')
    (hcrash : ∀ c t, sec.action f.table = .error c t → t = f.table) :
    ((∀ c, Event.times c es = 0) ∧ f'.table = f.table ∧ ∃ e, res = .error e) ∨
      ∃ d, d.origin = sec ∧ d.Makes f.table f'.table ∧
        (∀ c, Event.times c es = if d = c then 1 else 0) ∧ (res = .ok d ∨ ∃ e, res = .error e) := by
  cases h with
  | barred => exact .inl ⟨fun _ => rfl, rfl, _, rfl⟩
  | crashed _ ht => exact .inl ⟨fun _ => rfl, hcrash _ _ ht, _, rfl⟩
  | saved _ ht => exact .inr ⟨_, (Section.eq_origin ht).symm, Section.makes ht, by simp, .inl rfl⟩
  | refused _ ht | struck _ ht =>
      exact .inr ⟨_, (Section.eq_origin ht).symm, Section.makes ht, by simp, .inr ⟨_, rfl⟩⟩

theorem Enters.deeds (h : f.Enters sec es res f') :
    Event.deeds es = [] ∨ ∃ d : Deed, d.origin = sec ∧ Event.deeds es = [d] := by
  cases h with
  | barred | crashed => exact .inl rfl
  | saved _ ht | refused _ ht | struck _ ht => exact .inr ⟨_, (Section.eq_origin ht).symm, rfl⟩

theorem Enters.of_ok {d : Deed} (h : f.Enters sec es (.ok d) f') :
    d.origin = sec ∧ d.Makes f.table f'.table ∧ es = [.entered d f'.table] := by
  cases h with
  | saved _ ht => exact ⟨(Section.eq_origin ht).symm, Section.makes ht, rfl⟩

theorem Enters.poisoned_of_ok {d : Deed} (h : f.Enters sec es (.ok d) f') : f'.poisoned = f.poisoned := by
  cases h
  rfl

theorem Enters.fault_mem {e : Failure} (h : f.Enters sec es (.error e) f') (hp : f.poisoned = false)
    (ht : ∃ d t, sec.action f.table = .ok d t) : Event.fault ∈ es := by
  obtain ⟨d, t, ht⟩ := ht
  cases h with
  | barred hp' => simp [hp] at hp'
  | crashed _ ht' => simp [ht] at ht'
  | refused | struck => simp

end

/-- What a step that may enter the section `o` gives to the log: nothing, or the table as a deed has
left it. A table that a crash has left half changed is never given. -/
inductive Records (f f' : Factory ω L) (o : Option Section) : List Event → Prop
  | silent {es} (hs : Event.snapshots es = []) (hl : f'.log = f.log)
      (ht : f'.poisoned = false → f.poisoned = false ∧ f'.table = f.table) : Records f f' o es
  | deed {d rest} (hp : f.poisoned = false) (ho : o = some d.origin) (hd : d.Makes f.table f'.table)
      (hl : f'.log = (StateLog.save f.clock f'.table f.log).2) (hrest : Event.snapshots rest = [])
      (hok : Event.fault ∉ rest → (StateLog.save f.clock f'.table f.log).1 = .ok ())
      (hcrash : ∀ c, (StateLog.save f.clock f'.table f.log).1 = .error (.crashed c) →
        f'.poisoned = true) : Records f f' o (.entered d f'.table :: rest)

theorem Enters.records {f f' : Factory ω L} {sec : Section} {es : List Event}
    {res : Except Failure Deed} (h : f.Enters sec es res f') : f.Records f' (some sec) es := by
  cases h with
  | barred => exact .silent rfl rfl fun hp => ⟨hp, rfl⟩
  | crashed => exact .silent rfl rfl (by simp)
  | saved hp ht hs | refused hp ht hs | struck hp ht hs =>
      refine .deed hp (by rw [Section.eq_origin ht]) (Section.makes ht) (by simp [hs]) rfl ?_ ?_
      all_goals simp [hs]

theorem Records.unpoisoned {f f' : Factory ω L} {o : Option Section} {es : List Event}
    (h : f.Records f' o es) (hp : f'.poisoned = false) : f.poisoned = false := by
  cases h with
  | silent _ _ ht => exact (ht hp).1
  | deed hp => exact hp

theorem Records.status {f f' : Factory ω L} {o : Option Section} {es : List Event} {k : Ingredient}
    (h : f.Records f' o es) (hp : f'.poisoned = false)
    (hk : ∀ d : Deed, o = some d.origin → ∀ t, (d.smokersAfter t).get k = t.get k) :
    f'.table.smokers.get k = f.table.smokers.get k := by
  cases h with
  | silent _ _ ht => rw [(ht hp).2]
  | deed _ ho hd => rw [hd.smokers, hk _ ho]

theorem Records.append_fault {f f' : Factory ω L} {o : Option Section} {es : List Event}
    (h : f.Records f' o es) : f.Records f' o (es ++ [.fault]) := by
  cases h with
  | silent hs hl ht => exact .silent (by simp [hs]) hl ht
  | deed hp ho hd hl hrest hok hcrash =>
      exact .deed hp ho hd hl (by simp [hrest])
        (fun hf => hok fun hmem => hf (by simp [hmem])) hcrash

end Factory

end CigaretteSmokers
