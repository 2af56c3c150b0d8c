import CigaretteSmokers.Agent
import CigaretteSmokers.Smoker
import CigaretteSmokers.Proofs.Deeds

/-!
The lock used over and over, with changes of any kind: what the log is given, what each use answers,
and what can still be seen after a crash.
-/

namespace CigaretteSmokers

/-- A log together with all that it has been given, whatever it made of it. -/
structure Tapped (L : Type) where
  given : List (Nat × Table)
  log : L

instance {L : Type} [StateLog L] : StateLog (Tapped L) where
  save clock t l :=
    let (reply, log) := StateLog.save clock t l.log
    (reply, ⟨l.given ++ [(clock, t)], log⟩)

/-- One use of the lock, at the time that the clock shows. -/
structure Use where
  {α : Type}
  act : Table.Action α
  clock : Nat

/-- The tables that the changes leave behind, each made from the one before, up to the first crash. A
table that the log refuses is the next change's to begin with all the same. -/
def outcomes {L : Type} [StateLog L] : Table → L → List Use → List (Nat × Table)
  | _, _, [] => []
  | t, log, u :: us =>
      match u.act t with
      | .error _ _ => []
      | .ok _ t => (u.clock, t) ::
          match StateLog.save u.clock t log with
          | (.error (.crashed _), _) => []
          | (_, log) => outcomes t log us

namespace Factory

variable {ω L : Type}

def tapped (given : List (Nat × Table)) (f : Factory ω L) : Factory ω (Tapped L) :=
  { f with log := ⟨given, f.log⟩ }

variable [StateLog L]

def use (u : Use) (f : Factory ω L) : Except Failure u.α × Factory ω L :=
  critical u.act { f with clock := u.clock }

def useAll (us : List Use) (f : Factory ω L) : Factory ω L := us.foldl (fun f u => (f.use u).2) f

@[simp] theorem useAll_nil (f : Factory ω L) : f.useAll [] = f := rfl

@[simp] theorem useAll_cons (u : Use) (us : List Use) (f : Factory ω L) :
    f.useAll (u :: us) = (f.use u).2.useAll us := rfl

theorem useAll_append (us vs : List Use) (f : Factory ω L) :
    f.useAll (us ++ vs) = (f.useAll us).useAll vs := List.foldl_append

/-- The ways in which a use of the lock can go: what the log is given, the answer, and the factory
that is left. -/
inductive Goes (f : Factory ω L) (u : Use) :
    List (Nat × Table) → Except Failure u.α → Factory ω L → Prop
  | barred (hp : f.poisoned = true) :
      Goes f u [] (.error (.error .lockPoisoned)) { f with clock := u.clock }
  | crashed {c t} (hp : f.poisoned = false) (ht : u.act f.table = .error c t) :
      Goes f u [] (.error (.crash c)) { f with clock := u.clock, table := t, poisoned := true }
  | saved {a t log} (hp : f.poisoned = false) (ht : u.act f.table = .ok a t)
      (hs : StateLog.save u.clock t f.log = (.ok (), log)) :
      Goes f u [(u.clock, t)] (.ok a) { f with clock := u.clock, table := t, log }
  | refused {a t e log} (hp : f.poisoned = false) (ht : u.act f.table = .ok a t)
      (hs : StateLog.save u.clock t f.log = (.error (.refused e), log)) :
      Goes f u [(u.clock, t)] (.error (.error (.stateLog e)))
        { f with clock := u.clock, table := t, log }
  | struck {a t c log} (hp : f.poisoned = false) (ht : u.act f.table = .ok a t)
      (hs : StateLog.save u.clock t f.log = (.error (.crashed c), log)) :
      Goes f u [(u.clock, t)] (.error (.crash c))
        { f with clock := u.clock, table := t, log, poisoned := true }

theorem goes_use (u : Use) (f : Factory ω L) : ∃ given, f.Goes u given (f.use u).1 (f.use u).2 := by
  unfold use critical
  split
  · rename_i hp
    exact ⟨_, .barred hp⟩
  · rename_i hp
    have hp : f.poisoned = false := by simpa using hp
    cases ht : u.act f.table with
    | error c t => exact ⟨_, .crashed hp ht⟩
    | ok a t =>
        simp only
        rcases hs : StateLog.save u.clock t f.log with ⟨⟨e⟩ | ⟨⟨⟩⟩, log⟩
        · cases e with
          | refused e => exact ⟨_, .refused hp ht hs⟩
          | crashed c => exact ⟨_, .struck hp ht hs⟩
        · exact ⟨_, .saved hp ht hs⟩

section

variable {f f' : Factory ω L} {u : Use} {given : List (Nat × Table)} {res : Except Failure u.α}

/-- To listen in on what the log is given changes nothing else. -/
theorem Goes.use_tapped (h : f.Goes u given res f') (g : List (Nat × Table)) :
    (f.tapped g).use u = (res, f'.tapped (g ++ given)) := by
  cases h with
  | barred hp => simp [use, critical, tapped, hp]
  | crashed hp ht => simp [use, critical, tapped, hp, ht]
  | saved hp ht hs | refused hp ht hs | struck hp ht hs =>
      simp [use, critical, tapped, StateLog.save, hp, ht, hs]

theorem Goes.outcomes_cons (h : f.Goes u given res f') (hp : f.poisoned = false) (us : List Use) :
    outcomes f.table f.log (u :: us) =
      given ++ if f'.poisoned then [] else outcomes f'.table f'.log us := by
  cases h with
  | barred hp' => simp [hp] at hp'
  | crashed _ ht => simp [outcomes, ht]
  | saved _ ht hs | refused _ ht hs | struck _ ht hs => simp [outcomes, ht, hs, hp]

theorem Goes.poisoned_iff (h : f.Goes u given res f') :
    f'.poisoned = true ↔ f.poisoned = true ∨ ∃ c, res = .error (.crash c) := by
  cases h <;> simp [*]

theorem Goes.of_unpoisoned (h : f.Goes u given res f') (hp : f'.poisoned = false) :
    f.poisoned = false ∧ given = [(u.clock, f'.table)] := by
  cases h with
  | barred hp' => simp [hp'] at hp
  | crashed | struck => simp at hp
  | saved hp' | refused hp' => exact ⟨hp', rfl⟩

theorem Goes.of_poisoned (h : f.Goes u given res f') (hp : f.poisoned = true) :
    given = [] ∧ res = .error (.error .lockPoisoned) ∧ f' = { f with clock := u.clock } := by
  cases h with
  | barred => exact ⟨rfl, rfl, rfl⟩
  | crashed hp' | saved hp' | refused hp' | struck hp' => simp [hp] at hp'

theorem Goes.ok_iff (h : f.Goes u given res f') (hp : f.poisoned = false) (a : u.α) :
    res = .ok a ↔
      ∃ t, u.act f.table = .ok a t ∧ (StateLog.save u.clock t f.log).1 = .ok () := by
  cases h with
  | barred hp' => simp [hp] at hp'
  | crashed _ ht => simp [ht]
  | saved _ ht hs | refused _ ht hs | struck _ ht hs => simp [ht, hs]

theorem Goes.error_iff (h : f.Goes u given res f') (hp : f.poisoned = false) (e : ActorError) :
    res = .error (.error e) ↔ ∃ a t cause, u.act f.table = .ok a t ∧
      (StateLog.save u.clock t f.log).1 = .error (.refused cause) ∧ e = .stateLog cause := by
  cases h with
  | barred hp' => simp [hp] at hp'
  | crashed _ ht => simp [ht]
  | saved _ ht hs | refused _ ht hs | struck _ ht hs => simp [ht, hs, eq_comm]

theorem Goes.crash_iff (h : f.Goes u given res f') (hp : f.poisoned = false) (c : Crash) :
    res = .error (.crash c) ↔ (∃ t, u.act f.table = .error c t) ∨
      ∃ a t, u.act f.table = .ok a t ∧ (StateLog.save u.clock t f.log).1 = .error (.crashed c) := by
  cases h with
  | barred hp' => simp [hp] at hp'
  | crashed _ ht => simp [ht]
  | saved _ ht hs | refused _ ht hs | struck _ ht hs => simp [ht, hs]

end

/-! ### Many uses -/

theorem useAll_of_poisoned (us : List Use) {f : Factory ω L} (hp : f.poisoned = true) :
    ∃ clock, f.useAll us = { f with clock } := by
  induction us generalizing f with
  | nil => exact ⟨f.clock, rfl⟩
  | cons u us ih =>
      obtain ⟨given, h⟩ := goes_use u f
      obtain ⟨-, -, hf⟩ := h.of_poisoned hp
      obtain ⟨clock, ht⟩ := ih (f := (f.use u).2) (by rw [hf]; exact hp)
      exact ⟨clock, by rw [useAll_cons, ht, hf]⟩

theorem tapped_useAll (us : List Use) (f : Factory ω L) (g : List (Nat × Table)) :
    (f.tapped g).useAll us =
      (f.useAll us).tapped (g ++ if f.poisoned then [] else outcomes f.table f.log us) := by
  induction us generalizing f g with
  | nil => simp [outcomes]
  | cons u us ih =>
      obtain ⟨given, h⟩ := goes_use u f
      rw [useAll_cons, useAll_cons, h.use_tapped g, ih]
      cases hp : f.poisoned with
      | true =>
          have hp' := h.poisoned_iff.2 (.inl hp)
          simp [hp', (h.of_poisoned hp).1]
      | false => simp [h.outcomes_cons hp]

theorem poisoned_useAll (us : List Use) (f : Factory ω L) :
    (f.useAll us).poisoned = true ↔ f.poisoned = true ∨
      ∃ before u later c, us = before ++ u :: later ∧
        ((f.useAll before).use u).1 = .error (.crash c) := by
  induction us generalizing f with
  | nil => simp
  | cons u us ih =>
      obtain ⟨given, h⟩ := goes_use u f
      rw [useAll_cons, ih, h.poisoned_iff, or_assoc]
      refine or_congr_right ⟨?_, ?_⟩
      · rintro (⟨c, hc⟩ | ⟨before, v, later, c, rfl, hc⟩)
        · exact ⟨[], u, us, c, rfl, hc⟩
        · exact ⟨u :: before, v, later, c, rfl, hc⟩
      · rintro ⟨_ | ⟨v, before⟩, w, later, c, hus, hc⟩
        · cases hus
          exact .inl ⟨c, hc⟩
        · cases hus
          exact .inr ⟨before, w, later, c, rfl, hc⟩

theorem poisoned_of_useAll {us : List Use} {f : Factory ω L}
    (hp : (f.useAll us).poisoned = false) : f.poisoned = false := by
  rw [← Bool.not_eq_true, poisoned_useAll, not_or] at hp
  simpa using hp.1

/-- As long as nothing crashes each change leaves one table behind, and the last of them lies under
the lock. -/
theorem outcomes_of_unpoisoned (us : List Use) {f : Factory ω L}
    (hp : (f.useAll us).poisoned = false) :
    (outcomes f.table f.log us).map (·.1) = us.map (·.clock) ∧
      (f.useAll us).table = ((outcomes f.table f.log us).map (·.2)).getLastD f.table := by
  induction us generalizing f with
  | nil => exact ⟨rfl, rfl⟩
  | cons u us ih =>
      obtain ⟨given, h⟩ := goes_use u f
      rw [useAll_cons] at hp ⊢
      have hp' := poisoned_of_useAll hp
      obtain ⟨hp₀, hgiven⟩ := h.of_unpoisoned hp'
      obtain ⟨hclock, htable⟩ := ih hp
      rw [h.outcomes_cons hp₀, hgiven, hp']
      simp only [Bool.false_eq_true, if_false, List.cons_append, List.nil_append, List.map_cons,
        List.getLastD_cons]
      exact ⟨by rw [hclock], htable⟩

end Factory

/-! ### Counts that overflow -/

namespace Table.Action

theorem putUnit_of_max {i : Ingredient} {t : Table} (h : t.ingredients.get i = Int64.maxValue) :
    putUnit i t = .error .additionOverflow t := by
  unfold putUnit
  rw [h]
  rfl

theorem countCigarette_of_max {k : Ingredient} {t : Table}
    (h : (t.cigarettes.get k).toNat + 1 = UInt64.size) :
    countCigarette k t = .error .additionOverflow t := by
  simp only [countCigarette, Checked.unsigned, h, Nat.lt_irrefl, if_false]

/-- The unit that can still be counted stays on the table. -/
theorem supply_of_max {k : Ingredient} {t : Table}
    (h₁ : (t.ingredients.get k.needs.1).toInt < Int64.maxValue.toInt)
    (h₂ : t.ingredients.get k.needs.2 = Int64.maxValue) :
    ∃ t', supply k t = .error .additionOverflow t' ∧
      (t'.ingredients.get k.needs.1).toInt = (t.ingredients.get k.needs.1).toInt + 1 ∧
      t'.ingredients.get k.needs.2 = t.ingredients.get k.needs.2 := by
  obtain ⟨-, -, hne⟩ := k.needs_ne
  have hset : setAgent .preparing t = .ok () { t with agent := .preparing } := rfl
  obtain ⟨t₁, ht₁⟩ := putUnit_of_lt (i := k.needs.1) (t := { t with agent := .preparing }) h₁
  obtain ⟨n, rfl, hn⟩ := putUnit_ok ht₁
  have hlast : supply k t = .error .additionOverflow
      { t with agent := .preparing, ingredients := t.ingredients.set k.needs.1 n } := by
    rw [supply, bind_ok_of hset, bind_ok_of ht₁]
    exact putUnit_of_max (by simpa only [Trio.get_set, if_neg (Ne.symm hne)] using h₂)
  exact ⟨_, hlast, by simpa using hn, by simp [Ne.symm hne]⟩

end Table.Action

section

variable {ω L : Type} [DecidableEq ω] [StateLog L] {f : Factory ω L} (w : ω) {k : Ingredient}

/-- An agent that crashes between the two units leaves the first on the table, where nobody sees it:
it is not recorded, and the lock is poisoned. -/
theorem Agent.perform_supplying_of_max (a : Agent) (stop : Stop)
    (stopFirst : Bool) (hp : f.poisoned = false)
    (h₁ : (f.table.ingredients.get k.needs.1).toInt < Int64.maxValue.toInt)
    (h₂ : f.table.ingredients.get k.needs.2 = Int64.maxValue) :
    ∃ f', a.perform w stop stopFirst (.supplying k) f =
        (.error (.crash .additionOverflow), a, f') ∧
      (f'.table.ingredients.get k.needs.1).toInt = (f.table.ingredients.get k.needs.1).toInt + 1 ∧
      f'.table.ingredients.get k.needs.2 = f.table.ingredients.get k.needs.2 ∧
      f'.log = f.log ∧ f'.snapshot = .error .lockPoisoned := by
  obtain ⟨t, hact, hfirst, hsecond⟩ := Table.Action.supply_of_max h₁ h₂
  refine ⟨{ f with table := t, poisoned := true }, ?_, hfirst, hsecond, rfl, rfl⟩
  simp only [Agent.perform, Factory.critical, hp, hact, Bool.false_eq_true, if_false]

theorem Smoker.perform_finishing_of_max (s : Smoker) (hp : f.poisoned = false)
    (h : (f.table.cigarettes.get s.holds).toNat + 1 = UInt64.size) :
    ∃ f', s.perform w .finishing f = (.error (.crash .additionOverflow), s, f') ∧
      f'.log = f.log ∧ f'.snapshot = .error .lockPoisoned := by
  have hact := Table.Action.countCigarette_of_max h
  refine ⟨{ f with poisoned := true }, ?_, rfl, rfl⟩
  simp only [Smoker.perform, Factory.critical, hp, hact, Bool.false_eq_true, if_false]

end

namespace Factory

variable {ω L : Type} [DecidableEq ω] [StateLog L]

/-- The log is given each table that a change has left behind, in the order of the changes, and no
other; each change begins with the table that the one before it has left, be it recorded or refused.
An answer other than a failure means that the change came to its end and was recorded. Nothing is done
under the lock once a change or the log has crashed, and what a crash has left half done cannot be
seen. So it is with the agent that lays out one unit and has no room for the other, and with the smoker
that has no room for one more cigarette. -/
theorem recorded_until_crash (t : Table) (log : L) (us : List Use) :
    let fresh : Factory ω L := { table := t, log }
    let f := fresh.useAll us
    (fresh.tapped []).useAll us = f.tapped (outcomes t log us) ∧
    (f.poisoned = true ↔ ∃ before u later c, us = before ++ u :: later ∧
      ((fresh.useAll before).use u).1 = .error (.crash c)) ∧
    (f.poisoned = false →
      (outcomes t log us).map (·.1) = us.map (·.clock) ∧
      f.snapshot = .ok (((outcomes t log us).map (·.2)).getLastD t) ∧
      ∀ u : Use,
        (∀ a, (f.use u).1 = .ok a ↔
          ∃ t', u.act f.table = .ok a t' ∧ (StateLog.save u.clock t' f.log).1 = .ok ()) ∧
        (∀ e, (f.use u).1 = .error (.error e) ↔ ∃ a t' cause, u.act f.table = .ok a t' ∧
          (StateLog.save u.clock t' f.log).1 = .error (.refused cause) ∧ e = .stateLog cause) ∧
        ∀ c, (f.use u).1 = .error (.crash c) ↔ (∃ t', u.act f.table = .error c t') ∨
          ∃ a t', u.act f.table = .ok a t' ∧
            (StateLog.save u.clock t' f.log).1 = .error (.crashed c)) ∧
    (f.poisoned = true → ∀ vs : List Use,
      (∃ clock, f.useAll vs = { f with clock }) ∧
      outcomes t log (us ++ vs) = outcomes t log us ∧
      (f.useAll vs).snapshot = .error .lockPoisoned ∧
      ∀ u : Use, ((f.useAll vs).use u).1 = .error (.error .lockPoisoned)) ∧
    (f.poisoned = false →
      (∀ w (a : Agent) stop stopFirst k,
        (f.table.ingredients.get k.needs.1).toInt < Int64.maxValue.toInt →
        f.table.ingredients.get k.needs.2 = Int64.maxValue →
        ∃ f', a.perform w stop stopFirst (.supplying k) f =
            (.error (.crash .additionOverflow), a, f') ∧
          (f'.table.ingredients.get k.needs.1).toInt =
            (f.table.ingredients.get k.needs.1).toInt + 1 ∧
          f'.table.ingredients.get k.needs.2 = f.table.ingredients.get k.needs.2 ∧
          f'.log = f.log ∧ f'.snapshot = .error .lockPoisoned) ∧
      ∀ w (s : Smoker), (f.table.cigarettes.get s.holds).toNat + 1 = UInt64.size →
        ∃ f', s.perform w .finishing f = (.error (.crash .additionOverflow), s, f') ∧
          f'.log = f.log ∧ f'.snapshot = .error .lockPoisoned) := by
  intro fresh f
  have htap : ∀ us, (fresh.tapped []).useAll us = (fresh.useAll us).tapped (outcomes t log us) :=
    fun us => by rw [tapped_useAll]; rfl
  refine ⟨htap us, by simpa [fresh] using poisoned_useAll us fresh, fun hp => ?_, fun hp vs => ?_,
    fun hp => ⟨fun w a stop stopFirst _ => a.perform_supplying_of_max w stop stopFirst hp,
      fun w s => s.perform_finishing_of_max w hp⟩⟩
  · obtain ⟨hclock, htable⟩ := outcomes_of_unpoisoned us hp
    refine ⟨hclock, ?_, fun u => ?_⟩
    · simp only [snapshot, show f.poisoned = false from hp, Bool.false_eq_true, if_false]
      exact congrArg _ htable
    · obtain ⟨given, h⟩ := goes_use u f
      exact ⟨h.ok_iff hp, h.error_iff hp, h.crash_iff hp⟩
  · obtain ⟨clock, hvs⟩ := useAll_of_poisoned vs hp
    have hp' : (f.useAll vs).poisoned = true := by rw [hvs]; exact hp
    refine ⟨⟨clock, hvs⟩, ?_, by simp only [snapshot, hp', if_true], fun u => ?_⟩
    · -- The log that listens in has nothing to hear after the crash.
      have hlate := htap (us ++ vs)
      obtain ⟨clock', hcut⟩ := useAll_of_poisoned vs (f := f.tapped (outcomes t log us)) hp
      rw [useAll_append, htap us, hcut] at hlate
      exact (congrArg (·.log.given) hlate).symm
    · obtain ⟨given, h⟩ := goes_use u (f.useAll vs)
      exact (h.of_poisoned hp').2.1

end Factory

end CigaretteSmokers
