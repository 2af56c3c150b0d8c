import CigaretteSmokers.Law.Observer
import CigaretteSmokers.Log.Recorder
import CigaretteSmokers.Proofs.CriticalSections

/-!
An observer in front of a log: the log behind is given what it would be given without one, and what
the observer tells is what its checkers find from each table to the next.
-/

namespace CigaretteSmokers

namespace StateLog

variable {L : Type} [StateLog L]

/-- Saves one table after another, each at its time. -/
def saveAll : List (Nat × Table) → L → List (Except SaveFault Unit) × L
  | [], log => ([], log)
  | (clock, t) :: saves, log =>
      ((save clock t log).1 :: (saveAll saves (save clock t log).2).1,
        (saveAll saves (save clock t log).2).2)

theorem saveAll_append (saves more : List (Nat × Table)) (log : L) :
    saveAll (saves ++ more) log =
      ((saveAll saves log).1 ++ (saveAll more (saveAll saves log).2).1,
        (saveAll more (saveAll saves log).2).2) := by
  induction saves generalizing log with
  | nil => rfl
  | cons s saves ih =>
      rw [List.cons_append, saveAll, saveAll, ih]
      rfl

theorem saveAll_tapped (saves given : List (Nat × Table)) (log : L) :
    saveAll saves (⟨given, log⟩ : Tapped L) =
      ((saveAll saves log).1, ⟨given ++ saves, (saveAll saves log).2⟩) := by
  induction saves generalizing given log with
  | nil => simp [saveAll]
  | cons s saves ih =>
      have hs : save s.1 s.2 (⟨given, log⟩ : Tapped L) =
          ((save s.1 s.2 log).1, ⟨given ++ [s], (save s.1 s.2 log).2⟩) := rfl
      simp [saveAll, hs, ih]

end StateLog

open StateLog (saveAll)

/-- Each table together with the one before it; `past` stands before the first. -/
def Table.steps (past : Option Table) (ts : List Table) : List (Option Table × Table) :=
  (past :: ts.map some).zip ts

@[simp] theorem Table.steps_cons (past : Option Table) (t : Table) (ts : List Table) :
    Table.steps past (t :: ts) = (past, t) :: Table.steps (some t) ts := rfl

namespace Checker

/-- The checker does not crash over the step. -/
def Calm (c : Checker) (s : Option Table × Table) : Prop := ∃ found, c.check s.1 s.2 = .ok found

instance (c : Checker) (s : Option Table × Table) : Decidable (c.Calm s) :=
  match h : c.check s.1 s.2 with
  | .ok found => isTrue ⟨found, h⟩
  | .error _ => isFalse (by simp [Calm, h])

/-- What a checker finds in a step. -/
def finding (c : Checker) (s : Option Table × Table) : Option String :=
  (c.check s.1 s.2).toOption.join

end Checker

namespace Observer

/-- What the checkers find in a step, in their order. The table is snapshot `n`. -/
def violationsAt (checkers : List Checker) (s : Option Table × Table) (n : Nat) : List Violation :=
  checkers.filterMap fun c => (c.finding s).map fun m => ⟨c.law, UInt64.ofNat n, m⟩

/-- What the checkers find in the steps of `ts`, step by step. The first table is snapshot `n`. -/
def findings (checkers : List Checker) (past : Option Table) (n : Nat) (ts : List Table) :
    List Violation :=
  ((Table.steps past ts).zipIdx n).flatMap fun (s, i) => violationsAt checkers s i

theorem findings_cons (checkers : List Checker) (past : Option Table) (n : Nat) (t : Table)
    (ts : List Table) : findings checkers past n (t :: ts) =
      violationsAt checkers (past, t) n ++ findings checkers (some t) (n + 1) ts := by
  simp only [findings, Table.steps_cons, List.zipIdx_cons, List.flatMap_cons]

theorem inspect_calm {past : Option Table} {now : Table} {n : Nat} {checkers : List Checker}
    (h : ∀ c ∈ checkers, c.Calm (past, now)) : inspect past now (UInt64.ofNat n) checkers =
      .ok (violationsAt checkers (past, now) n) := by
  induction checkers with
  | nil => rfl
  | cons c checkers ih =>
      obtain ⟨found, hc⟩ := h c (by simp)
      have hrest := ih fun d hd => h d (by simp [hd])
      have hfound : c.finding (past, now) = found := by simp [Checker.finding, hc, Except.toOption]
      rw [violationsAt, List.filterMap_cons, hfound]
      simp only [inspect, hc, hrest]
      cases found <;> rfl

/-- The first checker to crash ends the inspection. -/
theorem inspect_crash {past : Option Table} {now : Table} {n : UInt64} {calm rest : List Checker}
    {c : Checker} {crash : Crash} (h : ∀ d ∈ calm, d.Calm (past, now))
    (hc : c.check past now = .error crash) :
    inspect past now n (calm ++ c :: rest) = .error crash := by
  induction calm with
  | nil => simp only [List.nil_append, inspect, hc]
  | cons d calm ih =>
      obtain ⟨found, hd⟩ := h d (by simp)
      have hrest := ih fun e he => h e (by simp [he])
      simp only [List.cons_append, inspect, hd, hrest]

variable {L : Type} [StateLog L]

/-- The observer after saves that have not crashed. -/
def after (saves : List (Nat × Table)) (o : Observer L) : Observer L :=
  { o with
    previous := (saves.map Prod.snd).getLast?.or o.previous
    seen := UInt64.ofNat (o.seen.toNat + saves.length)
    found := o.found ++ findings o.checkers o.previous o.seen.toNat (saves.map Prod.snd)
    inner := (saveAll saves o.inner).2 }

theorem save_calm {clock : Nat} {t : Table} {o : Observer L} (hp : o.poisoned = false)
    (h : ∀ c ∈ o.checkers, c.Calm (o.previous, t)) (hn : o.seen.toNat + 1 < UInt64.size) :
    StateLog.save clock t o = ((StateLog.save clock t o.inner).1, o.after [(clock, t)]) := by
  have hfound := inspect_calm (n := o.seen.toNat) h
  rw [UInt64.ofNat_toNat] at hfound
  change o.save clock t = _
  simp only [save, hp, hfound, Checked.unsigned, hn, Bool.false_eq_true, if_false, if_true]
  simp [after, saveAll, findings, Table.steps, hp]

/-- The checkers have had their say before the count proves too small. -/
theorem save_overflow (clock : Nat) {t : Table} {o : Observer L} (hp : o.poisoned = false)
    (h : ∀ c ∈ o.checkers, c.Calm (o.previous, t)) (hn : o.seen.toNat + 1 = UInt64.size) :
    ∃ o', StateLog.save clock t o = (.error (.crashed .additionOverflow), o') ∧
      o'.poisoned = true ∧ o'.inner = o.inner := by
  have hfound := inspect_calm (n := o.seen.toNat) h
  rw [UInt64.ofNat_toNat] at hfound
  refine ⟨{ o with
    previous := some t
    found := o.found ++ violationsAt o.checkers (o.previous, t) o.seen.toNat
    poisoned := true }, ?_, rfl, rfl⟩
  change o.save clock t = _
  simp only [save, hp, hfound, Checked.unsigned, hn, Nat.lt_irrefl, Bool.false_eq_true, if_false]

theorem save_crash {clock : Nat} {t : Table} {calm rest : List Checker} {c : Checker} {crash : Crash}
    {o : Observer L} (hp : o.poisoned = false) (ho : o.checkers = calm ++ c :: rest)
    (h : ∀ d ∈ calm, d.Calm (o.previous, t)) (hc : c.check o.previous t = .error crash) :
    StateLog.save clock t o = (.error (.crashed crash), { o with poisoned := true }) := by
  change o.save clock t = _
  simp only [save, hp, ho, inspect_crash h hc, Bool.false_eq_true, if_false]

theorem seen_after {saves : List (Nat × Table)} {o : Observer L}
    (hn : o.seen.toNat + saves.length < UInt64.size) :
    (o.after saves).seen.toNat = o.seen.toNat + saves.length :=
  UInt64.toNat_ofNat_of_lt' hn

theorem after_cons (s : Nat × Table) (saves : List (Nat × Table)) {o : Observer L}
    (hn : o.seen.toNat + 1 < UInt64.size) : (o.after [s]).after saves = o.after (s :: saves) := by
  have hseen : (o.after [s]).seen.toNat = o.seen.toNat + 1 := seen_after hn
  have hfound : (o.after [s]).found =
      o.found ++ violationsAt o.checkers (o.previous, s.2) o.seen.toNat := by
    simp [after, findings, Table.steps]
  rw [after, hseen, hfound, Nat.add_right_comm]
  simp [after, saveAll, findings_cons, List.getLast?_cons, Nat.add_assoc]

theorem saveAll_calm {saves : List (Nat × Table)} {o : Observer L} (hp : o.poisoned = false)
    (h : ∀ s ∈ Table.steps o.previous (saves.map Prod.snd), ∀ c ∈ o.checkers, c.Calm s)
    (hn : o.seen.toNat + saves.length < UInt64.size) :
    saveAll saves o = ((saveAll saves o.inner).1, o.after saves) := by
  induction saves generalizing o with
  | nil => simp [saveAll, after, findings, Table.steps]
  | cons s saves ih =>
      rw [List.length_cons] at hn
      have hone : o.seen.toNat + 1 < UInt64.size := by omega
      have hfirst := h (o.previous, s.2) (by simp)
      have hrest := fun s' hs => h s' (List.mem_cons_of_mem _ hs)
      have hsaves := ih (o := o.after [s]) hp hrest (by
        rw [seen_after hone, List.length_singleton]
        omega)
      rw [saveAll, save_calm hp hfirst hone, hsaves, after_cons s saves hone]
      rfl

theorem saveAll_poisoned {saves : List (Nat × Table)} {o : Observer L} (hp : o.poisoned = true) :
    saveAll saves o = (saves.map fun _ => .error (.refused .poisoned), o) := by
  induction saves with
  | nil => rfl
  | cons s saves ih =>
      have hs : StateLog.save s.1 s.2 o = (.error (.refused .poisoned), o) := if_pos hp
      simp only [saveAll, hs, ih, List.map_cons]

/-- A crash that poisons the observer is the last that it has to say. -/
theorem saveAll_crash {before later : List (Nat × Table)} {clock : Nat} {t : Table} {crash : Crash}
    {o o' : Observer L} (hp : o.poisoned = false)
    (h : ∀ s ∈ Table.steps o.previous (before.map Prod.snd), ∀ d ∈ o.checkers, d.Calm s)
    (hn : o.seen.toNat + before.length < UInt64.size)
    (hsave : StateLog.save clock t (o.after before) = (.error (.crashed crash), o'))
    (hp' : o'.poisoned = true) :
    saveAll (before ++ (clock, t) :: later) o =
      ((saveAll before o.inner).1 ++
          .error (.crashed crash) :: later.map (fun _ => .error (.refused .poisoned)), o') := by
  rw [StateLog.saveAll_append, saveAll_calm hp h hn, saveAll, hsave, saveAll_poisoned hp']

/-- An observer that has seen nothing, before a log of which it is noted what it is given. -/
def atDoor (checkers : List Checker) (log : L) : Observer (Tapped L) :=
  { checkers, inner := ⟨[], log⟩ }

/-- The save of `t` crashes, after all that came `before` it: it is not passed on, nor is any later one,
and nothing is told any more. -/
def BreaksOff (checkers : List Checker) (log : L) (before : List (Nat × Table)) (clock : Nat)
    (t : Table) (crash : Crash) (later : List (Nat × Table)) : Prop :=
  let (answers, o) := saveAll (before ++ (clock, t) :: later) (atDoor checkers log)
  answers = (saveAll before log).1 ++
    .error (.crashed crash) :: later.map (fun _ => .error (.refused .poisoned)) ∧
  o.inner = ⟨before, (saveAll before log).2⟩ ∧ o.snapshotCount = 0 ∧ o.violations = []

theorem breaksOff_of_save {checkers : List Checker} {log : L} {before later : List (Nat × Table)}
    {clock : Nat} {t : Table} {crash : Crash} {o' : Observer (Tapped L)}
    (h : ∀ s ∈ Table.steps none (before.map Prod.snd), ∀ d ∈ checkers, d.Calm s)
    (hn : before.length < UInt64.size)
    (hsave : StateLog.save clock t ((atDoor checkers log).after before) = (.error (.crashed crash), o'))
    (hp : o'.poisoned = true) (hinner : o'.inner = ((atDoor checkers log).after before).inner) :
    BreaksOff checkers log before clock t crash later := by
  have hn₀ : (atDoor checkers log).seen.toNat + before.length < UInt64.size := by
    simpa [atDoor] using hn
  have hlast : o'.inner = ⟨before, (saveAll before log).2⟩ := by
    rw [hinner]
    simp [atDoor, after, StateLog.saveAll_tapped]
  rw [BreaksOff, saveAll_crash rfl h hn₀ hsave hp]
  simp [hp, hlast, atDoor, StateLog.saveAll_tapped, snapshotCount, violations]

/-- The observer is transparent and keeps an exact record. While no checker crashes and the count has
room, every save is answered by the log behind, which is given each table once and in order, whatever it
makes of them, and the violations are all that the checkers find. A table over which a checker crashes is
not passed on, nor is any later one, and nothing is told any more; so it is with a table too many to be
counted in 64 bits. -/
theorem transparent (checkers : List Checker) (log : L) (saves : List (Nat × Table)) :
    ((∀ s ∈ Table.steps none (saves.map Prod.snd), ∀ c ∈ checkers, c.Calm s) →
      saves.length < UInt64.size →
      (saveAll saves (atDoor checkers log)).1 = (saveAll saves log).1 ∧
      (saveAll saves (atDoor checkers log)).2.inner = ⟨saves, (saveAll saves log).2⟩ ∧
      (saveAll saves (atDoor checkers log)).2.snapshotCount.toNat = saves.length ∧
      (saveAll saves (atDoor checkers log)).2.violations =
        findings checkers none 0 (saves.map Prod.snd)) ∧
    (∀ before clock t later calm c rest crash, saves = before ++ (clock, t) :: later →
      checkers = calm ++ c :: rest → before.length < UInt64.size →
      (∀ s ∈ Table.steps none (before.map Prod.snd), ∀ d ∈ checkers, d.Calm s) →
      (∀ d ∈ calm, d.Calm ((before.map Prod.snd).getLast?, t)) →
      c.check (before.map Prod.snd).getLast? t = .error crash →
      BreaksOff checkers log before clock t crash later) ∧
    ∀ before clock t later, saves = before ++ (clock, t) :: later →
      before.length + 1 = UInt64.size →
      (∀ s ∈ Table.steps none (before.map Prod.snd), ∀ d ∈ checkers, d.Calm s) →
      (∀ d ∈ checkers, d.Calm ((before.map Prod.snd).getLast?, t)) →
      BreaksOff checkers log before clock t .additionOverflow later := by
  have hlast : ∀ before : List (Nat × Table),
      ((atDoor checkers log).after before).previous = (before.map Prod.snd).getLast? :=
    fun before => Option.or_none
  refine ⟨fun h hn => ?_, ?_, ?_⟩
  · have hn₀ : (atDoor checkers log).seen.toNat + saves.length < UInt64.size := by
      simpa [atDoor] using hn
    have hseen := seen_after hn₀
    rw [saveAll_calm rfl h hn₀]
    refine ⟨?_, ?_, ?_, ?_⟩
    · simp [atDoor, StateLog.saveAll_tapped]
    · simp [atDoor, after, StateLog.saveAll_tapped]
    · rw [snapshotCount, if_neg (by simp [atDoor, after]), hseen]
      simp [atDoor]
    · simp [atDoor, after, violations]
  · rintro before clock t later calm c rest crash - rfl hn h hcalm hc
    have hsave : StateLog.save clock t ((atDoor (calm ++ c :: rest) log).after before) =
        (.error (.crashed crash),
          { (atDoor (calm ++ c :: rest) log).after before with poisoned := true }) :=
      save_crash rfl rfl (hlast before ▸ hcalm) (hlast before ▸ hc)
    exact breaksOff_of_save h hn hsave rfl rfl
  · rintro before clock t later - hn h ht
    have hn₀ : (atDoor checkers log).seen.toNat + before.length < UInt64.size := by
      simp only [atDoor, UInt64.toNat_zero]
      omega
    obtain ⟨o', hsave, hp, hinner⟩ := save_overflow clock
      (o := (atDoor checkers log).after before) rfl (hlast before ▸ ht) (by
        rw [seen_after hn₀]
        simpa [atDoor] using hn)
    exact breaksOff_of_save h (by omega) hsave hp hinner

/-- The second save is refused, and the factory reopens after it. -/
def reopening : List (Nat × Table) :=
  [(0, .initial), (1, { Table.initial with closing := true }), (2, .initial)]

/-- A log that refuses its second save. -/
def refusing : Recorder where
  fault n := if n = 1 then some (.refused .poisoned) else none

/-- The count of tobacco changes by more than 64 bits can tell. -/
def leap : List (Nat × Table) :=
  [(0, { Table.initial with ingredients := ⟨.minValue, 0, 0⟩ }),
    (1, { Table.initial with ingredients := ⟨.maxValue, 0, 0⟩ }), (2, .initial)]

def watching (log : Recorder) : Observer (Tapped Recorder) := atDoor (Law.all.map Law.checker) log

theorem transparent_reopening_leap :
    ((saveAll reopening (watching refusing)).2.inner.given = reopening ∧
      (saveAll reopening (watching refusing)).2.snapshotCount = 3 ∧
      (saveAll reopening (watching refusing)).2.violations.map (fun v => (v.law, v.snapshot)) =
        [(.closingIsTerminal, 2)]) ∧
    (saveAll leap (watching {})).2.inner.given = leap.take 1 ∧
      (saveAll leap (watching {})).2.snapshotCount = 0 := by
  constructor
  · obtain ⟨-, hinner, hcount, hviolations⟩ :=
      (transparent (Law.all.map Law.checker) refusing reopening).1 (by decide +kernel) (by decide)
    refine ⟨congrArg Tapped.given hinner, UInt64.toNat.inj hcount, ?_⟩
    unfold watching
    rw [hviolations]
    decide +kernel
  · obtain ⟨-, hinner, hcount, -⟩ := (transparent (Law.all.map Law.checker) ({} : Recorder) leap).2.1
      (leap.take 1) 1 _ _ (Law.all.dropLast.map Law.checker) _ [] _ rfl rfl (by decide)
      (by decide +kernel) (by decide +kernel) rfl
    exact ⟨congrArg Tapped.given hinner, hcount⟩

end Observer

end CigaretteSmokers
