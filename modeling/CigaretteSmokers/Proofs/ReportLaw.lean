import CigaretteSmokers.Log.Recorder
import CigaretteSmokers.Proofs.Ending
import CigaretteSmokers.Proofs.Faultless
import CigaretteSmokers.Proofs.Reporting

/-!
What the report of a run says when nothing went wrong, and that there is one.
-/

namespace CigaretteSmokers

open Event (supplies servings untaken snapshots)

def Report.smoked (p : Report) (k : Ingredient) : Nat := (p.final.cigarettes.get k).toNat

/-- The law of a report of a run of `n` rounds in which the agent announced `w` waits. Of the round
that the agent gives up for a stop request, the supply may be left on the table, or be smoked all
the same. -/
structure Report.Lawful (n w : Nat) (p : Report) : Prop where
  ids : p.smokers.map (fun s => s.1.index) = [0, 1, 2]
  smokers : p.smokers = Ingredient.all.map fun k => (k, p.smoked k)
  closing : p.final.closing = true
  agentClosing : p.final.agent = .closing
  smokersClosing : ∀ k, p.final.smokers.get k = .closing
  interrupted : p.agent.interrupted = true ↔ p.agent.rounds < n
  smoked_le : ∀ k, p.smoked k ≤ p.agent.supplied.get k
  rounds_le : p.agent.rounds ≤ ∑ k, p.smoked k
  supplied_le : ∑ k, p.agent.supplied.get k ≤ p.agent.rounds + 1
  ingredients : ∀ j, (p.final.ingredients.get j).toInt =
    ∑ k with k ≠ j, ((p.agent.supplied.get k : Int) - p.smoked k)
  snapshots : p.snapshots.toNat = 5 * ∑ k, p.smoked k + ∑ k, p.agent.supplied.get k + w + 7
  rounds_le_waits : p.agent.rounds ≤ w
  waits_le : w ≤ ∑ k, p.agent.supplied.get k

/-- What a run that was not interrupted comes to: every supply has been smoked, and the table is
empty. -/
structure Report.Complete (n : Nat) (p : Report) : Prop where
  smoked : ∀ k, p.smoked k = p.agent.supplied.get k
  total : ∑ k, p.smoked k = n
  rounds : p.agent.rounds = n
  ingredients : ∀ j, p.final.ingredients.get j = 0
  snapshots : p.snapshots.toNat = 7 * n + 7

theorem Report.Lawful.sum_smoked_le {n w : Nat} {p : Report} (h : p.Lawful n w) :
    ∑ k, p.smoked k ≤ ∑ k, p.agent.supplied.get k :=
  Finset.sum_le_sum fun k _ => h.smoked_le k

theorem Report.Lawful.complete {n w : Nat} {p : Report} (h : p.Lawful n w)
    (hn : ∑ k, p.agent.supplied.get k ≤ n) (hi : p.agent.interrupted = false) : p.Complete n := by
  have hrounds : n ≤ p.agent.rounds := by
    by_contra hlt
    simp [h.interrupted.2 (by omega)] at hi
  have hsmoked := h.sum_smoked_le
  have hle := h.rounds_le
  have heq : ∀ k, p.smoked k = p.agent.supplied.get k := fun k =>
    (Finset.sum_eq_sum_iff_of_le fun k _ => h.smoked_le k).1 (by omega) k (Finset.mem_univ k)
  have hwaits := h.rounds_le_waits
  have hwaits' := h.waits_le
  refine ⟨heq, by omega, by omega, fun j => ?_, by rw [h.snapshots]; omega⟩
  rw [← Int64.toInt_inj, h.ingredients]
  simp [heq]

namespace Observer

variable {L : Type} [StateLog L]

theorem save_ok {clock : Nat} {t : Table} {o : Observer L}
    (h : (StateLog.save clock t o).1 = .ok ()) :
    (StateLog.save clock t o).2.poisoned = false ∧
      (StateLog.save clock t o).2.seen.toNat = o.seen.toNat + 1 := by
  change (o.save clock t).1 = .ok () at h
  change (o.save clock t).2.poisoned = false ∧ (o.save clock t).2.seen.toNat = o.seen.toNat + 1
  unfold save at h ⊢
  split at h
  · cases h
  · rename_i hp
    simp only [hp]
    split at h
    · cases h
    · cases hn : Checked.unsigned (o.seen.toNat + 1) with
      | none => simp [hn] at h
      | some n => simp [Checked.toNat_of_unsigned hn]

end Observer

namespace Run

variable {L : Type} [StateLog L] {n : Nat} {es fs : List Event} {r : Run (Observer L)}

structure Counts (es : List Event) (o : Observer L) : Prop where
  poisoned : o.poisoned = false
  seen : o.seen.toNat = (snapshots es).length

theorem Counts.records {f f' : Factory Actor (Observer L)} {o : Option Section} (h : Counts es f.log)
    (hr : f.Records f' o fs) (hfault : Event.fault ∉ fs) : Counts (es ++ fs) f'.log := by
  cases hr with
  | silent hs hl => exact ⟨hl ▸ h.poisoned, by simp [hl, h.seen, hs]⟩
  | deed _ _ _ hl hrest hok =>
      obtain ⟨hp, hseen⟩ := Observer.save_ok (hok (by simpa using hfault))
      refine ⟨hl ▸ hp, ?_⟩
      rw [hl, hseen, h.seen]
      simp [hrest]

theorem Counts.moves (h : Counts es r.factory.log) {r' : Run (Observer L)} (hm : Moves r fs r')
    (hfault : Event.fault ∉ fs) : Counts (es ++ fs) r'.factory.log := by
  cases hm with
  | smoker _ _ _ hst =>
      rw [noteEnd_eq]
      exact h.records hst.records hfault
  | agent _ _ _ hst =>
      rw [noteEnd_eq]
      obtain ⟨o, hr⟩ := hst.records
      exact h.records hr hfault
  | smokerReported | agentReported | stopped | abandoned =>
      rw [List.append_nil]
      exact h
  | failed =>
      rw [List.append_nil]
      simp only
      split <;> exact h

theorem Counts.reaches {r₀ : Run (Observer L)} (h₀ : Counts [] r₀.factory.log) (h : Reaches r₀ es r)
    (hfault : Event.fault ∉ es) : Counts es r.factory.log := by
  induction h with
  | refl => exact h₀
  | step _ hs ih =>
      rw [List.mem_append, not_or] at hfault
      exact (ih hfault.1).moves hs.moves hfault.2
  | overtake _ _ ih => exact ih hfault

omit [StateLog L] in
theorem Faultless.outcome_lawful (h : Faultless n es r) (hb : Balanced n es r) (hr : Heard r)
    (ho : Counts es r.factory.log) (hf : r.finished = true) (key : AccessKey) (seed : UInt64) :
    ∃ p, r.outcome key seed = .ok p ∧ p.agent = r.agent.agent.summary ∧
      p.Lawful n (Event.times .announced es) := by
  obtain ⟨ha, hk⟩ := h.gone_of_finished hf
  have hended := ended_nil_of_finished hf
  have hsmoked : ∀ k, (r.factory.table.cigarettes.get k).toNat = servings es k := by
    intro k
    simpa [Smoker.Stage.uncounted] using hb.counted_exact k .gone (hk k)
  have hexpects := hb.expects
  have hannounced := h.announced .gone ha
  have hnotices := hb.notices
  have hsnapshots := h.snapshots
  simp only [ha, Agent.Expects] at hexpects
  simp only [Agent.Announced] at hannounced
  simp only [ha, hk, tally_ok, Smoker.Stage.behind, Smoker.Stage.ahead, Agent.Stage.closings,
    Agent.Stage.hasClosed, Ingredient.sum_univ, Bool.toNat_true] at hsnapshots
  simp only [outcome, h.failure, Factory.snapshot, h.poisoned, hr.agentReport_eq hended ha,
    hr.sortedReports_eq hended hk hb.holds]
  refine ⟨_, rfl, rfl, ?_⟩
  constructor
  all_goals simp only [Report.smoked, hsmoked, h.supplied, Observer.snapshotCount, ho.poisoned]
  case ids => rfl
  case smokers => simp only [h.smoked, hsmoked]
  case closing => exact hb.closing .gone ha
  case agentClosing => exact h.closed .gone ha rfl
  case smokersClosing => exact fun k => h.left k (hk k)
  case interrupted => exact (h.heeded .gone ha).1
  case smoked_le => exact hb.served
  case rounds_le => exact (Nat.le_add_right _ _).trans ((Nat.le_add_right _ _).trans hnotices)
  case supplied_le => exact hexpects.2.1
  case ingredients => exact hb.stock
  case rounds_le_waits => exact hannounced.1
  case waits_le => exact hannounced.2
  case snapshots =>
    simp only [Ingredient.sum_univ, Bool.false_eq_true, if_false, ho.seen]
    omega

/-- The report law: a run in which no save and no delay fails comes to its end with a report, and
the report is lawful. Unless a stop was requested it tells of a complete run, whether or not there was
still somebody to request one. -/
theorem report_law (key : AccessKey) (seed rounds : UInt64) (delay : DelayModel) (log : L)
    (h : (start seed rounds.toNat delay ({ inner := log } : Observer L)).Reaches es r)
    (hfault : Event.fault ∉ es) (hend : ∀ c, c.isInside = true → r.allows c = false) :
    ∃ p, r.outcome key seed = .ok p ∧ p.Lawful rounds.toNat (Event.times .announced es) ∧
      (p.agent.interrupted = false → p.Complete rounds.toNat) ∧
      (r.stop.requested = false → p.agent.interrupted = false) := by
  have h₀ := balanced_start seed rounds.toNat delay ({ inner := log } : Observer L)
  have hw₀ := watched_start seed rounds.toNat delay ({ inner := log } : Observer L)
  have hb := h₀.of_start h
  have hr := (faultless_start seed _ delay ({ inner := log } : Observer L)).of_start h₀ hw₀
    rounds.toNat_lt_size h hfault
  have ho : Counts es r.factory.log := Counts.reaches ⟨rfl, rfl⟩ h hfault
  have hh : Heard r := (heard_start ..).reaches h
  have hf : r.finished = true := hb.finished_of_stuck (hw₀.of_start h₀ h) (stuck_of_allows hend)
  obtain ⟨p, hp, hagent, hlaw⟩ := hr.outcome_lawful hb hh ho hf key seed
  refine ⟨p, hp, hlaw, hlaw.complete ?_, fun hs => ?_⟩
  · simpa only [hagent, hr.supplied] using hb.supplies_le_rounds
  · have hheeded := (hr.heeded .gone (hr.gone_of_finished hf).1).2
    rw [hagent]
    by_contra hi
    simp [hheeded (by simpa using hi)] at hs

/-- The agent lays out, and a stop is requested before anybody has come for it. -/
def abandonment : List Choice :=
  List.replicate 2 (.act .agent false) ++ [.requestStop, .act .agent true] ++
    List.replicate 4 (.act .agent false) ++
    Ingredient.all.flatMap (fun k => List.replicate 3 (.act (.smoker k) false)) ++
    List.replicate 4 .supervise

def abandoned : List Event × Run (Observer Recorder) := follow abandonment (drawn { inner := {} })

theorem report_law_abandoned : supplies abandoned.1 .paper = 1 ∧ servings abandoned.1 .paper = 0 ∧
    ∃ p, abandoned.2.outcome default 1 = .ok p ∧ p.Lawful 1 (Event.times .announced abandoned.1) := by
  have hl : (start 1 (1 : UInt64).toNat {} { inner := ({} : Recorder) }).Reaches abandoned.1
      abandoned.2 := reaches_drawn _ abandonment
  obtain ⟨hf, hfault, hsup, hserv⟩ : abandoned.2.finished = true ∧ Event.fault ∉ abandoned.1 ∧
      supplies abandoned.1 .paper = 1 ∧ servings abandoned.1 .paper = 0 := by decide +kernel
  obtain ⟨p, hp, hlaw, -⟩ :=
    report_law default 1 1 {} _ hl hfault fun _ => not_allows_of_finished hf
  exact ⟨hsup, hserv, p, hp, hlaw⟩

end Run

end CigaretteSmokers
