import CigaretteSmokers.Call
import CigaretteSmokers.Log.Recorder
import CigaretteSmokers.Proofs.Deeds

/-!
What becomes of a wake-up, whatever the smoker finds at the table: also what no run can lay there.
-/

namespace CigaretteSmokers

theorem Ingredient.needs_index_lt (k : Ingredient) : k.needs.1.index < k.needs.2.index := by
  cases k <;> decide

/-- How the smoker that holds `k` leaves the table `t` when it has been woken, and what it is told.
Only what it does not hold itself counts. -/
structure Table.Collects (k : Ingredient) (t : Table) (answer : Except ActorError Bool)
    (t' : Table) : Prop where
  closing : t.closing = true →
    answer = .ok false ∧ t' = { t with smokers := t.smokers.set k .closing }
  served : t.closing = false → (∀ j, j ≠ k → 1 ≤ (t.ingredients.get j).toInt) →
    answer = .ok true ∧ t' = { t with ingredients := t'.ingredients } ∧
      ∀ j, (t'.ingredients.get j).toInt = (t.ingredients.get j).toInt - if j = k then 0 else 1
  lacking : t.closing = false → ∀ i, i ≠ k → (t.ingredients.get i).toInt < 1 →
    (∀ j, j ≠ k → (t.ingredients.get j).toInt < 1 → i.index ≤ j.index) →
    answer = .error (.missingIngredient k.index i) ∧ t' = t

namespace Table.Action

def Visit.answer (k : Ingredient) : Visit → Except ActorError Bool
  | .closed => .ok false
  | .served => .ok true
  | .lacking i => .error (.missingIngredient k.index i)

/-- The need that a smoker is told of is the first of those that it misses. -/
theorem lowest_of_visit {k i : Ingredient} {t t' : Table} (h : visit k t = .ok (.lacking i) t')
    {j : Ingredient} (hj : j ≠ k) (hlt : (t.ingredients.get j).toInt < 1) : i.index ≤ j.index := by
  obtain ⟨_, t₀, h₀, h⟩ := bind_ok h
  cases h₀
  have hneeds : j = k.needs.1 ∨ j = k.needs.2 := (j.eq_or_mem_needs k).resolve_left hj
  split at h
  · cases h
  · split at h
    · cases h
      rcases hneeds with rfl | rfl
      · exact Nat.le_refl _
      · exact k.needs_index_lt.le
    · rename_i hfirst
      split at h
      · cases h
        rcases hneeds with rfl | rfl
        · exact absurd hlt hfirst
        · exact Nat.le_refl _
      · obtain ⟨_, _, _, h⟩ := bind_ok h
        obtain ⟨_, _, _, h⟩ := bind_ok h
        cases h

/-- A visit never crashes: a unit is taken only where there is one. -/
theorem visit_collects (k : Ingredient) (t : Table) :
    ∃ v t', visit k t = .ok v t' ∧ t.Collects k (v.answer k) t' := by
  obtain ⟨v, t', hv⟩ := visit_total k t
  refine ⟨v, t', hv, ?_⟩
  rcases visit_ok hv with ⟨rfl, hc, rfl⟩ | ⟨i, rfl, hc, hi, hlt, rfl⟩ | ⟨rfl, hc, hle, hj, ht⟩
  · exact ⟨fun _ => ⟨rfl, rfl⟩, by simp [hc], by simp [hc]⟩
  · refine ⟨by simp [hc], fun _ hle => ?_, fun _ j hj hlt' hlow => ?_⟩
    · have := hle i hi
      omega
    · have hij : i.index ≤ j.index := lowest_of_visit hv hj hlt'
      obtain rfl : i = j := Ingredient.index_inj.1 (Nat.le_antisymm hij (hlow i hi hlt))
      exact ⟨rfl, rfl⟩
  · refine ⟨by simp [hc], fun _ _ => ⟨rfl, ht, fun j => ?_⟩, fun _ i hi hlt _ => ?_⟩
    · rw [hj j]
      split <;> omega
    · have := hle i hi
      omega

end Table.Action

/-- Leaves `t` on the table and records it; the answer stands if the log accepts the table. -/
def Factory.settle {ω L α : Type} [StateLog L] (t : Table) (answer : Except ActorError α)
    (f : Factory ω L) : Except Failure α × Factory ω L :=
  match StateLog.save f.clock t f.log with
  | (.ok (), log) => (answer.mapError .error, { f with table := t, log })
  | (.error (.refused e), log) => (.error (.error (.stateLog e)), { f with table := t, log })
  | (.error (.crashed c), log) => (.error (.crash c), { f with table := t, log, poisoned := true })

namespace Smoker

variable {ω L : Type} [DecidableEq ω] [StateLog L]

theorem perform_collecting {w : ω} {s : Smoker} {f : Factory ω L} {v : Table.Action.Visit} {t : Table}
    (hp : f.poisoned = false) (hv : Table.Action.visit s.holds f.table = .ok v t) :
    s.perform w .collecting f =
      ((f.settle t (v.answer s.holds)).1.map fun served => if served then .starting else .gone, s,
        (f.settle t (v.answer s.holds)).2) := by
  rcases hs : StateLog.save f.clock t f.log with ⟨⟨e⟩ | ⟨⟨⟩⟩, log⟩
  · cases e with
    | refused | crashed =>
        simp [perform, Factory.critical, Factory.settle, hp, hv, hs, Except.map]
  · cases v with
    | closed | served | lacking =>
        simp [perform, Factory.critical, Factory.settle, hp, hv, hs, Table.Action.Visit.answer,
          Except.map, Except.mapError]

/-- A wait that is let through goes to the table at once, and ends there. -/
theorem poll_awaiting {w : ω} {s : Smoker} {f : Factory ω L} {q : Semaphore ω}
    {v : Table.Action.Visit} {t : Table} (hp : f.poisoned = false)
    (hv : Table.Action.visit s.holds f.table = .ok v t)
    (hq : (f.ready.get s.holds).poll w = (.passed, q)) :
    let called : Factory ω L := { f with ready := f.ready.set s.holds q }
    s.poll w .wait .awaiting none f =
      (.ended ((called.settle t (v.answer s.holds)).1.map .waited), s,
        (called.settle t (v.answer s.holds)).2) := by
  intro called
  have hawait : s.perform w .awaiting f = (.ok .collecting, s, called) := by
    simp [perform, Factory.awaitIngredients, hq, Except.map, called]
  have hcollect := perform_collecting (w := w) (f := called) hp hv
  have hfuel : ∀ n, 10 * (n + 2) = 10 * n + 18 + 1 + 1 := fun n => by omega
  simp only [poll, hfuel, advance, hawait, hcollect, Stage.work?, Call.answer?]
  rcases (called.settle t (v.answer s.holds)).1 with e | served
  · simp [Except.map]
  · cases served <;> simp [Except.map]

/-- A smoker that has been woken leaves if the factory is closing, takes one unit of each of its needs
if both are there, and else takes nothing and is told the first need that it misses; in each case the
table that it leaves is recorded, once. It makes no difference which table it is, nor whether the
smoker has just been let through or has been held up on its way from the semaphore. -/
theorem wake_up_outcome (w : ω) (s : Smoker) (f : Factory ω L) (hp : f.poisoned = false) :
    ∃ answer t, f.table.Collects s.holds answer t ∧
      s.perform w .collecting f =
        ((f.settle t answer).1.map fun served => if served then .starting else .gone, s,
          (f.settle t answer).2) ∧
      ∀ q, (f.ready.get s.holds).poll w = (.passed, q) →
        let called : Factory ω L := { f with ready := f.ready.set s.holds q }
        s.poll w .wait .awaiting none f =
          (.ended ((called.settle t answer).1.map .waited), s, (called.settle t answer).2) := by
  obtain ⟨v, t, hv, hcol⟩ := Table.Action.visit_collects s.holds f.table
  exact ⟨v.answer s.holds, t, hcol, perform_collecting hp hv, fun q hq => poll_awaiting hp hv hq⟩

/-- Of two needs that are missing, one of them by as much as can be counted, the lower is told. -/
theorem wake_up_outcome_overdrawn :
    let s : Smoker := { holds := .paper, generator := .ofSeed 1, delay := {} }
    let t : Table := { ingredients := ⟨Int64.minValue, 5, 0⟩ }
    let f : Factory Nat Recorder := { table := t, ready := .replicate { banked := 1 }, log := {} }
    f.poisoned = false ∧
      (s.poll 0 .wait .awaiting none f).1 =
        .ended (.error (.error (.missingIngredient 1 .tobacco))) ∧
      (s.poll 0 .wait .awaiting none f).2.2.log.tables = [t] := by
  intro s t f
  obtain ⟨answer, t', hcol, -, hpoll⟩ := wake_up_outcome 0 s f rfl
  obtain ⟨rfl, rfl⟩ := hcol.lacking rfl .tobacco (by decide) (by decide) (by decide)
  rw [hpoll {} rfl]
  exact ⟨rfl, rfl, rfl⟩

end Smoker

end CigaretteSmokers
