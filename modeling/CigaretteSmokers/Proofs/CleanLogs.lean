import CigaretteSmokers.Proofs.Observing
import CigaretteSmokers.Proofs.Verdicts

/-!
What a log without violations shows as a whole. The checkers compare neighbours; from any table of
such a log to any later one nothing is undone, cigarettes are added only by smoking, and counts drop
only as smokers take their needs.
-/

namespace CigaretteSmokers

open StateLog (saveAll)

namespace Table

variable {ts : List Table} {i j : Nat} {u t : Table}

/-- The steps from the table at position `i` to the one at position `j`. -/
def stepsBetween (ts : List Table) (i j : Nat) : List (Table × Table) :=
  (ts.extract i j).zip (ts.extract (i + 1) (j + 1))

theorem extract_self : ts.extract i i = [] := by
  rw [List.extract_eq_take_drop, Nat.sub_self, List.take_zero]

theorem extract_succ (hij : i ≤ j) (hu : ts[j]? = some u) :
    ts.extract i (j + 1) = ts.extract i j ++ [u] := by
  rw [List.extract_eq_take_drop, Nat.succ_sub hij, List.take_add_one, List.getElem?_drop,
    Nat.add_sub_cancel' hij, hu]
  rfl

theorem stepsBetween_self : stepsBetween ts i i = [] := by
  rw [stepsBetween, extract_self, List.zip_nil_left]

theorem stepsBetween_succ (hij : i ≤ j) (hu : ts[j]? = some u) (ht : ts[j + 1]? = some t) :
    stepsBetween ts i (j + 1) = stepsBetween ts i j ++ [(u, t)] := by
  have hj : j + 1 < ts.length := (List.getElem?_eq_some_iff.1 ht).1
  have hlength : (ts.extract i j).length = (ts.extract (i + 1) (j + 1)).length := by
    simp only [List.extract_eq_take_drop, List.length_take, List.length_drop]
    omega
  rw [stepsBetween, extract_succ hij hu, extract_succ (Nat.succ_le_succ hij) ht,
    List.zip_append hlength]
  rfl

theorem mem_steps {past : Option Table} (hu : ts[j]? = some u) (ht : ts[j + 1]? = some t) :
    (some u, t) ∈ steps past ts := by
  apply List.mem_of_getElem? (i := j + 1)
  rw [steps, List.getElem?_zip_eq_some]
  exact ⟨by simp [hu], ht⟩

/-- Every table is stepped to. -/
theorem exists_mem_steps (past : Option Table) (ht : t ∈ ts) : ∃ p, (p, t) ∈ steps past ts := by
  induction ts generalizing past with
  | nil => simp at ht
  | cons v ts ih =>
      rw [List.mem_cons] at ht
      rcases ht with rfl | ht
      · exact ⟨past, by simp⟩
      · obtain ⟨p, hp⟩ := ih (some v) ht
        exact ⟨p, by simp [hp]⟩

end Table

namespace Observer

variable {L : Type} [StateLog L]

omit [StateLog L] in
theorem calm_of_inspect {past : Option Table} {now : Table} {n : UInt64} {checkers : List Checker}
    {found : List Violation} (h : inspect past now n checkers = .ok found) :
    ∀ c ∈ checkers, c.Calm (past, now) := by
  induction checkers generalizing found with
  | nil => simp
  | cons c checkers ih =>
      rw [inspect] at h
      cases hc : c.check past now with
      | error crash => simp [hc] at h
      | ok finding =>
          cases hrest : inspect past now n checkers with
          | error crash => simp [hc, hrest] at h
          | ok others =>
              intro d hd
              rw [List.mem_cons] at hd
              rcases hd with rfl | hd
              · exact ⟨finding, hc⟩
              · exact ih hrest d hd

/-- An observer that is not poisoned has met no crash, and its count has had room. -/
theorem calm_of_not_poisoned {saves : List (Nat × Table)} {o : Observer L}
    (h : (saveAll saves o).2.poisoned = false) : o.poisoned = false ∧
      (∀ s ∈ Table.steps o.previous (saves.map Prod.snd), ∀ c ∈ o.checkers, c.Calm s) ∧
      o.seen.toNat + saves.length < UInt64.size := by
  induction saves generalizing o with
  | nil => exact ⟨h, by simp [Table.steps], o.seen.toNat_lt_size⟩
  | cons s saves ih =>
      have hp : o.poisoned = false := by
        by_contra hp
        rw [saveAll_poisoned (by simpa using hp)] at h
        exact hp h
      cases hinspect : inspect o.previous s.2 o.seen o.checkers with
      | error crash =>
          -- this save poisons the observer, and the later ones leave it so
          have hsave : StateLog.save s.1 s.2 o =
              (.error (.crashed crash), { o with poisoned := true }) := by
            change o.save s.1 s.2 = _
            simp only [save, hp, hinspect, Bool.false_eq_true, if_false]
          rw [saveAll, hsave, saveAll_poisoned rfl] at h
          cases h
      | ok found =>
          have hcalm := calm_of_inspect hinspect
          have hroom : o.seen.toNat + 1 < UInt64.size := by
            by_contra hfull
            have := o.seen.toNat_lt_size
            obtain ⟨o', hsave, hp', -⟩ := save_overflow s.1 hp hcalm (by omega)
            rw [saveAll, hsave, saveAll_poisoned hp', hp'] at h
            cases h
          rw [saveAll, save_calm hp hcalm hroom] at h
          obtain ⟨-, hrest, hn⟩ := ih h
          refine ⟨hp, fun s' hs => ?_, ?_⟩
          · rw [List.map_cons, Table.steps_cons, List.mem_cons] at hs
            rcases hs with rfl | hs
            · exact hcalm
            · exact hrest s' hs
          · rw [seen_after hroom, List.length_singleton] at hn
            rw [List.length_cons]
            omega

/-- The steps of a log are lawful if its observer, which is not poisoned, has found nothing. -/
theorem passes_of_clean {saves : List (Nat × Table)} {log : L}
    (hp : (saveAll saves ({ inner := log } : Observer L)).2.poisoned = false)
    (hclean : (saveAll saves ({ inner := log } : Observer L)).2.violations = []) :
    ∀ s ∈ Table.steps none (saves.map Prod.snd), Law.Passes s.1 s.2 := by
  obtain ⟨-, hcalm, hn⟩ := calm_of_not_poisoned hp
  rw [saveAll_calm rfl hcalm hn] at hclean
  have hfindings : findings (Law.all.map Law.checker) none 0 (saves.map Prod.snd) = [] := hclean
  intro s hs law
  have hlaw : law.checker ∈ Law.all.map Law.checker := by
    cases law <;> simp [Law.all]
  obtain ⟨found, hfound⟩ := hcalm s hs law.checker hlaw
  obtain ⟨i, hi⟩ := List.mem_iff_getElem?.1 hs
  have hstep := List.flatMap_eq_nil_iff.1 hfindings (s, i) (List.mk_mem_zipIdx_iff_getElem?.2 hi)
  have hnone : law.checker.finding s = none := by
    simpa using List.filterMap_eq_nil_iff.1 hstep law.checker hlaw
  have hfinding : law.checker.finding s = found := by
    simp [Checker.finding, hfound, Except.toOption]
  rw [← hfinding, hnone] at hfound
  exact Law.checker_eq_none.1 hfound

end Observer

namespace Law

/-- A count drops, and `k` holds the one kind that stays as it is. -/
def Consumes (k : Ingredient) (step : Table × Table) : Prop :=
  (∃ q, change step.1 step.2 q < 0) ∧ ∀ q, change step.1 step.2 q = 0 ↔ q = k

def Drops (q : Ingredient) (step : Table × Table) : Prop := change step.1 step.2 q < 0

instance (k : Ingredient) (step : Table × Table) : Decidable (Consumes k step) :=
  inferInstanceAs (Decidable (_ ∧ _))

instance (q : Ingredient) (step : Table × Table) : Decidable (Drops q step) :=
  inferInstanceAs (Decidable (_ < _))

section

variable {past now : Table} {k j q : Ingredient}

theorem Takes.drops_iff (h : Takes past now k) : Drops q (past, now) ↔ q ≠ k := by
  obtain ⟨hself, hothers, -⟩ := h
  constructor
  · rintro hq rfl
    simp only [Drops] at hq
    omega
  · intro hq
    have := hothers q hq
    simp only [Drops]
    omega

theorem Takes.consumes_iff (h : Takes past now k) : Consumes j (past, now) ↔ j = k := by
  constructor
  · rintro ⟨-, hj⟩
    exact ((hj k).1 h.1).symm
  · rintro rfl
    exact ⟨⟨j.needs.1, h.drops_iff.2 j.needs_ne.1⟩, h.change_eq_zero⟩

/-- In a step that keeps the counts paired, a kind drops when a smoker that lacks it consumes. -/
theorem Paired.drops_eq (h : Paired past now) (q : Ingredient) :
    (if Drops q (past, now) then 1 else 0) =
      ∑ k with k ≠ q, if Consumes k (past, now) then 1 else 0 := by
  rcases h with hn | ⟨k, hk⟩
  · have hdrops : ¬ ∃ q, change past now q < 0 := by
      simpa using hn
    have hq : ¬ Drops q (past, now) := fun hq => hdrops ⟨q, hq⟩
    have hconsumes : ∀ k, ¬ Consumes k (past, now) := fun k hk => hdrops hk.1
    simp [hq, hconsumes]
  · simp only [hk.drops_iff, hk.consumes_iff]
    simp [eq_comm]

theorem Paired.change_of_drops (h : Paired past now) (hq : Drops q (past, now)) :
    change past now q = -1 := by
  rcases h with hn | ⟨k, hk⟩
  · have := hn q
    simp only [Drops] at hq
    omega
  · exact hk.2.1 q (hk.drops_iff.1 hq)

/-- What each law makes of a step that keeps it. -/
theorem Passes.unfold (h : Passes (some past) now) : now.NonNegative ∧
    (∀ k, ¬ Miscounts past now k) ∧ (past.closing = true → now.closing = true) ∧
    (∀ k, ¬ Returns past now k) ∧ Paired past now := by
  have hnegative := h .nonNegativeIngredients
  have hcounts := h .monotonicCigarettes
  have hclosing := h .closingIsTerminal
  simp only [check, Except.ok.injEq, negative?_eq_none, miscounted?_eq_ok_none,
    reopened?_eq_none] at hnegative hcounts hclosing
  exact ⟨hnegative, hcounts, hclosing.1, hclosing.2,
    (check_paired_eq_none.1 (h .pairedConsumption)).2⟩

end

end Law

/-- How a log goes on lawfully from the table `s` at position `i` to the table `t` at position `j`. -/
structure Table.Continues (ts : List Table) (i j : Nat) (s t : Table) : Prop where
  closing : s.closing = true → t.closing = true
  left : ∀ k, s.smokers.get k = .closing → t.smokers.get k = .closing
  counted : ∀ k, (s.cigarettes.get k).toNat ≤ (t.cigarettes.get k).toNat
  smoked : ∀ k, (t.cigarettes.get k).toNat - (s.cigarettes.get k).toNat ≤
    (ts.extract i j).countP (·.smokers.get k = .smoking)
  consumed : ∀ q, (stepsBetween ts i j).countP (Law.Drops q) =
    ∑ k with k ≠ q, (stepsBetween ts i j).countP (Law.Consumes k)
  byOne : ∀ q, ∀ step ∈ stepsBetween ts i j, Law.Drops q step → Law.change step.1 step.2 q = -1

namespace Table.Continues

variable {ts : List Table} {i j : Nat} {s u t : Table}

theorem refl : Continues ts i i s s where
  closing h := h
  left _ h := h
  counted _ := Nat.le_refl _
  smoked k := by
    rw [Nat.sub_self]
    exact Nat.zero_le _
  consumed q := by
    simp [stepsBetween_self]
  byOne q step h := by
    simp [stepsBetween_self] at h

/-- A lawful step goes on from what has been lawful so far. -/
theorem step (h : Continues ts i j s u) (hij : i ≤ j) (hu : ts[j]? = some u)
    (ht : ts[j + 1]? = some t) (hstep : Law.Passes (some u) t) : Continues ts i (j + 1) s t := by
  obtain ⟨-, hcounts, hclosing, hleft, hpaired⟩ := hstep.unfold
  have hsteps := stepsBetween_succ hij hu ht
  have hcount : ∀ k, (u.cigarettes.get k).toNat ≤ (t.cigarettes.get k).toNat ∧
      (t.cigarettes.get k).toNat ≤ (u.cigarettes.get k).toNat +
        if u.smokers.get k = .smoking then 1 else 0 := by
    intro k
    have := hcounts k
    simp only [Law.Miscounts] at this
    split <;> grind
  refine ⟨fun hs => hclosing (h.closing hs), fun k hk => ?_, fun k => ?_, fun k => ?_, fun q => ?_,
    fun q step hmem hq => ?_⟩
  · by_contra hne
    exact hleft k ⟨h.left k hk, hne⟩
  · exact (h.counted k).trans (hcount k).1
  · -- the last step adds one at most, and then `u` is a table that shows the smoker smoking
    have hsmoked := h.smoked k
    have hlast := (hcount k).2
    rw [extract_succ hij hu, List.countP_append, List.countP_singleton]
    simp only [decide_eq_true_eq]
    omega
  · simp only [hsteps, List.countP_append, List.countP_singleton, decide_eq_true_eq,
      Finset.sum_add_distrib, h.consumed q, hpaired.drops_eq q]
  · rw [hsteps, List.mem_append, List.mem_singleton] at hmem
    rcases hmem with hmem | rfl
    · exact h.byOne q step hmem hq
    · exact hpaired.change_of_drops hq

end Table.Continues

/-- A log in which the observer has found nothing obeys the laws as a whole: no count is ever below
zero, and from each table the log goes on lawfully to every later one. -/
theorem Observer.clean_log_lawful {L : Type} [StateLog L] {log : L} {saves : List (Nat × Table)}
    (hp : (saveAll saves ({ inner := log } : Observer L)).2.poisoned = false)
    (hclean : (saveAll saves ({ inner := log } : Observer L)).2.violations = []) :
    (∀ t ∈ saves.map Prod.snd, t.NonNegative) ∧
    ∀ i j s t, i ≤ j → (saves.map Prod.snd)[i]? = some s → (saves.map Prod.snd)[j]? = some t →
      Table.Continues (saves.map Prod.snd) i j s t := by
  have hpasses := passes_of_clean hp hclean
  constructor
  · intro t ht
    obtain ⟨p, hstep⟩ := Table.exists_mem_steps none ht
    have hnegative := hpasses _ hstep .nonNegativeIngredients
    simpa only [Law.check, Except.ok.injEq, Law.negative?_eq_none] using hnegative
  · intro i j s t hij hs ht
    induction j, hij using Nat.le_induction generalizing t with
    | base =>
        obtain rfl : s = t := Option.some.inj (hs.symm.trans ht)
        exact .refl
    | succ j hij ih =>
        have hj : j < (saves.map Prod.snd).length := by
          have := (List.getElem?_eq_some_iff.1 ht).1
          omega
        have hu := List.getElem?_eq_getElem hj
        exact (ih _ hu).step hij hu ht (hpasses _ (Table.mem_steps hu ht))

/-- A smoker takes what has been laid out, rolls, smokes and finishes its cigarette, and leaves. -/
def Table.oneCigarette : List Table :=
  let laidOut : Table := { ingredients := ⟨0, 1, 1⟩ }
  let smoking : Table := { smokers := ⟨.smoking, .waiting, .waiting⟩ }
  let finished : Table := { smoking with cigarettes := ⟨1, 0, 0⟩, closing := true }
  [.initial, laidOut, .initial, { smokers := ⟨.rolling, .waiting, .waiting⟩ }, smoking, finished,
    { finished with smokers := ⟨.closing, .waiting, .waiting⟩ }]

theorem Observer.clean_log_lawful_oneCigarette :
    let saves := Table.oneCigarette.map fun t => (0, t)
    let observed := (saveAll saves ({ inner := {} } : Observer Recorder)).2
    observed.poisoned = false ∧ observed.violations = [] ∧
      (Table.stepsBetween (saves.map Prod.snd) 1 5).countP (Law.Drops .paper) = 1 ∧
      (Table.stepsBetween (saves.map Prod.snd) 1 5).countP (Law.Consumes .tobacco) = 1 ∧
      ∀ s t, (saves.map Prod.snd)[1]? = some s → (saves.map Prod.snd)[5]? = some t →
        Table.Continues (saves.map Prod.snd) 1 5 s t := by
  intro saves observed
  have hp : observed.poisoned = false := by decide +kernel
  have hclean : observed.violations = [] := by decide +kernel
  obtain ⟨-, hcontinues⟩ := clean_log_lawful hp hclean
  exact ⟨hp, hclean, by decide +kernel, by decide +kernel,
    fun s t hs ht => hcontinues 1 5 s t (by decide) hs ht⟩

end CigaretteSmokers
