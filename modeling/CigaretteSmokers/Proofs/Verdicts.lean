import CigaretteSmokers.Law.Observer
import CigaretteSmokers.Proofs.IngredientSums
import CigaretteSmokers.Proofs.LawfulDeeds

/-!
What the laws decide of a step from one table to the next: which steps break them, which kind or
smoker is named then, and over which steps a checker crashes.
-/

namespace CigaretteSmokers

namespace Ingredient

/-- The first one of which `p` holds. -/
def IsFirst (p : Ingredient → Prop) (k : Ingredient) : Prop := p k ∧ ∀ j, p j → k.index ≤ j.index

theorem IsFirst.congr {p q : Ingredient → Prop} {k : Ingredient} (h : IsFirst p k)
    (hpq : ∀ j, p j ↔ q j) : IsFirst q k :=
  ⟨(hpq k).1 h.1, fun j hj => h.2 j ((hpq j).2 hj)⟩

theorem forall_iff {p : Ingredient → Prop} :
    (∀ i, p i) ↔ p .tobacco ∧ p .paper ∧ p .matchstick := by
  constructor
  · intro h
    exact ⟨h _, h _, h _⟩
  · rintro ⟨ht, hp, hm⟩ i
    cases i <;> assumption

theorem filter_all_eq_singleton {p : Ingredient → Bool} {k : Ingredient} :
    all.filter p = [k] ↔ ∀ i, p i = true ↔ i = k := by
  constructor
  · intro h i
    have hi : i ∈ all.filter p ↔ p i = true := by simp [i.mem_all]
    rw [← hi, h, List.mem_singleton]
  · intro h
    have hp : p = fun i => decide (i = k) := by
      funext i
      exact Bool.eq_iff_iff.2 ((h i).trans decide_eq_true_iff.symm)
    rw [hp]
    cases k <;> rfl

variable {α : Type} {f : Ingredient → Option α}

/-- A search ends at the first kind where there is something to find. -/
theorem isFirst_of_findSome? {a : α} (h : all.findSome? f = some a) :
    ∃ k, f k = some a ∧ IsFirst (fun j => f j ≠ none) k := by
  obtain ⟨before, k, after, hall, hk, hnone⟩ := List.findSome?_eq_some_iff.1 h
  have hsorted : all.Pairwise (fun i j => i.index < j.index) := by decide
  rw [hall, List.pairwise_append, List.pairwise_cons] at hsorted
  refine ⟨k, hk, by simp [hk], fun j hj => ?_⟩
  have hplace : j ∈ before ∨ j = k ∨ j ∈ after := by simpa [hall] using j.mem_all
  rcases hplace with hbefore | rfl | hafter
  · exact absurd (hnone j hbefore) hj
  · exact Nat.le_refl _
  · exact (hsorted.2.1.1 j hafter).le

theorem findSome?_all_eq_none : all.findSome? f = none ↔ ∀ k, f k = none :=
  List.findSome?_eq_none_iff.trans ⟨fun h k => h k k.mem_all, fun h k _ => h k⟩

end Ingredient

theorem Trio.countP_eq_two {α : Type} {t : Trio α} {p : α → Bool} {k : Ingredient}
    (hk : p (t.get k) = false) : t.toList.countP p = 2 ↔ ∀ i, i ≠ k → p (t.get i) = true := by
  rw [Ingredient.forall_iff, Trio.toList]
  simp only [List.countP_cons, List.countP_nil]
  cases k <;> simp only [Trio.get] at hk ⊢ <;> simp only [hk] <;> grind

theorem Checked.signed_eq_none {n : Int} : signed n = none ↔ ¬ (-2 ^ 63 ≤ n ∧ n < 2 ^ 63) := by
  have hlo : Int64.minValue.toInt = -9223372036854775808 := rfl
  have hhi : Int64.maxValue.toInt = 9223372036854775807 := rfl
  unfold signed
  split <;> simp <;> omega

theorem Breach.message_of_miscount {b : Breach} {k : Ingredient}
    (h : (∃ before after, b = .countFell k before after) ∨
      (∃ before after, b = .countJumped k before after) ∨ ∃ status, b = .finishedWhile k status) :
    ∃ rest, b.message = s!"smoker {k.index}" ++ rest := by
  rcases h with ⟨before, after, rfl⟩ | ⟨before, after, rfl⟩ | ⟨status, rfl⟩
  all_goals
    unfold message
    simp only [String.append_assoc]
    exact ⟨_, rfl⟩

namespace Law

variable {past now : Table}

/-- How a count changes from one table to the next. -/
def change (past now : Table) (i : Ingredient) : Int :=
  (now.ingredients.get i).toInt - (past.ingredients.get i).toInt

/-- No number changes by more than 64 bits can tell. -/
def Tellable (past now : Table) : Prop := ∀ i, -2 ^ 63 ≤ change past now i ∧ change past now i < 2 ^ 63

/-- The cigarettes of a smoker change in another way than by one that it has been smoking. -/
def Miscounts (past now : Table) (k : Ingredient) : Prop :=
  (now.cigarettes.get k).toNat ≠ (past.cigarettes.get k).toNat ∧
    ¬ ((now.cigarettes.get k).toNat = (past.cigarettes.get k).toNat + 1 ∧
      past.smokers.get k = .smoking)

/-- A smoker is back that had left. -/
def Returns (past now : Table) (k : Ingredient) : Prop :=
  past.smokers.get k = .closing ∧ now.smokers.get k ≠ .closing

/-- One unit of each kind but `k` is gone, and the smoker that holds `k` is waiting. -/
def Takes (past now : Table) (k : Ingredient) : Prop :=
  change past now k = 0 ∧ (∀ i, i ≠ k → change past now i = -1) ∧ now.smokers.get k = .waiting

/-- No count drops, or those that do drop as one smoker takes its needs. -/
def Paired (past now : Table) : Prop :=
  (∀ i, 0 ≤ change past now i) ∨ ∃ k, Takes past now k

theorem Takes.change_eq_zero {k : Ingredient} (h : Takes past now k) (i : Ingredient) :
    change past now i = 0 ↔ i = k := by
  constructor
  · intro hi
    by_contra hne
    have := h.2.1 i hne
    omega
  · rintro rfl
    exact h.1

/-- Where some count drops and only that of `k` stays, `k` alone can have been served. -/
theorem paired_iff_takes {k : Ingredient} (hdrops : ¬ ∀ i, 0 ≤ change past now i)
    (hk : ∀ i, change past now i = 0 ↔ i = k) : Paired past now ↔ Takes past now k := by
  constructor
  · rintro (hn | ⟨j, hj⟩)
    · exact absurd hn hdrops
    · obtain rfl : j = k := (hk j).1 hj.1
      exact hj
  · exact fun hk => .inr ⟨k, hk⟩

theorem negative?_eq_none : negative? now = none ↔ now.NonNegative := by
  rw [negative?, Ingredient.findSome?_all_eq_none]
  simp [Table.NonNegative]

theorem isFirst_of_negative? {b : Breach} (h : negative? now = some b) :
    ∃ k, Ingredient.IsFirst (fun i => (now.ingredients.get i).toInt < 0) k ∧
      b = .negativeCount k (now.ingredients.get k) := by
  obtain ⟨k, hk, hfirst⟩ := Ingredient.isFirst_of_findSome? h
  refine ⟨k, by simpa using hfirst, ?_⟩
  simp only at hk
  split at hk <;> cases hk
  rfl

theorem miscounted?_eq_ok_none : miscounted? past now = .ok none ↔ ∀ k, ¬ Miscounts past now k := by
  rw [miscounted?_eq, Except.ok.injEq, Ingredient.findSome?_all_eq_none]
  refine forall_congr' fun k => ?_
  simp only [Miscounts, miscountOf]
  grind

theorem reopened?_eq_none : reopened? past now = none ↔
    (past.closing = true → now.closing = true) ∧ ∀ k, ¬ Returns past now k := by
  unfold reopened?
  split
  · rename_i h
    simp [h.1, h.2]
  · rename_i h
    rw [Ingredient.findSome?_all_eq_none]
    simp only [Returns]
    grind

theorem isFirst_of_miscounted? {b : Breach} (h : miscounted? past now = .ok (some b)) :
    ∃ (k : Ingredient) (rest : String), Ingredient.IsFirst (Miscounts past now) k ∧
      b.message = s!"smoker {k.index}" ++ rest := by
  rw [miscounted?_eq, Except.ok.injEq] at h
  obtain ⟨k, hk, hfirst⟩ := Ingredient.isFirst_of_findSome? h
  have hmiscounts : Ingredient.IsFirst (Miscounts past now) k := by
    refine hfirst.congr fun j => ?_
    simp only [Miscounts, miscountOf]
    grind
  have hmessage : ∃ rest, b.message = s!"smoker {k.index}" ++ rest := by
    apply Breach.message_of_miscount
    simp only [miscountOf] at hk
    grind
  obtain ⟨rest, hrest⟩ := hmessage
  exact ⟨k, rest, hmiscounts, hrest⟩

theorem get_of_deltas? {d : Trio Int64} (h : deltas? past now = some d) (i : Ingredient) :
    (d.get i).toInt = change past now i := by
  simp only [deltas?, Option.bind_eq_bind, Option.bind_eq_some_iff, Option.pure_def,
    Option.some.injEq] at h
  obtain ⟨t, ht, p, hp, m, hm, rfl⟩ := h
  cases i with
  | tobacco => exact Checked.toInt_of_signed ht
  | paper => exact Checked.toInt_of_signed hp
  | matchstick => exact Checked.toInt_of_signed hm

theorem deltas?_eq_none : deltas? past now = none ↔ ¬ Tellable past now := by
  constructor
  · intro h htellable
    have hfits : ∀ i, ∃ n, Checked.signed (change past now i) = some n := fun i =>
      Option.ne_none_iff_exists'.1 fun hnone => Checked.signed_eq_none.1 hnone (htellable i)
    obtain ⟨t, ht⟩ := hfits .tobacco
    obtain ⟨p, hp⟩ := hfits .paper
    obtain ⟨m, hm⟩ := hfits .matchstick
    simp only [change] at ht hp hm
    simp [deltas?, ht, hp, hm] at h
  · intro h
    cases hd : deltas? past now with
    | none => rfl
    | some d =>
        -- a difference that has been computed is a number of 64 bits
        refine absurd (fun i => ?_) h
        have hlo : -2 ^ 63 ≤ (d.get i).toInt := Int64.le_toInt _
        have hhi : (d.get i).toInt < 2 ^ 63 := Int64.toInt_lt _
        rw [← get_of_deltas? hd i]
        exact ⟨hlo, hhi⟩

theorem unpaired?_eq_none {d : Trio Int64} (hd : ∀ i, (d.get i).toInt = change past now i) :
    unpaired? d now = none ↔ Paired past now := by
  have hall : d.toList.all (0 ≤ ·.toInt) = true ↔ ∀ i, 0 ≤ change past now i := by
    rw [Ingredient.forall_iff, ← hd, ← hd, ← hd]
    simp [Trio.toList, Trio.get]
  have hzero : ∀ i, decide (d.get i = 0) = true ↔ change past now i = 0 := fun i => by
    rw [← hd, decide_eq_true_iff, ← Int64.toInt_inj]
    rfl
  unfold unpaired?
  split
  · rename_i h
    exact iff_of_true rfl (.inl (hall.1 h))
  · rename_i h
    have hdrops : ¬ ∀ i, 0 ≤ change past now i := fun hn => h (hall.2 hn)
    split
    · rename_i k hk
      simp only [Ingredient.filter_all_eq_singleton, hzero] at hk
      have hself : change past now k = 0 := (hk k).2 rfl
      have htwo : d.toList.countP (·.toInt = -1) = 2 ↔ ∀ i, i ≠ k → change past now i = -1 := by
        rw [Trio.countP_eq_two (k := k) (by simp [hd, hself])]
        simp [hd]
      simp only [paired_iff_takes hdrops hk, Takes, hself]
      grind
    · -- no kind or more than one stays as it is, so nobody can have been served
      rename_i hk
      refine iff_of_false (Option.some_ne_none _) ?_
      rintro (hn | ⟨k, htakes⟩)
      · exact hdrops hn
      · refine hk k (Ingredient.filter_all_eq_singleton.2 fun i => ?_)
        rw [hzero, htakes.change_eq_zero]

section Checker

variable {law : Law} {before : Option Table}

/-- Only the differences of counts can be too large for a checker. -/
theorem check_eq_error {crash : Crash} : law.check before now = .error crash ↔
    law = .pairedConsumption ∧ crash = .subtractionOverflow ∧ ∃ past ∈ before, ¬ Tellable past now := by
  cases before with
  | none => cases law <;> simp [check]
  | some past =>
      cases law with
      | pairedConsumption =>
          simp only [check, Option.mem_some_iff, exists_eq_left', true_and, ← deltas?_eq_none]
          cases deltas? past now with
          | none => simp [eq_comm]
          | some d => simp
      | monotonicCigarettes => simp [check, miscounted?_ne_error]
      | nonNegativeIngredients | closingIsTerminal => simp [check]

theorem check_paired_eq_none : pairedConsumption.check (some past) now = .ok none ↔
    Tellable past now ∧ Paired past now := by
  simp only [check]
  cases hd : deltas? past now with
  | none => simp [deltas?_eq_none.1 hd]
  | some d =>
      have htellable : Tellable past now := by
        by_contra h
        simp [deltas?_eq_none.2 h] at hd
      simp [htellable, unpaired?_eq_none (get_of_deltas? hd)]

theorem checker_eq_none :
    law.checker.check before now = .ok none ↔ law.check before now = .ok none := by
  simp only [checker]
  rcases law.check before now with e | _ | b <;> simp [Except.map]

theorem checker_eq_some {m : String} : law.checker.check before now = .ok (some m) ↔
    ∃ b, law.check before now = .ok (some b) ∧ b.message = m := by
  simp only [checker]
  rcases law.check before now with e | _ | b <;> simp [Except.map]

theorem checker_eq_error {crash : Crash} :
    law.checker.check before now = .error crash ↔ law.check before now = .error crash := by
  simp only [checker]
  rcases law.check before now with e | b <;> simp [Except.map]

/-- A checker that does not crash finds something, or the step passes. -/
theorem exists_checker_eq_some : (∃ m, law.checker.check before now = .ok (some m)) ↔
    (∀ crash, law.check before now ≠ .error crash) ∧ law.check before now ≠ .ok none := by
  simp only [checker_eq_some]
  rcases law.check before now with e | _ | b <;> simp

end Checker

/-- What the checkers of the laws find in a step, and when they crash. A count below zero is found
whatever came before; without a table before, nothing else is. Over a step whose differences fit in
64 bits every checker answers. -/
theorem checkers_decide (past now : Table) :
    (∀ before, (∃ m, nonNegativeIngredients.checker.check before now = .ok (some m)) ↔
      ∃ i, (now.ingredients.get i).toInt < 0) ∧
    (∀ before m, nonNegativeIngredients.checker.check before now = .ok (some m) →
      ∃ i, Ingredient.IsFirst (fun j => (now.ingredients.get j).toInt < 0) i ∧
        m = s!"ingredient {i.index} count is {(now.ingredients.get i).toInt}") ∧
    ((∃ m, monotonicCigarettes.checker.check (some past) now = .ok (some m)) ↔
      ∃ k, Miscounts past now k) ∧
    (∀ m, monotonicCigarettes.checker.check (some past) now = .ok (some m) →
      ∃ k rest, Ingredient.IsFirst (Miscounts past now) k ∧ m = s!"smoker {k.index}" ++ rest) ∧
    ((∃ m, closingIsTerminal.checker.check (some past) now = .ok (some m)) ↔
      (past.closing = true ∧ now.closing = false) ∨ ∃ k, Returns past now k) ∧
    (pairedConsumption.checker.check (some past) now = .ok none ↔
      Tellable past now ∧ Paired past now) ∧
    ((∃ m, pairedConsumption.checker.check (some past) now = .ok (some m)) ↔
      Tellable past now ∧ ¬ Paired past now) ∧
    (∀ (law : Law) before crash, law.checker.check before now = .error crash ↔
      law = .pairedConsumption ∧ crash = .subtractionOverflow ∧ ∃ t ∈ before, ¬ Tellable t now) ∧
    ∀ law : Law, law ≠ .nonNegativeIngredients → law.checker.check none now = .ok none := by
  refine ⟨fun before => ?_, fun before m hm => ?_, ?_, fun m hm => ?_, ?_, ?_, ?_, ?_, ?_⟩
  · have hnone : negative? now ≠ none ↔ ∃ i, (now.ingredients.get i).toInt < 0 := by
      simp [negative?_eq_none, Table.NonNegative]
    simp [exists_checker_eq_some, check, hnone]
  · obtain ⟨b, hb, rfl⟩ := checker_eq_some.1 hm
    obtain ⟨i, hi, rfl⟩ := isFirst_of_negative? (by simpa [check] using hb)
    exact ⟨i, hi, rfl⟩
  · have hnone : miscounted? past now ≠ .ok none ↔ ∃ k, Miscounts past now k := by
      simp [miscounted?_eq_ok_none]
    simpa [exists_checker_eq_some, check, miscounted?_ne_error] using hnone
  · obtain ⟨b, hb, rfl⟩ := checker_eq_some.1 hm
    exact isFirst_of_miscounted? (by simpa [check] using hb)
  · have hnone : reopened? past now ≠ none ↔
        (past.closing = true ∧ now.closing = false) ∨ ∃ k, Returns past now k := by
      rw [Ne, reopened?_eq_none, not_and_or]
      simp
    simp [exists_checker_eq_some, check, hnone]
  · rw [checker_eq_none, check_paired_eq_none]
  · have hcalm : (∀ crash, pairedConsumption.check (some past) now ≠ .error crash) ↔
        Tellable past now := by
      simp [check_eq_error]
    rw [exists_checker_eq_some, hcalm, Ne, check_paired_eq_none]
    tauto
  · exact fun law before crash => checker_eq_error.trans check_eq_error
  · intro law hlaw
    rw [checker_eq_none]
    cases law with
    | nonNegativeIngredients => exact absurd rfl hlaw
    | monotonicCigarettes | closingIsTerminal | pairedConsumption => rfl

/-- Two smokers that only roll have finished cigarettes, the first of them two at once. -/
theorem checkers_decide_rolling :
    let past : Table := { smokers := .replicate .rolling, cigarettes := ⟨0, 3, 0⟩ }
    let now : Table := { past with cigarettes := ⟨0, 5, 1⟩ }
    Miscounts past now .paper ∧ Miscounts past now .matchstick ∧
      (∃ rest, monotonicCigarettes.checker.check (some past) now = .ok (some ("smoker 1" ++ rest))) ∧
      monotonicCigarettes.checker.check none now = .ok none := by
  intro past now
  obtain ⟨-, -, hfinds, hnames, -, -, -, -, hfirst⟩ := checkers_decide past now
  have hpaper : Miscounts past now .paper := by
    unfold Miscounts
    decide
  have hmatchstick : Miscounts past now .matchstick := by
    unfold Miscounts
    decide
  have htobacco : ¬ Miscounts past now .tobacco := by
    unfold Miscounts
    decide
  obtain ⟨m, hm⟩ := hfinds.2 ⟨.paper, hpaper⟩
  obtain ⟨k, rest, hk, rfl⟩ := hnames m hm
  obtain rfl : k = .paper := by
    have hle := hk.2 .paper hpaper
    cases k with
    | tobacco => exact absurd hk.1 htobacco
    | paper => rfl
    | matchstick => exact absurd hle (by decide)
  exact ⟨hpaper, hmatchstick, ⟨rest, hm⟩, hfirst _ (by decide)⟩

end Law

end CigaretteSmokers
