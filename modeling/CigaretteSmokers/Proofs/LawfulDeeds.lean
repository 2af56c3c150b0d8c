import CigaretteSmokers.Law
import CigaretteSmokers.Proofs.Deeds

/-!
What a deed makes of the table breaks no law, if the smoker that does it shows what it is about.
-/

namespace CigaretteSmokers

theorem Checked.difference_of_le {a b : UInt64} (h : b ≤ a) : difference a b = some (a - b) := if_pos h

namespace Law

/-- How the count of smoker `k` breaks the law, told without a subtraction. -/
def miscountOf (past now : Table) (k : Ingredient) : Option Breach :=
  let before := past.cigarettes.get k
  let after := now.cigarettes.get k
  if after.toNat < before.toNat then some (.countFell k before after)
  else if before.toNat + 1 < after.toNat then some (.countJumped k before after)
  else if before.toNat < after.toNat ∧ past.smokers.get k ≠ .smoking then
    some (.finishedWhile k (past.smokers.get k))
  else none

/-- The subtraction comes after the test for a fall, and never overflows. -/
theorem miscount?_eq (past now : Table) (k : Ingredient) :
    miscount? past now k = .ok (miscountOf past now k) := by
  simp only [miscount?, miscountOf, UInt64.lt_iff_toNat_lt]
  split
  · rfl
  · rename_i hfell
    have hle : past.cigarettes.get k ≤ now.cigarettes.get k := by
      rw [UInt64.le_iff_toNat_le]
      omega
    have hjump : (1 : UInt64).toNat < (now.cigarettes.get k).toNat - (past.cigarettes.get k).toNat ↔
        (past.cigarettes.get k).toNat + 1 < (now.cigarettes.get k).toNat := by
      rw [UInt64.toNat_one]
      omega
    simp only [Checked.difference_of_le hle, UInt64.toNat_sub_of_le _ _ hle, hjump]
    split
    · rfl
    · split <;> rfl

theorem miscounted?_eq (past now : Table) :
    miscounted? past now = .ok (Ingredient.all.findSome? (miscountOf past now)) := by
  have hsearch : miscount? past now = fun k => pure (miscountOf past now k) :=
    funext (miscount?_eq past now)
  rw [miscounted?, hsearch]
  exact List.findSomeM?_pure

theorem miscounted?_ne_error (past now : Table) (crash : Crash) :
    miscounted? past now ≠ .error crash := by
  simp [miscounted?_eq]

end Law

def Law.Passes (past : Option Table) (now : Table) : Prop := ∀ law : Law, law.check past now = .ok none

/-- Nothing on the table has been taken twice. -/
def Table.NonNegative (t : Table) : Prop := ∀ j, 0 ≤ (t.ingredients.get j).toInt

namespace Deed

/-- The smoker that does the deed shows the status at which it belongs. -/
def Timely : Deed → Table → Prop
  | .arrived k, t | .rolled k, t | .lit k, t => t.smokers.get k ≠ .closing
  | .visited k _, t => t.smokers.get k = .waiting
  | .finished k, t => t.smokers.get k = .smoking
  | .supplied _, _ | .announced, _ | .closed, _ => True

theorem counted_le (d : Deed) (j : Ingredient) : d.counted j ≤ 1 := by
  unfold counted
  split
  · split <;> omega
  · omega

theorem eq_finished {d : Deed} {j : Ingredient} (h : d.counted j ≠ 0) : d = .finished j := by
  unfold counted at h
  split at h
  · split at h
    · simp_all
    · exact absurd rfl h
  · exact absurd rfl h

theorem brought_nonneg {d : Deed} (h : ∀ k, d ≠ .visited k .served) (j : Ingredient) : 0 ≤ d.brought j := by
  unfold brought
  split
  · split <;> omega
  · exact absurd rfl (h _)
  · omega

theorem brought_range (d : Deed) (j : Ingredient) : -1 ≤ d.brought j ∧ d.brought j ≤ 1 := by
  unfold brought
  split
  · split <;> omega
  · split <;> omega
  · omega

theorem smokersAfter_closing {d : Deed} {t : Table} (ht : d.Timely t) {j : Ingredient}
    (hj : t.smokers.get j = .closing) : (d.smokersAfter t.smokers).get j = .closing := by
  have hset : ∀ {k : Ingredient} (s : SmokerStatus), t.smokers.get k ≠ .closing →
      (t.smokers.set k s).get j = .closing := by
    intro k s hk
    have hne : j ≠ k := fun hjk => hk (hjk ▸ hj)
    simpa [hne] using hj
  cases d with
  | arrived k | rolled k | lit k => exact hset _ ht
  | visited k v =>
      cases v with
      | closed => exact hset _ (by rw [show t.smokers.get k = .waiting from ht]; decide)
      | served | lacking => exact hj
  | finished | supplied | announced | closed => exact hj

namespace Makes

variable {d : Deed} {t t' : Table}

theorem nonNegative (h : d.Makes t t') (hn : t.NonNegative) : t'.NonNegative := by
  intro j
  rw [h.ingredients]
  by_cases hd : ∃ k, d = .visited k .served
  · obtain ⟨k, rfl⟩ := hd
    have hfinds := h.finds.2 j
    by_cases hj : j = k
    · simpa [brought, hj] using hn k
    · have := hfinds hj
      simp only [brought, if_neg hj]
      omega
  · have := d.brought_nonneg (fun k hk => hd ⟨k, hk⟩) j
    have := hn j
    omega

theorem not_miscounted (h : d.Makes t t') (ht : d.Timely t) : Law.miscounted? t t' = .ok none := by
  rw [Law.miscounted?_eq, Except.ok.injEq]
  refine List.findSome?_eq_none_iff.2 fun k _ => ?_
  have hle := d.counted_le k
  simp only [Law.miscountOf, h.cigarettes]
  split
  · omega
  · split
    · omega
    · split
      · rename_i hrose
        obtain rfl : d = .finished k := eq_finished (by omega)
        exact absurd ht hrose.2
      · rfl

theorem not_reopened (h : d.Makes t t') (ht : d.Timely t) : Law.reopened? t t' = none := by
  have hkept : t.closing = true → t'.closing = true := by
    intro hc
    rw [h.closing, hc]
    cases d <;> rfl
  unfold Law.reopened?
  split
  · rename_i hcleared
    exact absurd (hkept hcleared.1) hcleared.2
  · refine List.findSome?_eq_none_iff.2 fun k _ => ?_
    split
    · rename_i hleft
      rw [h.smokers, smokersAfter_closing ht hleft.1] at hleft
      exact absurd rfl hleft.2
    · rfl

def taken (k : Ingredient) : Trio Int64 := .ofFn fun j => Int64.ofInt ((visited k .served).brought j)

theorem unpaired_taken (k : Ingredient) (now : Table) (h : now.smokers.get k = .waiting) :
    Law.unpaired? (taken k) now = none := by
  have hall : (taken k).toList.all (0 ≤ ·.toInt) = false := by cases k <;> rfl
  have hfilter : Ingredient.all.filter ((taken k).get · = 0) = [k] := by cases k <;> rfl
  have hcount : (taken k).toList.countP (·.toInt = -1) = 2 := by cases k <;> rfl
  simp only [Law.unpaired?, hall, hfilter, hcount, h]
  simp

theorem deltas_eq (h : d.Makes t t') :
    Law.deltas? t t' = some (.ofFn fun j => Int64.ofInt (d.brought j)) := by
  have hchange : ∀ j, Checked.signed ((t'.ingredients.get j).toInt - (t.ingredients.get j).toInt) =
      some (Int64.ofInt (d.brought j)) := by
    intro j
    have hlo : Int64.minValue.toInt = -9223372036854775808 := rfl
    have hhi : Int64.maxValue.toInt = 9223372036854775807 := rfl
    have := d.brought_range j
    rw [h.ingredients, add_sub_cancel_left]
    unfold Checked.signed
    rw [if_pos ⟨by omega, by omega⟩]
  simp only [Law.deltas?, hchange]
  rfl

theorem not_unpaired (h : d.Makes t t') (ht : d.Timely t) :
    Law.unpaired? (.ofFn fun j => Int64.ofInt (d.brought j)) t' = none := by
  cases d with
  | visited k v =>
      cases v with
      | served => exact unpaired_taken k t' (by rw [h.smokers]; exact ht)
      | closed | lacking => rfl
  | supplied k => cases k <;> rfl
  | arrived | rolled | lit | finished | announced | closed => rfl

theorem passes (h : d.Makes t t') (hn : t.NonNegative) (ht : d.Timely t) :
    Law.Passes none t' ∧ Law.Passes (some t) t' := by
  have hnegative : Law.negative? t' = none := by
    refine List.findSome?_eq_none_iff.2 fun j _ => ?_
    have := h.nonNegative hn j
    simp only
    rw [if_neg (by omega)]
  constructor
  · intro law
    cases law with
    | nonNegativeIngredients => simp only [Law.check, hnegative]
    | monotonicCigarettes | closingIsTerminal | pairedConsumption => rfl
  · intro law
    cases law with
    | nonNegativeIngredients => simp only [Law.check, hnegative]
    | monotonicCigarettes => simp only [Law.check, h.not_miscounted ht]
    | closingIsTerminal => simp only [Law.check, h.not_reopened ht]
    | pairedConsumption => simp only [Law.check, h.deltas_eq, h.not_unpaired ht]

end Makes

end Deed

end CigaretteSmokers
