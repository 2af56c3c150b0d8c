import CigaretteSmokers.Trio
import Mathlib.Algebra.BigOperators.Ring.Finset
import Mathlib.Algebra.Order.BigOperators.Group.Finset
import Mathlib.Data.Fintype.Basic

namespace CigaretteSmokers

instance : Fintype Ingredient := ⟨⟨Ingredient.all, by decide⟩, Ingredient.mem_all⟩

namespace Ingredient

variable {M : Type} [AddCommMonoid M]

theorem sum_univ (f : Ingredient → M) : ∑ k, f k = f .tobacco + f .paper + f .matchstick := by
  change ∑ k ∈ ({.tobacco, .paper, .matchstick} : Finset Ingredient), f k = _
  simp [add_assoc]

theorem le_sum (f : Ingredient → Nat) (k : Ingredient) : f k ≤ ∑ j, f j :=
  Finset.single_le_sum (fun _ _ => Nat.zero_le _) (Finset.mem_univ k)

/-- Two families that differ at `k` alone have sums that differ as their values there do. -/
theorem sum_shift {f g : Ingredient → M} (k : Ingredient) (h : ∀ j, j ≠ k → g j = f j) :
    ∑ j, g j + f k = ∑ j, f j + g k := by
  rw [← Finset.add_sum_erase _ f (Finset.mem_univ k), ← Finset.add_sum_erase _ g (Finset.mem_univ k),
    Finset.sum_congr rfl fun j hj => h j (Finset.ne_of_mem_erase hj)]
  ac_rfl

theorem sum_others (f : Ingredient → Int) (j : Ingredient) :
    ∑ k with k ≠ j, f k = ∑ k, f k - f j := by
  rw [Finset.filter_ne', ← Finset.add_sum_erase _ f (Finset.mem_univ j)]
  omega

theorem eq_or_mem_needs (j k : Ingredient) : j = k ∨ j = k.needs.1 ∨ j = k.needs.2 := by
  cases j <;> cases k <;> decide

theorem needs_ne (k : Ingredient) : k.needs.1 ≠ k ∧ k.needs.2 ≠ k ∧ k.needs.1 ≠ k.needs.2 := by
  cases k <;> decide

end Ingredient

namespace Trio

variable {α : Type}

theorem get_set (t : Trio α) (k j : Ingredient) (a : α) :
    (t.set k a).get j = if j = k then a else t.get j := by
  by_cases h : j = k
  · subst h; simp
  · simp [h]

/-- What a weight sums up to when one value of three is replaced. -/
theorem sum_set (t : Trio α) (k : Ingredient) (a : α) (weight : α → Nat) :
    ∑ j, weight ((t.set k a).get j) + weight (t.get k) = ∑ j, weight (t.get j) + weight a := by
  have hshift := Ingredient.sum_shift (f := fun j => weight (t.get j))
    (g := fun j => weight ((t.set k a).get j)) k fun j hj => by simp [hj]
  simpa only [get_set_self] using hshift

end Trio

end CigaretteSmokers
