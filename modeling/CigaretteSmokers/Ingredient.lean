namespace CigaretteSmokers

/-- The three kinds of thing that a cigarette needs. Each smoker owns an endless supply of one
kind, so a smoker is named by the kind that it holds. -/
inductive Ingredient
  | tobacco
  | paper
  | matchstick
  deriving DecidableEq, Inhabited

namespace Ingredient

def all : List Ingredient := [.tobacco, .paper, .matchstick]

def index : Ingredient → Nat
  | .tobacco => 0
  | .paper => 1
  | .matchstick => 2

def ofIndex? : Nat → Option Ingredient
  | 0 => some .tobacco
  | 1 => some .paper
  | 2 => some .matchstick
  | _ => none

def name : Ingredient → String
  | .tobacco => "tobacco"
  | .paper => "paper"
  | .matchstick => "matches"

/-- What the smoker that holds `k` lacks, lowest index first. -/
def needs : Ingredient → Ingredient × Ingredient
  | .tobacco => (.paper, .matchstick)
  | .paper => (.tobacco, .matchstick)
  | .matchstick => (.tobacco, .paper)

theorem ofIndex?_index (k : Ingredient) : ofIndex? k.index = some k := by
  cases k <;> rfl

theorem index_inj {i j : Ingredient} : i.index = j.index ↔ i = j := by
  refine ⟨fun h => ?_, congrArg _⟩
  rw [← Option.some_inj, ← ofIndex?_index i, h, ofIndex?_index j]

theorem exists_ofIndex? {n : Nat} (h : n < 3) : ∃ k, ofIndex? n = some k := by
  match n, h with
  | 0, _ => exact ⟨.tobacco, rfl⟩
  | 1, _ => exact ⟨.paper, rfl⟩
  | 2, _ => exact ⟨.matchstick, rfl⟩

theorem index_lt (k : Ingredient) : k.index < 3 := by
  cases k <;> decide

theorem mem_all (k : Ingredient) : k ∈ all := by
  cases k <;> decide

end Ingredient

end CigaretteSmokers
