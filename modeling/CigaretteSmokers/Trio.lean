import CigaretteSmokers.Ingredient

namespace CigaretteSmokers

/-- One value for each kind of ingredient, or for each smoker. -/
structure Trio (α : Type) where
  tobacco : α
  paper : α
  matchstick : α
  deriving DecidableEq, Inhabited

namespace Trio

variable {α β : Type}

def get (t : Trio α) : Ingredient → α
  | .tobacco => t.tobacco
  | .paper => t.paper
  | .matchstick => t.matchstick

def set (t : Trio α) (k : Ingredient) (a : α) : Trio α :=
  match k with
  | .tobacco => { t with tobacco := a }
  | .paper => { t with paper := a }
  | .matchstick => { t with matchstick := a }

def ofFn (f : Ingredient → α) : Trio α := ⟨f .tobacco, f .paper, f .matchstick⟩

def replicate (a : α) : Trio α := ⟨a, a, a⟩

def map (f : α → β) (t : Trio α) : Trio β := ⟨f t.tobacco, f t.paper, f t.matchstick⟩

def toList (t : Trio α) : List α := [t.tobacco, t.paper, t.matchstick]

def ofList? : List α → Option (Trio α)
  | [a, b, c] => some ⟨a, b, c⟩
  | _ => none

@[ext] theorem ext_get {s t : Trio α} (h : ∀ k, s.get k = t.get k) : s = t := by
  cases s; cases t
  simpa [get] using And.intro (h .tobacco) (And.intro (h .paper) (h .matchstick))

@[simp] theorem get_set_self (t : Trio α) (k : Ingredient) (a : α) : (t.set k a).get k = a := by
  cases k <;> rfl

@[simp] theorem get_set_of_ne (t : Trio α) {j k : Ingredient} (a : α) (h : j ≠ k) :
    (t.set k a).get j = t.get j := by
  cases j <;> cases k <;> first | rfl | exact absurd rfl h

@[simp] theorem get_ofFn (f : Ingredient → α) (k : Ingredient) : (ofFn f).get k = f k := by
  cases k <;> rfl

@[simp] theorem get_map (f : α → β) (t : Trio α) (k : Ingredient) :
    (t.map f).get k = f (t.get k) := by
  cases k <;> rfl

@[simp] theorem get_replicate (a : α) (k : Ingredient) : (replicate a).get k = a := by
  cases k <;> rfl

end Trio

end CigaretteSmokers
