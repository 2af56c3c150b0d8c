import CigaretteSmokers.Table
import CigaretteSmokers.Proofs.IngredientSums

/-!
The critical sections of the actors and what each makes of the table.
-/

namespace CigaretteSmokers

/-- What an actor goes to the table for. -/
inductive Section
  | arrive (k : Ingredient)
  | visit (k : Ingredient)
  | roll (k : Ingredient)
  | light (k : Ingredient)
  | finish (k : Ingredient)
  | supply (k : Ingredient)
  | announce
  | close
  deriving DecidableEq

/-- A critical section that has run to its end, a visit with what the smoker found. -/
inductive Deed
  | arrived (k : Ingredient)
  | visited (k : Ingredient) (found : Table.Action.Visit)
  | rolled (k : Ingredient)
  | lit (k : Ingredient)
  | finished (k : Ingredient)
  | supplied (k : Ingredient)
  | announced
  | closed
  deriving DecidableEq

def Section.action : Section → Table.Action Deed
  | .arrive k => (fun _ => .arrived k) <$> Table.Action.setSmoker k .waiting
  | .visit k => .visited k <$> Table.Action.visit k
  | .roll k => (fun _ => .rolled k) <$> Table.Action.setSmoker k .rolling
  | .light k => (fun _ => .lit k) <$> Table.Action.setSmoker k .smoking
  | .finish k => (fun _ => .finished k) <$> Table.Action.countCigarette k
  | .supply k => (fun _ => .supplied k) <$> Table.Action.supply k
  | .announce => (fun _ => .announced) <$> Table.Action.setAgent .waiting
  | .close => (fun _ => .closed) <$> Table.Action.close

namespace Deed

/-- How many units of a kind a deed brings to the table. -/
def brought : Deed → Ingredient → Int
  | .supplied k, j => if j = k then 0 else 1
  | .visited k .served, j => if j = k then 0 else -1
  | _, _ => 0

def counted : Deed → Ingredient → Nat
  | .finished k, j => if j = k then 1 else 0
  | _, _ => 0

def smokersAfter : Deed → Trio SmokerStatus → Trio SmokerStatus
  | .arrived k, s => s.set k .waiting
  | .visited k .closed, s => s.set k .closing
  | .rolled k, s => s.set k .rolling
  | .lit k, s => s.set k .smoking
  | _, s => s

def agentAfter : Deed → AgentStatus → AgentStatus
  | .supplied _, _ => .preparing
  | .announced, _ => .waiting
  | .closed, _ => .closing
  | _, a => a

def closingAfter : Deed → Bool → Bool
  | .closed, _ => true
  | _, b => b

/-- What a deed says of the table that it came upon. -/
def Finds : Deed → Table → Prop
  | .visited _ .closed, t => t.closing = true
  | .visited k .served, t => t.closing = false ∧ ∀ j, j ≠ k → 1 ≤ (t.ingredients.get j).toInt
  | .visited k (.lacking i), t => t.closing = false ∧ i ≠ k ∧ (t.ingredients.get i).toInt < 1
  | _, _ => True

end Deed

/-- The deed `d` takes the table from `t` to `t'`. -/
structure Deed.Makes (d : Deed) (t t' : Table) : Prop where
  finds : d.Finds t
  ingredients : ∀ j, (t'.ingredients.get j).toInt = (t.ingredients.get j).toInt + d.brought j
  cigarettes : ∀ j, (t'.cigarettes.get j).toNat = (t.cigarettes.get j).toNat + d.counted j
  smokers : t'.smokers = d.smokersAfter t.smokers
  agent : t'.agent = d.agentAfter t.agent
  closing : t'.closing = d.closingAfter t.closing

namespace Table.Action

theorem map_ok {α β : Type} {g : α → β} {act : Action α} {t t' : Table} {b : β}
    (h : (g <$> act) t = .ok b t') : ∃ a, act t = .ok a t' ∧ g a = b := by
  simp only [Functor.map, EStateM.map] at h
  split at h
  · rename_i a u ha
    cases h
    exact ⟨a, ha, rfl⟩
  · cases h

theorem map_ok_of {α β : Type} {g : α → β} {act : Action α} {t t' : Table} {a : α}
    (h : act t = .ok a t') : (g <$> act) t = .ok (g a) t' := by
  simp [Functor.map, EStateM.map, h]

theorem putUnit_ok {i : Ingredient} {t t' : Table} (h : putUnit i t = .ok () t') :
    ∃ n, t' = { t with ingredients := t.ingredients.set i n } ∧
      n.toInt = (t.ingredients.get i).toInt + 1 := by
  unfold putUnit at h
  split at h
  · rename_i n hn
    cases h
    exact ⟨n, rfl, Checked.toInt_of_signed hn⟩
  · cases h

theorem takeUnit_ok {i : Ingredient} {t t' : Table} (h : takeUnit i t = .ok () t') :
    ∃ n, t' = { t with ingredients := t.ingredients.set i n } ∧
      n.toInt = (t.ingredients.get i).toInt - 1 := by
  unfold takeUnit at h
  split at h
  · rename_i n hn
    cases h
    exact ⟨n, rfl, Checked.toInt_of_signed hn⟩
  · cases h

theorem countCigarette_ok {k : Ingredient} {t t' : Table} (h : countCigarette k t = .ok () t') :
    ∃ n, t' = { t with cigarettes := t.cigarettes.set k n } ∧
      n.toNat = (t.cigarettes.get k).toNat + 1 := by
  unfold countCigarette at h
  split at h
  · rename_i n hn
    cases h
    exact ⟨n, rfl, Checked.toNat_of_unsigned hn⟩
  · cases h

theorem bind_ok {α β : Type} {x : Action α} {f : α → Action β} {t t' : Table} {b : β}
    (h : (x >>= f) t = .ok b t') : ∃ a u, x t = .ok a u ∧ f a u = .ok b t' := by
  simp only [bind, EStateM.bind] at h
  split at h
  · rename_i a u ha
    exact ⟨a, u, ha, h⟩
  · cases h

theorem bind_ok_of {α β : Type} {x : Action α} {f : α → Action β} {t u : Table} {a : α}
    (h : x t = .ok a u) : (x >>= f) t = f a u := by
  simp [bind, EStateM.bind, h]

theorem supply_ok {k : Ingredient} {t t' : Table} (h : supply k t = .ok () t') :
    (∀ j, (t'.ingredients.get j).toInt = (t.ingredients.get j).toInt + if j = k then 0 else 1) ∧
      t'.cigarettes = t.cigarettes ∧ t'.smokers = t.smokers ∧ t'.agent = .preparing ∧
      t'.closing = t.closing := by
  obtain ⟨_, t₀, h₀, h⟩ := bind_ok h
  obtain ⟨_, t₁, h₁, h₂⟩ := bind_ok h
  cases h₀
  obtain ⟨m, rfl, hm⟩ := putUnit_ok h₁
  obtain ⟨n, rfl, hn⟩ := putUnit_ok h₂
  refine ⟨fun j => ?_, rfl, rfl, rfl, rfl⟩
  obtain ⟨hne₁, hne₂, hne⟩ := k.needs_ne
  simp only [Trio.get_set, if_neg (Ne.symm hne)] at hn
  simp only [Trio.get_set]
  rcases j.eq_or_mem_needs k with rfl | rfl | rfl
  · simp [Ne.symm hne₁, Ne.symm hne₂]
  · simp [hne, hne₁, hm]
  · simp [hne₂, hn]

theorem visit_ok {k : Ingredient} {v : Visit} {t t' : Table} (h : visit k t = .ok v t') :
    (v = .closed ∧ t.closing = true ∧ t' = { t with smokers := t.smokers.set k .closing }) ∨
    (∃ i, v = .lacking i ∧ t.closing = false ∧ i ≠ k ∧ (t.ingredients.get i).toInt < 1 ∧ t' = t) ∨
    (v = .served ∧ t.closing = false ∧ (∀ j, j ≠ k → 1 ≤ (t.ingredients.get j).toInt) ∧
      (∀ j, (t'.ingredients.get j).toInt = (t.ingredients.get j).toInt + if j = k then 0 else -1) ∧
      t' = { t with ingredients := t'.ingredients }) := by
  obtain ⟨_, t₀, h₀, h⟩ := bind_ok h
  cases h₀
  obtain ⟨hne₁, hne₂, hne⟩ := k.needs_ne
  split at h
  · rename_i hc
    cases h
    exact .inl ⟨rfl, hc, rfl⟩
  · rename_i hc
    have hc : t.closing = false := by simpa using hc
    split at h
    · rename_i hi
      cases h
      exact .inr (.inl ⟨_, rfl, hc, hne₁, hi, rfl⟩)
    · rename_i hi₁
      split at h
      · rename_i hi
        cases h
        exact .inr (.inl ⟨_, rfl, hc, hne₂, hi, rfl⟩)
      · rename_i hi₂
        obtain ⟨_, t₁, h₁, h⟩ := bind_ok h
        obtain ⟨_, t₂, h₂, h⟩ := bind_ok h
        cases h
        obtain ⟨m, rfl, hm⟩ := takeUnit_ok h₁
        obtain ⟨n, rfl, hn⟩ := takeUnit_ok h₂
        -- The second unit is taken from what the first has left.
        simp only [Trio.get_set, if_neg (Ne.symm hne)] at hn
        refine .inr (.inr ⟨rfl, hc, fun j hj => ?_, fun j => ?_, rfl⟩)
        · rcases j.eq_or_mem_needs k with rfl | rfl | rfl
          · exact absurd rfl hj
          · omega
          · omega
        · simp only [Trio.get_set]
          rcases j.eq_or_mem_needs k with rfl | rfl | rfl
          · simp [Ne.symm hne₁, Ne.symm hne₂]
          · simp only [hne, hne₁, if_false, if_true]
            omega
          · simp only [hne₂, if_false, if_true]
            omega

end Table.Action

/-- The one account of what a critical section does to the table when it does not crash. -/
theorem Section.makes {sec : Section} {d : Deed} {t t' : Table} (h : sec.action t = .ok d t') :
    d.Makes t t' := by
  cases sec with
  | arrive k | roll k | light k =>
      obtain ⟨_, ha, rfl⟩ := Table.Action.map_ok h
      cases ha
      exact ⟨trivial, by simp [Deed.brought], by simp [Deed.counted], rfl, rfl, rfl⟩
  | announce | close =>
      obtain ⟨_, ha, rfl⟩ := Table.Action.map_ok h
      cases ha
      exact ⟨trivial, by simp [Deed.brought], by simp [Deed.counted], rfl, rfl, rfl⟩
  | visit k =>
      obtain ⟨v, hv, rfl⟩ := Table.Action.map_ok h
      rcases Table.Action.visit_ok hv with ⟨rfl, hc, rfl⟩ | ⟨i, rfl, hc, hi, hlt, rfl⟩ | ⟨rfl, hc, hle, hj, ht⟩
      · exact ⟨hc, by simp [Deed.brought], by simp [Deed.counted], rfl, rfl, rfl⟩
      · exact ⟨⟨hc, hi, hlt⟩, by simp [Deed.brought], by simp [Deed.counted], rfl, rfl, rfl⟩
      · rw [ht]
        exact ⟨⟨hc, hle⟩, hj, by simp [Deed.counted], rfl, rfl, rfl⟩
  | finish k =>
      obtain ⟨_, ha, rfl⟩ := Table.Action.map_ok h
      obtain ⟨n, rfl, hn⟩ := Table.Action.countCigarette_ok ha
      refine ⟨trivial, by simp [Deed.brought], fun j => ?_, rfl, rfl, rfl⟩
      by_cases hj : j = k
      · subst hj; simp [Deed.counted, hn]
      · simp [Deed.counted, hj]
  | supply k =>
      obtain ⟨_, ha, rfl⟩ := Table.Action.map_ok h
      obtain ⟨hi, hcig, hsm, hag, hcl⟩ := Table.Action.supply_ok ha
      exact ⟨trivial, hi, by simp [Deed.counted, hcig], hsm, hag, hcl⟩

def Deed.origin : Deed → Section
  | .arrived k => .arrive k
  | .visited k _ => .visit k
  | .rolled k => .roll k
  | .lit k => .light k
  | .finished k => .finish k
  | .supplied k => .supply k
  | .announced => .announce
  | .closed => .close

theorem Section.eq_origin {sec : Section} {d : Deed} {t t' : Table} (h : sec.action t = .ok d t') :
    sec = d.origin := by
  cases sec <;> obtain ⟨_, -, rfl⟩ := Table.Action.map_ok h <;> rfl

/-- What a section counts up stays within 64 bits. -/
def Section.Fits : Section → Table → Prop
  | .supply k, t => ∀ j, j ≠ k → (t.ingredients.get j).toInt < Int64.maxValue.toInt
  | .finish k, t => (t.cigarettes.get k).toNat + 1 < UInt64.size
  | _, _ => True

namespace Table.Action

theorem putUnit_of_lt {i : Ingredient} {t : Table}
    (h : (t.ingredients.get i).toInt < Int64.maxValue.toInt) : ∃ t', putUnit i t = .ok () t' := by
  have hlo := Int64.minValue_le_toInt (t.ingredients.get i)
  unfold putUnit Checked.signed
  rw [if_pos ⟨by omega, by omega⟩]
  exact ⟨_, rfl⟩

theorem takeUnit_of_pos {i : Ingredient} {t : Table} (h : 1 ≤ (t.ingredients.get i).toInt) :
    ∃ t', takeUnit i t = .ok () t' := by
  have hlo : Int64.minValue.toInt < 0 := by decide
  have hhi := Int64.toInt_le (t.ingredients.get i)
  unfold takeUnit Checked.signed
  rw [if_pos ⟨by omega, by omega⟩]
  exact ⟨_, rfl⟩

theorem visit_total (k : Ingredient) (t : Table) : ∃ v t', visit k t = .ok v t' := by
  obtain ⟨-, -, hne⟩ := k.needs_ne
  have hget : (get : Action Table) t = .ok t t := rfl
  rw [visit, bind_ok_of hget]
  split
  · exact ⟨_, _, rfl⟩
  · split
    · exact ⟨_, _, rfl⟩
    · rename_i h₁
      split
      · exact ⟨_, _, rfl⟩
      · rename_i h₂
        obtain ⟨t₁, ht₁⟩ := takeUnit_of_pos (i := k.needs.1) (t := t) (by omega)
        obtain ⟨m, rfl, -⟩ := takeUnit_ok ht₁
        obtain ⟨t₂, ht₂⟩ := takeUnit_of_pos (i := k.needs.2)
          (t := { t with ingredients := t.ingredients.set k.needs.1 m })
          (by simp only [Trio.get_set, if_neg (Ne.symm hne)]; omega)
        rw [bind_ok_of ht₁, bind_ok_of ht₂]
        exact ⟨_, _, rfl⟩

theorem supply_of_lt {k : Ingredient} {t : Table}
    (h : ∀ j, j ≠ k → (t.ingredients.get j).toInt < Int64.maxValue.toInt) :
    ∃ t', supply k t = .ok () t' := by
  obtain ⟨hne₁, hne₂, hne⟩ := k.needs_ne
  have hset : setAgent .preparing t = .ok () { t with agent := .preparing } := rfl
  obtain ⟨t₁, ht₁⟩ := putUnit_of_lt (i := k.needs.1) (t := { t with agent := .preparing }) (h _ hne₁)
  obtain ⟨m, rfl, -⟩ := putUnit_ok ht₁
  obtain ⟨t₂, ht₂⟩ := putUnit_of_lt (i := k.needs.2)
    (t := { t with agent := .preparing, ingredients := t.ingredients.set k.needs.1 m })
    (by simpa only [Trio.get_set, if_neg (Ne.symm hne)] using h _ hne₂)
  exact ⟨t₂, by rw [supply, bind_ok_of hset, bind_ok_of ht₁, ht₂]⟩

end Table.Action

theorem Section.action_total {sec : Section} {t : Table} (h : sec.Fits t) :
    ∃ d t', sec.action t = .ok d t' := by
  cases sec with
  | arrive | roll | light | announce | close => exact ⟨_, _, rfl⟩
  | visit k =>
      obtain ⟨v, t', hv⟩ := Table.Action.visit_total k t
      exact ⟨_, _, Table.Action.map_ok_of hv⟩
  | finish k =>
      have hc : Table.Action.countCigarette k t =
          .ok () { t with cigarettes := t.cigarettes.set k (.ofNat ((t.cigarettes.get k).toNat + 1)) } := by
        simp only [Table.Action.countCigarette, Checked.unsigned, if_pos (show _ < UInt64.size from h)]
      exact ⟨_, _, Table.Action.map_ok_of hc⟩
  | supply k =>
      obtain ⟨t', ht⟩ := Table.Action.supply_of_lt h
      exact ⟨_, _, Table.Action.map_ok_of ht⟩

/-- Only laying out can crash half-way. -/
theorem Section.table_of_crash {sec : Section} {c : Crash} {t t' : Table}
    (h : sec.action t = .error c t') (hs : ∀ k, sec ≠ .supply k) : t' = t := by
  by_cases hf : sec.Fits t
  · obtain ⟨d, u, hd⟩ := Section.action_total hf
    rw [hd] at h
    cases h
  · cases sec with
    | supply k => exact absurd rfl (hs k)
    | finish k =>
        simp only [Section.action, Functor.map, EStateM.map] at h
        split at h
        · cases h
        · rename_i hc
          cases h
          unfold Table.Action.countCigarette at hc
          split at hc <;> cases hc
          rfl
    | arrive | visit | roll | light | announce | close => exact absurd trivial hf

theorem Table.total_of_lt {t : Table} (h : ∑ k, (t.cigarettes.get k).toNat < UInt64.size) :
    ∃ n, t.total = .ok n ∧ n.toNat = ∑ k, (t.cigarettes.get k).toNat := by
  simp only [Ingredient.sum_univ, Trio.get] at h ⊢
  have hsum : ∀ {m n : Nat}, m + n < UInt64.size →
      ∃ s, Checked.unsigned (m + n) = some s ∧ s.toNat = m + n := by
    intro m n hlt
    exact ⟨.ofNat (m + n), by simp only [Checked.unsigned, if_pos hlt], UInt64.toNat_ofNat_of_lt' hlt⟩
  obtain ⟨s₀, h₀, hs₀⟩ := hsum (m := (0 : UInt64).toNat) (n := t.cigarettes.tobacco.toNat) (by simp; omega)
  obtain ⟨s₁, h₁, hs₁⟩ := hsum (m := s₀.toNat) (n := t.cigarettes.paper.toNat) (by simp at hs₀; omega)
  obtain ⟨s₂, h₂, hs₂⟩ := hsum (m := s₁.toNat) (n := t.cigarettes.matchstick.toNat) (by simp at hs₀; omega)
  refine ⟨s₂, ?_, by simp at hs₀; omega⟩
  simp only [Table.total, Trio.toList, List.foldlM_cons, List.foldlM_nil, bind, Except.bind, pure,
    Except.pure, h₀, h₁, h₂]

end CigaretteSmokers
