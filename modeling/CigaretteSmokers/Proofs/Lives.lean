import CigaretteSmokers.Proofs.Chronicle
import CigaretteSmokers.Proofs.LawfulDeeds
import Mathlib.Data.List.Destutter

/-!
The life of a smoker as a list of deeds and tables tells it: how its own deeds take it from one phase
to the next, while those of the others leave it where it is, and what this says of the statuses that
it shows, of the ingredients that it takes and of the cigarettes that it counts.
-/

namespace CigaretteSmokers

/-- What a smoker shows from its coming to its leaving, if it smokes `n` cigarettes. -/
def SmokerStatus.life (n : Nat) : List SmokerStatus :=
  .waiting :: (List.replicate n [.rolling, .smoking, .waiting]).flatten ++ [.closing]

/-- Where a smoker stands in its life, going by its own deeds. -/
inductive Phase
  /-- Not yet come. -/
  | fresh
  | idle
  | served
  | rolling
  | smoking
  | counted
  | gone
  deriving DecidableEq

namespace Phase

def status : Phase → SmokerStatus
  | .fresh | .idle | .served => .waiting
  | .rolling => .rolling
  | .smoking | .counted => .smoking
  | .gone => .closing

/-- What a smoker has taken in its present wait. -/
def hasTaken : Phase → Nat
  | .served => 1
  | _ => 0

/-- What a smoker has counted in its present smoke. -/
def hasCounted : Phase → Nat
  | .counted => 1
  | _ => 0

/-- One for a smoker that has taken its ingredients and not counted the cigarette. -/
def uncounted : Phase → Nat
  | .served | .rolling | .smoking => 1
  | _ => 0

/-- The statuses still to come for a smoker that is to be served `n` times more. -/
def rest : Phase → Nat → List SmokerStatus
  | .fresh, n | .idle, n => SmokerStatus.life n
  | .served, n => .waiting :: .rolling :: .smoking :: SmokerStatus.life n
  | .rolling, n => .rolling :: .smoking :: SmokerStatus.life n
  | .smoking, n | .counted, n => .smoking :: SmokerStatus.life n
  | .gone, _ => [.closing]

/-- What the deed `d` makes of the life of smoker `k`. -/
inductive Turn (k : Ingredient) : Phase → Deed → Phase → Prop
  | arrived : Turn k .fresh (.arrived k) .idle
  | returned : Turn k .counted (.arrived k) .idle
  | served : Turn k .idle (.visited k .served) .served
  | lacked {i} : Turn k .idle (.visited k (.lacking i)) .idle
  | left : Turn k .idle (.visited k .closed) .gone
  | rolled : Turn k .served (.rolled k) .rolling
  | lit : Turn k .rolling (.lit k) .smoking
  | finished : Turn k .smoking (.finished k) .counted
  | other {p d} (h : d.smoker? ≠ some k) : Turn k p d p

end Phase

namespace Deed

variable {d : Deed} {k : Ingredient}

theorem ne_of_other {c : Deed} (h : d.smoker? ≠ some k) (hc : c.smoker? = some k) : d ≠ c :=
  fun hd => h (hd ▸ hc)

theorem smokersAfter_of_other (h : d.smoker? ≠ some k) (t : Trio SmokerStatus) :
    (d.smokersAfter t).get k = t.get k := by
  cases d with
  | arrived j | rolled j | lit j =>
      have hj : k ≠ j := fun hj => h (hj ▸ rfl)
      simp [smokersAfter, hj]
  | visited j v =>
      have hj : k ≠ j := fun hj => h (hj ▸ rfl)
      cases v <;> simp [smokersAfter, hj]
  | finished | supplied | announced | closed => rfl

theorem counted_of_other (h : d.smoker? ≠ some k) : d.counted k = 0 := by
  cases d with
  | finished j =>
      have hj : k ≠ j := fun hj => h (hj ▸ rfl)
      simp [counted, hj]
  | arrived | visited | rolled | lit | supplied | announced | closed => rfl

end Deed

namespace Phase.Turn

variable {k : Ingredient} {p q : Phase} {d : Deed} {t u : Table}

theorem shows (h : p.Turn k d q) (hd : d.Makes t u) (ht : t.smokers.get k = p.status) :
    u.smokers.get k = q.status := by
  rw [hd.smokers]
  cases h with
  | arrived | returned | left | rolled | lit => simp [Deed.smokersAfter, status]
  | served | lacked | finished => exact ht
  | other h => rw [Deed.smokersAfter_of_other h, ht]

theorem accounts (h : p.Turn k d q) :
    d.counted k + q.uncounted = p.uncounted + if d = .visited k .served then 1 else 0 := by
  cases h with
  | other h =>
      simp [Deed.counted_of_other h, Deed.ne_of_other h (c := .visited k .served) rfl]
  | arrived | returned | served | lacked | left | rolled | lit | finished =>
      simp [Deed.counted, uncounted]

theorem takes (h : p.Turn k d q) (hs : p.status = q.status) :
    (if d = .visited k .served then 1 else 0) + p.hasTaken = q.hasTaken := by
  cases h with
  | other h =>
      simp [Deed.ne_of_other h (c := .visited k .served) rfl]
  | arrived | served | lacked | finished => simp [hasTaken]
  | returned | left | rolled | lit => cases hs

theorem counts (h : p.Turn k d q) (hs : p.status = q.status) :
    (if d = .finished k then 1 else 0) + p.hasCounted = q.hasCounted := by
  cases h with
  | other h =>
      simp [Deed.ne_of_other h (c := .finished k) rfl]
  | arrived | served | lacked | finished => simp [hasCounted]
  | returned | left | rolled | lit => cases hs

/-- A smoker comes to a new status with nothing taken and nothing counted. -/
theorem enters (h : p.Turn k d q) (hs : p.status ≠ q.status) : q.hasTaken = 0 ∧ q.hasCounted = 0 := by
  cases h with
  | returned | left | rolled | lit => exact ⟨rfl, rfl⟩
  | arrived | served | lacked | finished | other => exact absurd rfl hs

theorem leaves_wait (h : p.Turn k d q) (hp : p.status = .waiting) :
    (q.status = .rolling → p.hasTaken = 1) ∧ (q.status = .closing → p.hasTaken = 0) := by
  cases h with
  | left | rolled => simp [status, hasTaken]
  | arrived | returned | served | lacked | lit | finished => simp [status]
  | other => simp [hp]

theorem leaves_smoke (h : p.Turn k d q) (hp : p.status = .smoking) (hq : q.status ≠ .smoking) :
    q.status = .waiting ∧ p.hasCounted = 1 := by
  cases h with
  | returned => exact ⟨rfl, rfl⟩
  | other => exact absurd hp hq
  | arrived | served | lacked | left | rolled | lit | finished => simp [status] at hp hq

theorem of_served (h : p.Turn k (.visited k .served) q) : p.status = .waiting ∧ q.status = .waiting := by
  cases h with
  | served => exact ⟨rfl, rfl⟩
  | other h => exact absurd rfl h

theorem of_finished (h : p.Turn k (.finished k) q) : p.status = .smoking ∧ q.status = .smoking := by
  cases h with
  | finished => exact ⟨rfl, rfl⟩
  | other h => exact absurd rfl h

end Phase.Turn

namespace Table

/-- Smoker `k` takes one unit of each of its needs. -/
def Takes (k : Ingredient) (t t' : Table) : Prop :=
  ∀ j, (t'.ingredients.get j).toInt = (t.ingredients.get j).toInt - if j = k then 0 else 1

/-- Smoker `k` counts one cigarette. -/
def Counts (k : Ingredient) (t t' : Table) : Prop :=
  (t'.cigarettes.get k).toNat = (t.cigarettes.get k).toNat + 1

instance (k : Ingredient) (t t' : Table) : Decidable (Takes k t t') :=
  inferInstanceAs (Decidable (∀ _, _))

instance (k : Ingredient) (t t' : Table) : Decidable (Counts k t t') :=
  inferInstanceAs (Decidable (_ = _))

theorem takes_iff {d : Deed} {k : Ingredient} {t t' : Table} (h : d.Makes t t') :
    Takes k t t' ↔ d = .visited k .served := by
  have hiff : Takes k t t' ↔ ∀ j, d.brought j = -if j = k then 0 else 1 := by
    refine forall_congr' fun j => ?_
    rw [h.ingredients]
    omega
  rw [hiff]
  constructor
  · intro hb
    have hneed := hb k.needs.1
    rw [if_neg k.needs_ne.1] at hneed
    cases d with
    | visited j v =>
        cases v with
        | served =>
            have hk := hb k
            rw [if_pos rfl] at hk
            by_cases hj : k = j
            · rw [hj]
            · simp [Deed.brought, hj] at hk
        | closed | lacking => simp [Deed.brought] at hneed
    | supplied j =>
        simp only [Deed.brought] at hneed
        split at hneed <;> simp at hneed
    | arrived | rolled | lit | finished | announced | closed => simp [Deed.brought] at hneed
  · rintro rfl j
    simp only [Deed.brought]
    split <;> rfl

theorem counts_iff {d : Deed} {k : Ingredient} {t t' : Table} (h : d.Makes t t') :
    Counts k t t' ↔ d = .finished k := by
  unfold Counts
  rw [h.cigarettes]
  constructor
  · intro hc
    exact Deed.eq_finished (by omega)
  · rintro rfl
    simp [Deed.counted]

/-- How often a table of the list is to the next as `R` says. -/
def changes (R : Table → Table → Prop) [DecidableRel R] (ts : List Table) : Nat :=
  (ts.zip ts.tail).countP fun s => R s.1 s.2

variable {R : Table → Table → Prop} [DecidableRel R]

@[simp] theorem changes_singleton (t : Table) : changes R [t] = 0 := rfl

@[simp] theorem changes_cons_cons (t u : Table) (ts : List Table) :
    changes R (t :: u :: ts) = changes R (u :: ts) + if R t u then 1 else 0 := by
  simp [changes, List.countP_cons]

end Table

/-- The smoker `k` shows `s` all through `stretch`, and neither right before it in the log nor right
after it, where `rest` follows. -/
structure Stretch (k : Ingredient) (s : SmokerStatus) (log stretch rest : List Table) : Prop where
  shows : ∀ t ∈ stretch, t.smokers.get k = s
  ne_nil : stretch ≠ []
  within : ∃ before, log = before ++ stretch ++ rest ∧ ∀ t ∈ before.getLast?, t.smokers.get k ≠ s
  ends : ∀ t ∈ rest.head?, t.smokers.get k ≠ s

/-- The life of smoker `k` from one table to another, over the deeds done between. -/
inductive Lives (k : Ingredient) : Phase → Table → List (Deed × Table) → Phase → Table → Prop
  | refl {p t} : Lives k p t [] p t
  | step {p q p' d t u v l} (hp : p.Turn k d q) (hd : d.Makes t u) (h : Lives k q u l p' v) :
      Lives k p t ((d, u) :: l) p' v

namespace Lives

variable {k : Ingredient} {p q p' : Phase} {t u v : Table} {l m : List (Deed × Table)}

theorem append (h : Lives k p t l q u) (h' : Lives k q u m p' v) : Lives k p t (l ++ m) p' v := by
  induction h with
  | refl => exact h'
  | step hp hd _ ih => exact .step hp hd (ih h')

theorem split (h : Lives k p t l q v) (before after : List Table) (u : Table)
    (hl : t :: l.map Prod.snd = before ++ u :: after) :
    ∃ l₁ l₂ m, t :: l₁.map Prod.snd = before ++ [u] ∧ l₂.map Prod.snd = after ∧
      Lives k p t l₁ m u ∧ Lives k m u l₂ q v := by
  induction h generalizing before with
  | @refl p t =>
      cases before with
      | nil =>
          obtain ⟨rfl, rfl⟩ : t = u ∧ [] = after := by simpa using hl
          exact ⟨[], [], p, rfl, rfl, .refl, .refl⟩
      | cons => simp at hl
  | @step p q p' d t w v l hp hd h ih =>
      cases before with
      | nil =>
          obtain ⟨rfl, rfl⟩ : t = u ∧ w :: l.map Prod.snd = after := by simpa using hl
          exact ⟨[], _, p, rfl, rfl, .refl, .step hp hd h⟩
      | cons x before =>
          obtain ⟨rfl, hrest⟩ : t = x ∧ w :: l.map Prod.snd = before ++ u :: after := by simpa using hl
          obtain ⟨l₁, l₂, m, h₁, h₂, hm, hm'⟩ := ih before hrest
          exact ⟨(d, w) :: l₁, l₂, m, by simp [h₁], h₂, .step hp hd hm, hm'⟩

theorem shows (h : Lives k p t l q v) (ht : t.smokers.get k = p.status) :
    v.smokers.get k = q.status := by
  induction h with
  | refl => exact ht
  | step hp hd _ ih => exact ih (hp.shows hd ht)

theorem isChain (h : Lives k p t l q v) (ht : t.smokers.get k = p.status) :
    (t :: l.map Prod.snd).IsChain fun t u => ∃ p d q, Phase.Turn k p d q ∧ d.Makes t u ∧
      t.smokers.get k = p.status ∧ u.smokers.get k = q.status := by
  induction h with
  | refl => exact .singleton _
  | step hp hd _ ih =>
      have hu := hp.shows hd ht
      exact List.isChain_cons_cons.2 ⟨⟨_, _, _, hp, hd, ht, hu⟩, ih hu⟩

theorem marked (h : Lives k p t l q v) (ht : t.smokers.get k = p.status) :
    (t :: l.map Prod.snd).IsChain fun t u =>
      (Table.Takes k t u → t.smokers.get k = .waiting ∧ u.smokers.get k = .waiting) ∧
      (u.cigarettes.get k = t.cigarettes.get k ∨
        Table.Counts k t u ∧ t.smokers.get k = .smoking ∧ u.smokers.get k = .smoking) := by
  refine (h.isChain ht).imp ?_
  rintro t u ⟨p, d, q, hturn, hd, hp, hq⟩
  rw [Table.takes_iff hd, Table.counts_iff hd, hp, hq]
  constructor
  · rintro rfl
    exact hturn.of_served
  · rcases Nat.eq_zero_or_pos (d.counted k) with hzero | hpos
    · exact .inl (UInt64.toNat.inj (by rw [hd.cigarettes, hzero, Nat.add_zero]))
    · obtain rfl : d = .finished k := Deed.eq_finished hpos.ne'
      exact .inr ⟨rfl, hturn.of_finished⟩

theorem accounts (h : Lives k p t l q v) :
    (v.cigarettes.get k).toNat + q.uncounted = (t.cigarettes.get k).toNat + p.uncounted +
      (l.map Prod.fst).count (.visited k .served) := by
  induction h with
  | refl => simp
  | step hp hd _ ih =>
      have hacc := hp.accounts
      rw [hd.cigarettes] at ih
      simp only [List.map_cons, List.count_cons, beq_iff_eq]
      omega

theorem of_gone (h : Lives k .gone t l q v) :
    q = .gone ∧ (l.map Prod.fst).count (.visited k .served) = 0 ∧
      v.cigarettes.get k = t.cigarettes.get k := by
  generalize hp : Phase.gone = p at h
  induction h with
  | refl => exact ⟨hp ▸ rfl, rfl, rfl⟩
  | step hturn hd _ ih =>
      subst hp
      cases hturn with
      | other h =>
          obtain ⟨hq, hcount, hcig⟩ := ih rfl
          refine ⟨hq, ?_, hcig.trans (UInt64.toNat.inj ?_)⟩
          · simp [hcount, Deed.ne_of_other h (c := .visited k .served) rfl]
          · rw [hd.cigarettes, Deed.counted_of_other h, Nat.add_zero]

theorem statuses (h : Lives k p t l q v) (ht : t.smokers.get k = p.status) :
    (l.map fun e => e.2.smokers.get k).destutter' (· ≠ ·) p.status <+:
      p.rest ((l.map Prod.fst).count (.visited k .served)) := by
  induction h with
  | @refl p _ => cases p <;> exact ⟨_, rfl⟩
  | @step p q _ d t u _ l hp hd h ih =>
      have hu := hp.shows hd ht
      have ih := ih hu
      simp only [List.map_cons, List.count_cons, hu, List.destutter'_cons]
      cases hp with
      | left =>
          rw [h.of_gone.2.1] at ih ⊢
          simpa [Phase.status, Phase.rest, SmokerStatus.life] using ih
      | other hother =>
          simpa [Deed.ne_of_other hother (c := .visited k .served) rfl] using ih
      | served =>
          simpa [Phase.status, Phase.rest, SmokerStatus.life, List.replicate_succ] using ih
      | arrived | lacked | finished => simpa [Phase.status, Phase.rest] using ih
      | returned | rolled | lit => simpa [Phase.status, Phase.rest] using ih

theorem destutter (h : Lives k .fresh t l q v) (ht : t.smokers.get k = .waiting) :
    ∃ n, ((l.map Prod.snd).map (·.smokers.get k)).destutter (· ≠ ·) <+: SmokerStatus.life n := by
  cases h with
  | refl => exact ⟨0, List.nil_prefix⟩
  | @step _ p' _ d _ u _ l hp hd h =>
      have hu := hp.shows hd ht
      have hstatuses := h.statuses hu
      refine ⟨(l.map Prod.fst).count (.visited k .served), ?_⟩
      rw [List.map_cons, List.map_cons, List.destutter_cons', List.map_map, hu]
      cases hp with
      | arrived | other => exact hstatuses

/-- Over a stretch of one status the deeds `c` of smoker `k` are what its phase says. -/
theorem marks {R : Table → Table → Prop} [DecidableRel R] {c : Deed} {weight : Phase → Nat}
    {s : SmokerStatus} (hR : ∀ {d t u}, Deed.Makes d t u → (R t u ↔ d = c))
    (hw : ∀ {p d q}, Phase.Turn k p d q → p.status = q.status →
      (if d = c then 1 else 0) + weight p = weight q)
    (h : Lives k p t l q v) (ht : t.smokers.get k = p.status)
    (hs : ∀ u ∈ t :: l.map Prod.snd, u.smokers.get k = s) :
    Table.changes R (t :: l.map Prod.snd) + weight p = weight q := by
  induction h with
  | refl => simp
  | step hp hd _ ih =>
      have hu := hp.shows hd ht
      have hstay := hw hp (by rw [← ht, ← hu, hs _ (by simp), hs _ (by simp)])
      have hrest := ih hu fun w hw => hs w (List.mem_cons_of_mem _ hw)
      simp only [List.map_cons, Table.changes_cons_cons, hR hd]
      omega

/-- A stretch of a life that begins with nothing taken and nothing counted is a life that begins
so; what comes after the stretch is the next turn. -/
theorem stretch {s : SmokerStatus} {seg rest : List Table} (h : Lives k p t l q v)
    (ht : t.smokers.get k = p.status) (hp : p.hasTaken = 0 ∧ p.hasCounted = 0)
    (hseg : Stretch k s (t :: l.map Prod.snd) seg rest) :
    ∃ p₁ q₁ u w l₁, Lives k p₁ u l₁ q₁ w ∧ seg = u :: l₁.map Prod.snd ∧
      u.smokers.get k = p₁.status ∧ q₁.status = s ∧ p₁.hasTaken = 0 ∧ p₁.hasCounted = 0 ∧
      ∀ x ∈ rest.head?, ∃ d q₂, Phase.Turn k q₁ d q₂ ∧ x.smokers.get k = q₂.status := by
  obtain ⟨before, hlog, hbefore⟩ := hseg.within
  obtain ⟨u, seg, rfl⟩ := List.exists_cons_of_ne_nil hseg.ne_nil
  have hus : u.smokers.get k = s := hseg.shows u (by simp)
  -- The stretch begins where the life begins, or with a turn to another status.
  have hentry : ∃ p₁ m, Lives k p₁ u m q v ∧ m.map Prod.snd = seg ++ rest ∧
      u.smokers.get k = p₁.status ∧ p₁.hasTaken = 0 ∧ p₁.hasCounted = 0 := by
    rcases before.eq_nil_or_concat' with rfl | ⟨before, w, rfl⟩
    · obtain ⟨rfl, hl⟩ : t = u ∧ l.map Prod.snd = seg ++ rest := by simpa using hlog
      exact ⟨p, l, h, hl, ht, hp⟩
    · obtain ⟨l₁, l₂, m, -, hl₂, hm, hm'⟩ := h.split before (u :: (seg ++ rest)) w
        (by simpa using hlog)
      have hw := hm.shows ht
      cases hm' with
      | refl => cases hl₂
      | step hturn hd hm' =>
          obtain ⟨rfl, hafter⟩ : _ = u ∧ _ = seg ++ rest := by simpa using hl₂
          have hu := hturn.shows hd hw
          have hne : w.smokers.get k ≠ s := hbefore w (by simp)
          exact ⟨_, _, hm', hafter, hu, hturn.enters (by rw [← hw, ← hu, hus]; exact hne)⟩
  obtain ⟨p₁, m, hm, hmap, hu, hp₁⟩ := hentry
  obtain ⟨init, w, hinit⟩ : ∃ init w, u :: seg = init ++ [w] :=
    (List.eq_nil_or_concat' (u :: seg)).resolve_left (by simp)
  obtain ⟨l₁, l₂, q₁, hl₁, hl₂, hm₁, hm₂⟩ := hm.split init rest w
    (by rw [hmap, ← List.cons_append, hinit]; simp)
  have hw := hm₁.shows hu
  have hws : w.smokers.get k = s := hseg.shows w (by rw [hinit]; simp)
  refine ⟨p₁, q₁, u, w, l₁, hm₁, hinit.trans hl₁.symm, hu, hw.symm.trans hws, hp₁.1, hp₁.2, ?_⟩
  cases hm₂ with
  | refl => simp [← hl₂]
  | step hturn hd hm₂ =>
      rintro x hx
      obtain rfl : _ = x := by simpa [← hl₂] using hx
      exact ⟨_, _, hturn, hturn.shows hd hw⟩

end Lives

end CigaretteSmokers
