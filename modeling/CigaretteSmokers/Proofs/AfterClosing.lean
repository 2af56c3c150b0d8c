import CigaretteSmokers.Proofs.LifeCycle

/-!
What may still happen once the factory is closing: nothing is laid out or taken any more, the smokers
that have taken their ingredients smoke one last cigarette, and all of them leave.
-/

namespace CigaretteSmokers

open Event (entries snapshots servings)

/-- Smoker `k` has taken its ingredients and not counted the cigarette. -/
def Owes (es : List Event) (t : Table) (k : Ingredient) : Prop :=
  servings es k = (t.cigarettes.get k).toNat + 1

instance (es : List Event) (t : Table) (k : Ingredient) : Decidable (Owes es t k) :=
  inferInstanceAs (Decidable (_ = _))

/-- What a smoker has still to show when the factory closes, this status first. -/
def SmokerStatus.remaining (owes : Prop) [Decidable owes] : SmokerStatus → List SmokerStatus
  | .waiting => if owes then [.waiting, .rolling, .smoking, .waiting, .closing] else [.waiting, .closing]
  | .rolling => [.rolling, .smoking, .waiting, .closing]
  | .smoking => [.smoking, .waiting, .closing]
  | .closing => [.closing]

namespace Phase

theorem rest_zero (p : Phase) : p.rest 0 = SmokerStatus.remaining (p.uncounted = 1) p.status := by
  cases p <;> rfl

theorem uncounted_le (p : Phase) : p.uncounted ≤ 1 := by
  cases p <;> decide

theorem eq_gone {p : Phase} (h : p.status = .closing) : p = .gone := by
  cases p <;> first | rfl | cases h

end Phase

namespace Lives

variable {k : Ingredient} {p q : Phase} {t v : Table} {l : List (Deed × Table)}

theorem owes_iff {es : List Event} (h : Lives k .fresh .initial (entries es) p t) :
    Owes es t k ↔ p.uncounted = 1 := by
  have hacc := h.accounts
  rw [← Event.servings_eq_count] at hacc
  have hzero : (Table.initial.cigarettes.get k).toNat = 0 := by cases k <;> rfl
  have hfresh : Phase.fresh.uncounted = 0 := rfl
  unfold Owes
  omega

theorem cigarettes_le (h : Lives k p t l q v) :
    (t.cigarettes.get k).toNat ≤ (v.cigarettes.get k).toNat := by
  induction h with
  | refl => exact le_rfl
  | step _ hd _ ih =>
      rw [hd.cigarettes] at ih
      exact (Nat.le_add_right _ _).trans ih

/-- A smoker that is not served any more counts at most the cigarette under way. -/
theorem counts_last (h : Lives k p t l q v) (hserv : (l.map Prod.fst).count (.visited k .served) = 0) :
    v.cigarettes.get k = t.cigarettes.get k ∨ p.uncounted = 1 ∧ Table.Counts k t v := by
  have hacc := h.accounts
  rw [hserv] at hacc
  have hone := p.uncounted_le
  rcases Nat.eq_or_lt_of_le h.cigarettes_le with heq | hlt
  · exact .inl (UInt64.toNat.inj heq.symm)
  · refine .inr ⟨by omega, ?_⟩
    unfold Table.Counts
    omega

theorem shows_last (h : Lives k p t l q v) (hserv : (l.map Prod.fst).count (.visited k .served) = 0)
    (ht : t.smokers.get k = p.status) :
    ((t :: l.map Prod.snd).map (·.smokers.get k)).destutter (· ≠ ·) <+:
      SmokerStatus.remaining (p.uncounted = 1) (t.smokers.get k) := by
  have hstatuses := h.statuses ht
  rw [hserv, Phase.rest_zero, ← ht] at hstatuses
  rw [List.map_cons, List.destutter_cons', List.map_map]
  exact hstatuses

end Lives

/-- The factory is closing in the table `t` and nothing but the smokers has changed in `t'`. -/
structure Table.StaysClosed (t t' : Table) : Prop where
  closing : t'.closing = true
  agent : t'.agent = t.agent
  ingredients : t'.ingredients = t.ingredients

namespace Deed

variable {d : Deed} {k : Ingredient} {t t' : Table}

/-- A smoker that comes to the table of a closing factory takes nothing. -/
theorem Makes.not_served (h : d.Makes t t') (hc : t.closing = true) (j : Ingredient) :
    d ≠ .visited j .served := by
  rintro rfl
  simp [h.finds.1] at hc

theorem Makes.staysClosed (h : d.Makes t t') (hc : t.closing = true) (hk : d.smoker? = some k) :
    t.StaysClosed t' := by
  have hbrought : ∀ j, d.brought j = 0 := by
    cases d with
    | supplied => cases hk
    | visited i v =>
        cases v with
        | served => exact absurd rfl (h.not_served hc i)
        | closed | lacking => exact fun _ => rfl
    | arrived | rolled | lit | finished | announced | closed => exact fun _ => rfl
  refine ⟨?_, ?_, Trio.ext_get fun j => Int64.toInt_inj.1 (by simp [h.ingredients, hbrought])⟩
  · rw [h.closing, hc]
    cases d <;> rfl
  · rw [h.agent]
    cases d with
    | supplied | announced | closed => cases hk
    | arrived | visited | rolled | lit | finished => rfl

end Deed

namespace Run

variable {L : Type} [StateLog L] {n : Nat} {es fs : List Event} {r u v : Run L}

omit [StateLog L] in
/-- The agent has no more to do at the table of a closing factory. -/
theorem Balanced.smoker_of_closing (hb : Balanced n es r) (hc : r.factory.table.closing = true)
    {a : Actor} {stopFirst : Bool} {sec : Section} (hs : r.section? a stopFirst = some sec) :
    ∃ k, sec.smoker? = some k := by
  cases a with
  | smoker k =>
      simp only [section?] at hs
      split at hs
      · exact ⟨_, Smoker.smoker?_of_section? hs⟩
      · cases hs
  | agent =>
      simp only [section?] at hs
      split at hs
      · rename_i stage hcourse
        have hclosing := hb.closing stage hcourse
        rw [hc] at hclosing
        rcases Agent.section?_eq hs with ⟨k, rfl, -⟩ | ⟨rfl, -⟩ | ⟨rfl, -⟩ <;> cases hclosing
      · cases hs

theorem Balanced.staysClosed_moves (hb : Balanced n es u) (hn : n < UInt64.size)
    (hc : u.factory.table.closing = true) (hm : Moves u fs v) :
    u.factory.table.StaysClosed v.factory.table ∧ ∀ k, servings fs k = 0 := by
  obtain ⟨a, stopFirst, hw⟩ := hb.writes hn hm
  cases hw with
  | nothing hes ht =>
      refine ⟨⟨ht ▸ hc, by rw [ht], by rw [ht]⟩, fun k => ?_⟩
      simp [Event.servings_eq_count, hes]
  | deed ho hd hes =>
      obtain ⟨j, hj⟩ := hb.smoker_of_closing hc ho
      refine ⟨hd.staysClosed hc hj, fun k => ?_⟩
      simp [Event.servings_eq_count, hes, hd.not_served hc k]

theorem Balanced.staysClosed (hb : Balanced n es u) (hn : n < UInt64.size)
    (hc : u.factory.table.closing = true) (h : Reaches u fs v) :
    u.factory.table.StaysClosed v.factory.table ∧ ∀ k, servings fs k = 0 := by
  induction h with
  | refl => exact ⟨⟨hc, rfl, rfl⟩, fun _ => rfl⟩
  | step hr hs ih =>
      obtain ⟨hstays, hserv⟩ := ih
      obtain ⟨hstays', hserv'⟩ := (hb.reaches hr).staysClosed_moves hn hstays.closing hs.moves
      refine ⟨⟨hstays'.closing, hstays'.agent.trans hstays.agent,
        hstays'.ingredients.trans hstays.ingredients⟩, fun k => ?_⟩
      rw [Event.servings_append, hserv, hserv']
  | overtake _ _ ih => exact ih

/-- The agent shows that it is closing the factory as soon as it is. -/
theorem Balanced.agent_of_closing (hb : Balanced n es u) (hn : n < UInt64.size)
    (hu : u.factory.table.closing = true → u.factory.table.agent = .closing) (h : Reaches u fs v) :
    v.factory.table.closing = true → v.factory.table.agent = .closing := by
  induction h with
  | refl => exact hu
  | @step es' fs' w v hr hs ih =>
      intro hc
      have hbw := hb.reaches hr
      by_cases hw : w.factory.table.closing = true
      · exact (hbw.staysClosed_moves hn hw hs.moves).1.agent.trans (ih hw)
      · obtain ⟨a, stopFirst, hwrites⟩ := hbw.writes hn hs.moves
        cases hwrites with
        | nothing _ ht => exact absurd (ht ▸ hc) hw
        | @deed d _ hd =>
            rw [hd.closing] at hc
            cases d with
            | closed => exact hd.agent
            | arrived | visited | rolled | lit | finished | supplied | announced => exact absurd hc hw
  | overtake _ _ ih => exact ih

/-- Nothing begins again once the factory is closing, whatever the log does: the closing, the status
of the agent and the ingredients stay as they are. A smoker counts at most one cigarette more, and
only one that it has taken the ingredients for; it ends that one cycle and leaves, and when it has
left its status and its count stay. -/
theorem still_after_closing (seed rounds : UInt64) (delay : DelayModel) (log : L)
    (hu : (start seed rounds.toNat delay log).Reaches es u) (hc : u.factory.table.closing = true)
    (h : Reaches u fs v) :
    v.factory.table.closing = true ∧ u.factory.table.agent = .closing ∧
    v.factory.table.agent = .closing ∧ v.factory.table.ingredients = u.factory.table.ingredients ∧
    (u.factory.table :: snapshots fs).getLast? = some v.factory.table ∧
    ∀ k, (v.factory.table.cigarettes.get k = u.factory.table.cigarettes.get k ∨
        Owes es u.factory.table k ∧ Table.Counts k u.factory.table v.factory.table) ∧
      ((u.factory.table :: snapshots fs).map (·.smokers.get k)).destutter (· ≠ ·) <+:
        SmokerStatus.remaining (Owes es u.factory.table k) (u.factory.table.smokers.get k) ∧
      (u.factory.table.smokers.get k = .closing →
        v.factory.table.smokers.get k = .closing ∧
          v.factory.table.cigarettes.get k = u.factory.table.cigarettes.get k) := by
  have hn : rounds.toNat < UInt64.size := rounds.toNat_lt_size
  have hb₀ := balanced_start seed rounds.toNat delay log
  have hb := hb₀.reaches hu
  rw [List.nil_append] at hb
  obtain ⟨hstays, hserv⟩ := hb.staysClosed hn hc h
  have hagent := hb₀.agent_of_closing hn (by simp [start, Table.initial]) hu hc
  refine ⟨hstays.closing, hagent, hstays.agent.trans hagent, hstays.ingredients,
    hb.getLast_snapshots hn h, fun k => ?_⟩
  obtain ⟨p, hpast, hp⟩ := hb₀.lives hn hu (stands_start seed _ delay log k)
  obtain ⟨q, hl, -⟩ := hb.lives hn h hp
  have hshows : u.factory.table.smokers.get k = p.status :=
    hpast.shows (show Table.initial.smokers.get k = _ by cases k <;> rfl)
  have hnone := hserv k
  rw [Event.servings_eq_count] at hnone
  rw [← Event.map_snd_entries]
  simp only [hpast.owes_iff]
  refine ⟨hl.counts_last hnone, hl.shows_last hnone hshows, fun hclosed => ?_⟩
  obtain rfl := Phase.eq_gone (hshows.symm.trans hclosed)
  obtain ⟨rfl, -, hcig⟩ := hl.of_gone
  exact ⟨hl.shows hshows, hcig⟩

def closed : List Event × Run Recorder :=
  follow closingTime (start 1 (1 : UInt64).toNat (instant .microseconds) {})

def afterClosing : List Event × Run Recorder := follow parting closed.2

theorem still_after_closing_parted : Owes closed.1 closed.2.factory.table .paper ∧
    closed.2.factory.table.closing = true ∧ afterClosing.2.factory.table.closing = true ∧
    ((closed.2.factory.table :: snapshots afterClosing.1).map (·.smokers.get .paper)).destutter
      (· ≠ ·) = [.waiting, .rolling, .smoking, .waiting, .closing] ∧
    (closed.2.factory.table.cigarettes.get .paper).toNat = 0 ∧
    Table.Counts .paper closed.2.factory.table afterClosing.2.factory.table := by
  have hu : (start 1 (1 : UInt64).toNat (instant .microseconds) ({} : Recorder)).Reaches closed.1 closed.2 :=
    (reaches_follow closingTime _)
  obtain ⟨howes, hc, hstatuses, hzero, hmore⟩ : Owes closed.1 closed.2.factory.table .paper ∧
      closed.2.factory.table.closing = true ∧
      ((closed.2.factory.table :: snapshots afterClosing.1).map (·.smokers.get .paper)).destutter
        (· ≠ ·) = [.waiting, .rolling, .smoking, .waiting, .closing] ∧
      (closed.2.factory.table.cigarettes.get .paper).toNat = 0 ∧
      afterClosing.2.factory.table.cigarettes.get .paper ≠
        closed.2.factory.table.cigarettes.get .paper := by decide +kernel
  obtain ⟨hclosing, -, -, -, -, hk⟩ :=
    still_after_closing 1 1 (instant .microseconds) _ hu hc (reaches_follow parting _)
  exact ⟨howes, hc, hclosing, hstatuses, hzero, ((hk .paper).1.resolve_left hmore).2⟩

end Run

end CigaretteSmokers
