import CigaretteSmokers.Proofs.AfterClosing
import CigaretteSmokers.Proofs.Observing

/-!
Every table that the log is given is the one before it, changed by one transition of one actor: what
each transition changes, and what it comes upon.
-/

namespace CigaretteSmokers

open Event (entries snapshots)
open Observer (refusing)

namespace Deed

/-- The deed, done after the deeds of `past`, takes the table `t` to the next. No smoker comes away
from the table for want of an ingredient. -/
inductive Changes (past : List Deed) (t : Table) : Deed → Table → Prop
  | arrived {k} (hs : t.smokers.get k = .smoking ∨
      t.smokers.get k = .waiting ∧ ∀ d ∈ past, d.smoker? ≠ some k) :
      Changes past t (.arrived k) { t with smokers := t.smokers.set k .waiting }
  | rolled {k} (hs : t.smokers.get k = .waiting) :
      Changes past t (.rolled k) { t with smokers := t.smokers.set k .rolling }
  | lit {k} (hs : t.smokers.get k = .rolling) :
      Changes past t (.lit k) { t with smokers := t.smokers.set k .smoking }
  | left {k} (hs : t.smokers.get k = .waiting) (hc : t.closing = true) :
      Changes past t (.visited k .closed) { t with smokers := t.smokers.set k .closing }
  | served {k} (hs : t.smokers.get k = .waiting) (ho : t.closing = false)
      (hi : ∀ i, i ≠ k → 1 ≤ (t.ingredients.get i).toInt) :
      Changes past t (.visited k .served) { t with
        ingredients := .ofFn fun i => t.ingredients.get i - if i = k then 0 else 1 }
  | finished {k} (hs : t.smokers.get k = .smoking)
      (hn : (t.cigarettes.get k).toNat + 1 < UInt64.size) :
      Changes past t (.finished k) { t with
        cigarettes := t.cigarettes.set k (t.cigarettes.get k + 1) }
  | supplied {k} (hi : t.ingredients = .replicate 0) (ho : t.closing = false) :
      Changes past t (.supplied k) { t with
        agent := .preparing
        ingredients := .ofFn fun i => if i = k then 0 else 1 }
  | announced (ho : t.closing = false) :
      Changes past t .announced { t with agent := .waiting }
  | closed (ho : t.closing = false) :
      Changes past t .closed { t with closing := true, agent := .closing }

namespace Makes

variable {d : Deed} {t u : Table} {k : Ingredient}

/-- A deed leaves no choice of the table that follows. -/
theorem eq_of_amounts (h : d.Makes t u) {stock : Trio Int64} {count : Trio UInt64}
    (hi : ∀ j, stock.get j = .ofInt ((t.ingredients.get j).toInt + d.brought j))
    (hc : ∀ j, count.get j = .ofNat ((t.cigarettes.get j).toNat + d.counted j)) :
    u = {
      ingredients := stock
      smokers := d.smokersAfter t.smokers
      cigarettes := count
      agent := d.agentAfter t.agent
      closing := d.closingAfter t.closing } := by
  apply Table.ext_get
  · intro j
    rw [hi, ← h.ingredients, Int64.ofInt_toInt]
  · intro j
    rw [h.smokers]
  · intro j
    rw [hc, ← h.cigarettes, UInt64.ofNat_toNat]
  · exact h.agent
  · exact h.closing

/-- A deed that brings and counts nothing changes no more than what it shows. -/
theorem eq_of_quiet (h : d.Makes t u) (hb : ∀ j, d.brought j = 0) (hc : ∀ j, d.counted j = 0) :
    u = { t with
      smokers := d.smokersAfter t.smokers
      agent := d.agentAfter t.agent
      closing := d.closingAfter t.closing } :=
  h.eq_of_amounts (by simp [hb]) (by simp [hc])

theorem eq_served (h : (visited k .served).Makes t u) : u = { t with
    ingredients := .ofFn fun i => t.ingredients.get i - if i = k then 0 else 1 } := by
  refine h.eq_of_amounts (fun j => ?_) fun j => by simp [counted]
  by_cases hj : j = k
  · simp [brought, hj]
  · simp [brought, hj, Int64.sub_eq_add_neg]

theorem eq_supplied (h : (supplied k).Makes t u) (ht : t.ingredients = .replicate 0) : u = { t with
    agent := .preparing
    ingredients := .ofFn fun i => if i = k then 0 else 1 } := by
  refine h.eq_of_amounts (fun j => ?_) fun j => by simp [counted]
  by_cases hj : j = k
  · simp [brought, hj, ht]
  · simp [brought, hj, ht]

theorem eq_finished (h : (finished k).Makes t u) :
    (t.cigarettes.get k).toNat + 1 < UInt64.size ∧
      u = { t with cigarettes := t.cigarettes.set k (t.cigarettes.get k + 1) } := by
  have hk := h.cigarettes k
  have hlt := (u.cigarettes.get k).toNat_lt_size
  simp only [counted, if_true] at hk
  refine ⟨by omega, h.eq_of_amounts (fun j => by simp [brought]) fun j => ?_⟩
  by_cases hj : j = k
  · simp [counted, hj, UInt64.ofNat_add]
  · simp [counted, hj]

end Makes

end Deed

/-- A smoker that has not come yet has done nothing. -/
theorem Lives.of_fresh {k : Ingredient} {p q : Phase} {t u : Table} {l : List (Deed × Table)}
    (h : Lives k p t l q u) (hq : q = .fresh) :
    p = .fresh ∧ ∀ d ∈ l.map Prod.fst, d.smoker? ≠ some k := by
  induction h with
  | refl => exact ⟨hq, by simp⟩
  | step hp _ _ ih =>
      obtain ⟨rfl, hl⟩ := ih hq
      cases hp with
      | other h =>
          refine ⟨rfl, fun c hc => ?_⟩
          rw [List.map_cons, List.mem_cons] at hc
          rcases hc with rfl | hc
          · exact h
          · exact hl c hc

theorem Phase.Turn.changes {k : Ingredient} {p q : Phase} {past : List Deed} {d : Deed}
    {t u : Table} (h : p.Turn k d q) (hd : d.Makes t u) (hk : d.smoker? = some k)
    (hs : t.smokers.get k = p.status) (hnew : p = .fresh → ∀ c ∈ past, c.smoker? ≠ some k)
    (hfound : ∀ i, d ≠ .visited k (.lacking i)) : d.Changes past t u := by
  cases h with
  | arrived =>
      rw [hd.eq_of_quiet (fun _ => rfl) fun _ => rfl]
      exact .arrived (.inr ⟨hs, hnew rfl⟩)
  | returned =>
      rw [hd.eq_of_quiet (fun _ => rfl) fun _ => rfl]
      exact .arrived (.inl hs)
  | served =>
      rw [hd.eq_served]
      exact .served hs hd.finds.1 hd.finds.2
  | @lacked i => exact absurd rfl (hfound i)
  | left =>
      rw [hd.eq_of_quiet (fun _ => rfl) fun _ => rfl]
      exact .left hs hd.finds
  | rolled =>
      rw [hd.eq_of_quiet (fun _ => rfl) fun _ => rfl]
      exact .rolled hs
  | lit =>
      rw [hd.eq_of_quiet (fun _ => rfl) fun _ => rfl]
      exact .lit hs
  | finished =>
      obtain ⟨hn, hu⟩ := hd.eq_finished
      rw [hu]
      exact .finished hs hn
  | other h => exact absurd hk h

namespace Run

variable {L : Type} {n : Nat} {es fs : List Event} {r u v : Run L} {d : Deed} {t : Table}

theorem Balanced.agent_changes (hb : Balanced n es r) {past : List Deed} {stopFirst : Bool}
    (hs : r.section? .agent stopFirst = some d.origin) (hd : d.Makes r.factory.table t) :
    d.Changes past r.factory.table t := by
  simp only [section?] at hs
  split at hs
  · rename_i stage hc
    have hclosing := hb.closing stage hc
    rcases Agent.section?_eq hs with ⟨k, rfl, ho⟩ | ⟨rfl, ho⟩ | ⟨rfl, ho⟩
    · obtain rfl : d = .supplied k := by cases d <;> simp_all [Deed.origin]
      have hempty : r.factory.table.ingredients = .replicate 0 := by
        apply Trio.ext_get
        intro j
        rw [Trio.get_replicate]
        exact Int64.toInt_inj.1 (hb.stock_of_supplying hc j)
      rw [hd.eq_supplied hempty]
      exact .supplied hempty hclosing
    · obtain rfl : d = .announced := by cases d <;> simp_all [Deed.origin]
      rw [hd.eq_of_quiet (fun _ => rfl) fun _ => rfl]
      exact .announced hclosing
    · obtain rfl : d = .closed := by cases d <;> simp_all [Deed.origin]
      rw [hd.eq_of_quiet (fun _ => rfl) fun _ => rfl]
      exact .closed hclosing
  · cases hs

theorem Balanced.smoker_changes (hb : Balanced n es r) {k : Ingredient} {p : Phase}
    {stopFirst : Bool} (hl : Lives k .fresh .initial (entries es) p r.factory.table) (hp : r.Stands k p)
    (hs : r.section? (.smoker k) stopFirst = some d.origin) (hd : d.Makes r.factory.table t) :
    d.Changes ((entries es).map Prod.fst) r.factory.table t := by
  simp only [section?] at hs
  split at hs
  · rename_i stage hc
    obtain ⟨q, hturn⟩ := (hp stage hc).turn hs
    have hk := Smoker.smoker?_of_section? hs
    rw [hb.holds k] at hturn hk
    have hstart : Table.initial.smokers.get k = Phase.fresh.status := by cases k <;> rfl
    refine hturn.changes hd hk (hl.shows hstart) ?_ ?_
    · intro hfresh
      exact (hl.of_fresh hfresh).2
    · rintro i rfl
      -- A smoker is called to what has been laid out for it, and nobody else takes that.
      obtain ⟨hopen, hi, hlt⟩ := hd.finds
      rcases Smoker.section?_eq hs with ⟨-, ho⟩ | ⟨rfl, -⟩ | ⟨-, ho⟩ | ⟨-, ho⟩ | ⟨-, ho⟩
      case inr.inl => exact absurd (hb.not_lacking hc hopen hi) (by omega)
      all_goals cases ho
  · cases hs

theorem Balanced.changes (hb : Balanced n es r) {a : Actor} {stopFirst : Bool}
    (hl : ∀ k, ∃ p, Lives k .fresh .initial (entries es) p r.factory.table ∧ r.Stands k p)
    (hs : r.section? a stopFirst = some d.origin) (hd : d.Makes r.factory.table t) :
    d.Changes ((entries es).map Prod.fst) r.factory.table t := by
  cases a with
  | smoker k =>
      obtain ⟨p, hl, hp⟩ := hl k
      exact hb.smoker_changes hl hp hs hd
  | agent => exact hb.agent_changes hs hd

variable [StateLog L]

/-- The log is written by one actor at a time: in every run, whatever the log makes of it, each table
that the log is given is the one given before it, at first the initial table, changed by one
transition of one actor. -/
theorem single_writer (seed rounds : UInt64) (delay : DelayModel) (log : L) {r : Run (Tapped L)}
    (h : (start seed rounds.toNat delay ⟨[], log⟩).Reaches es r) :
    r.factory.log.given.map Prod.snd = (entries es).map Prod.snd ∧
    ∀ before d u after, entries es = before ++ (d, u) :: after →
      d.Changes (before.map Prod.fst) ((before.map Prod.snd).getLastD .initial) u := by
  have hb := balanced_start seed rounds.toNat delay (⟨[], log⟩ : Tapped L)
  have hn := rounds.toNat_lt_size
  refine ⟨by rw [Event.map_snd_entries, h.given]; rfl, ?_⟩
  induction h with
  | refl => simp
  | @step es fs r r' hr hs ih =>
      intro before d u after hsplit
      obtain ⟨a, stopFirst, hw⟩ := (hb.reaches hr).writes hn hs.moves
      rw [Event.entries_append] at hsplit
      cases hw with
      | nothing hes =>
          rw [hes, List.append_nil] at hsplit
          exact ih before d u after hsplit
      | deed ho hd hes =>
          rw [hes] at hsplit
          rcases after.eq_nil_or_concat' with rfl | ⟨after, e, rfl⟩
          · obtain ⟨rfl, hlast⟩ := List.append_inj' hsplit rfl
            obtain ⟨rfl, rfl⟩ : _ = d ∧ _ = u := by simpa using hlast
            have htable : (snapshots es).getLastD .initial = r.factory.table := by
              simpa [start, List.getLast?_cons] using hb.getLast_snapshots hn hr
            rw [Event.map_snd_entries, htable]
            have hlives := fun k => hb.lives hn hr (stands_start seed _ delay _ k)
            exact (hb.reaches hr).changes hlives ho hd
          · rw [← List.cons_append, ← List.append_assoc] at hsplit
            exact ih before d u after (List.append_inj' hsplit rfl).1
  | overtake _ _ ih => exact ih

/-- The agent lays out for the holder of paper, who comes; the log refuses to record this. -/
def snubbed : List Event × Run (Tapped Recorder) :=
  follow [.act .agent false, .act (.smoker .paper) false] (drawn ⟨[], refusing⟩)

theorem single_writer_snubbed :
    snubbed.2.factory.log.given.length = 2 ∧ snubbed.2.factory.log.log.size = 1 ∧
    ∃ t u, snubbed.2.factory.log.given.map Prod.snd = [t, u] ∧
      Deed.Changes [.supplied .paper] t (.arrived .paper) u := by
  obtain ⟨hgiven, hchanges⟩ := single_writer 1 1 {} refusing
    (reaches_drawn (⟨[], refusing⟩ : Tapped Recorder)
      [.act .agent false, .act (.smoker .paper) false])
  obtain ⟨t, u, hentries⟩ :
      ∃ t u, entries snubbed.1 = [(.supplied .paper, t), (.arrived .paper, u)] := ⟨_, _, rfl⟩
  refine ⟨by decide +kernel, by decide +kernel, t, u, ?_, ?_⟩
  · exact hgiven.trans (congrArg _ hentries)
  · exact hchanges [(.supplied .paper, t)] (.arrived .paper) u [] hentries

end Run

end CigaretteSmokers
