import CigaretteSmokers.Log.Recorder
import CigaretteSmokers.Proofs.RunSteps

/-!
Nothing is lost and nothing appears: what lies on the table is what has been laid out and not yet
taken, and every call, cigarette and notice has its one supply.
-/

namespace CigaretteSmokers

namespace Event

/-- How often the agent has laid out for `k`. -/
def supplies (es : List Event) (k : Ingredient) : Nat := times (.supplied k) es

/-- How often `k` has taken what lay there for it. -/
def servings (es : List Event) (k : Ingredient) : Nat := times (.visited k .served) es

def untaken (es : List Event) (k : Ingredient) : Int := supplies es k - servings es k

@[simp] theorem supplies_append (es fs : List Event) (k : Ingredient) :
    supplies (es ++ fs) k = supplies es k + supplies fs k := times_append _ _ _

@[simp] theorem servings_append (es fs : List Event) (k : Ingredient) :
    servings (es ++ fs) k = servings es k + servings fs k := times_append _ _ _

@[simp] theorem untaken_append (es fs : List Event) (k : Ingredient) :
    untaken (es ++ fs) k = untaken es k + untaken fs k := by
  simp only [untaken, supplies_append, servings_append]
  omega

theorem sum_untaken (es : List Event) :
    ∑ k, untaken es k = (∑ k, supplies es k : Nat) - (∑ k, servings es k : Nat) := by
  simp [untaken]

end Event

open Event (supplies servings untaken supplies_append servings_append untaken_append sum_untaken)

namespace Run

variable {L : Type}

def Sound (r : Run L) : Prop :=
  (∃ stage, r.agent.course = .ok stage) ∧ ∀ k, ∃ stage, (r.smokers.get k).course = .ok stage

theorem Sound.of_smoker {r r' : Run L} {k : Ingredient} {s : Smoker} {stage : Smoker.Stage}
    {course : Except Failure Smoker.Stage} (h : r'.Sound) (ha : r'.agent = r.agent)
    (hs : r'.smokers = r.smokers.set k { smoker := s, course })
    (hc : (r.smokers.get k).course = .ok stage) : r.Sound ∧ ∃ next, course = .ok next := by
  refine ⟨⟨ha ▸ h.1, fun j => ?_⟩, ?_⟩
  · by_cases hj : j = k
    · subst hj
      exact ⟨stage, hc⟩
    · simpa [hs, hj] using h.2 j
  · simpa [hs] using h.2 k

theorem Sound.of_agent {r r' : Run L} {stage : Agent.Stage} (h : r'.Sound)
    (hs : r'.smokers = r.smokers) (hc : r.agent.course = .ok stage) : r.Sound :=
  ⟨⟨stage, hc⟩, hs ▸ h.2⟩

/-- The books of a run of `n` rounds. An actor that fails may lose a permit that it had in hand or
owed, so two of them balance only while nobody has failed. -/
structure Balanced (n : Nat) (es : List Event) (r : Run L) : Prop where
  holds : ∀ k, (r.smokers.get k).smoker.holds = k
  rounds : r.agent.agent.rounds = n
  served : ∀ k, servings es k ≤ supplies es k
  calls : ∀ k, tally (Agent.Stage.calls k) r.agent.course + (r.factory.ready.get k).permits +
    tally Smoker.Stage.called (r.smokers.get k).course +
    tally Smoker.Stage.departed (r.smokers.get k).course + servings es k ≤
      supplies es k + tally (Agent.Stage.released k) r.agent.course
  notices : r.agent.agent.summary.rounds + r.factory.cigarette.permits +
    ∑ k, tally Smoker.Stage.untold (r.smokers.get k).course ≤ ∑ k, servings es k
  expects : Agent.Expects r.agent.agent.summary.rounds n (∑ k, supplies es k) r.agent.course
  closing : ∀ stage, r.agent.course = .ok stage → r.factory.table.closing = stage.hasClosed
  gone : ∀ k, (r.smokers.get k).course = .ok .gone → r.factory.table.closing = true
  stock : ∀ j, (r.factory.table.ingredients.get j).toInt = ∑ k with k ≠ j, untaken es k
  counted : ∀ k, (r.factory.table.cigarettes.get k).toNat +
    tally Smoker.Stage.uncounted (r.smokers.get k).course ≤ servings es k
  counted_exact : ∀ k stage, (r.smokers.get k).course = .ok stage →
    (r.factory.table.cigarettes.get k).toNat + stage.uncounted = servings es k
  uncounted : ∀ k, servings es k ≤ (r.factory.table.cigarettes.get k).toNat + 1
  calls_exact : r.Sound → ∀ k, tally (Agent.Stage.calls k) r.agent.course +
    (r.factory.ready.get k).permits + tally Smoker.Stage.called (r.smokers.get k).course +
    tally Smoker.Stage.departed (r.smokers.get k).course + servings es k =
      supplies es k + tally (Agent.Stage.released k) r.agent.course
  notices_exact : r.Sound → r.agent.agent.summary.rounds + r.factory.cigarette.permits +
    ∑ k, tally Smoker.Stage.untold (r.smokers.get k).course = ∑ k, servings es k

theorem balanced_start (seed : UInt64) (n : Nat) (delay : DelayModel) (log : L) :
    Balanced n [] (start seed n delay log) := by
  constructor <;> simp [start, servings, supplies, untaken, Agent.Expects, Agent.Stage.calls,
    Agent.Stage.released, Agent.Stage.hasClosed, Smoker.Stage.called, Smoker.Stage.departed,
    Smoker.Stage.untold, Smoker.Stage.uncounted, Semaphore.permits, Table.initial]

namespace Balanced

section

variable {n : Nat} {es : List Event} {r : Run L}

/-- At most one supply lies on the table. -/
theorem supplies_le (h : Balanced n es r) : ∑ k, supplies es k ≤ ∑ k, servings es k + 1 := by
  have hn := h.notices
  have he := h.expects
  unfold Agent.Expects at he
  split at he <;> omega

theorem supplies_le_rounds (h : Balanced n es r) : ∑ k, supplies es k ≤ n := by
  have he := h.expects
  unfold Agent.Expects at he
  split at he <;> omega

theorem servings_le_supplies (h : Balanced n es r) : ∑ k, servings es k ≤ ∑ k, supplies es k :=
  Finset.sum_le_sum fun k _ => h.served k

theorem untaken_nonneg (h : Balanced n es r) (k : Ingredient) : 0 ≤ untaken es k := by
  have := h.served k
  simp only [untaken]
  omega

theorem sum_untaken_le (h : Balanced n es r) : ∑ k, untaken es k ≤ 1 := by
  have := h.supplies_le
  rw [sum_untaken]
  omega

theorem untaken_le (h : Balanced n es r) (k : Ingredient) : untaken es k ≤ 1 :=
  (Finset.single_le_sum (fun j _ => h.untaken_nonneg j) (Finset.mem_univ k)).trans h.sum_untaken_le

theorem stock_of_supplying (h : Balanced n es r) {k : Ingredient}
    (hc : r.agent.course = .ok (.supplying k)) (j : Ingredient) :
    (r.factory.table.ingredients.get j).toInt = 0 := by
  have he := h.expects
  have hn := h.notices
  have hs := h.servings_le_supplies
  rw [hc] at he
  simp only [Agent.Expects] at he
  have hzero : ∑ k, untaken es k = 0 := by
    rw [sum_untaken]
    omega
  rw [h.stock, Finset.sum_eq_zero]
  intro i _
  exact (Finset.sum_eq_zero_iff_of_nonneg fun j _ => h.untaken_nonneg j).1 hzero i (Finset.mem_univ i)

theorem supply_fits (h : Balanced n es r) {k : Ingredient} (hc : r.agent.course = .ok (.supplying k)) :
    (Section.supply k).Fits r.factory.table := by
  intro j _
  rw [h.stock_of_supplying hc]
  decide

theorem cigarettes_le (h : Balanced n es r) (k : Ingredient) :
    (r.factory.table.cigarettes.get k).toNat ≤ servings es k :=
  (Nat.le_add_right _ _).trans (h.counted k)

theorem servings_le_rounds (h : Balanced n es r) : ∑ k, servings es k ≤ n :=
  h.servings_le_supplies.trans h.supplies_le_rounds

theorem finish_fits (h : Balanced n es r) (hn : n < UInt64.size) {k : Ingredient}
    (hc : (r.smokers.get k).course = .ok .finishing) : (Section.finish k).Fits r.factory.table := by
  have hk := h.counted_exact k _ hc
  have hle := Ingredient.le_sum (servings es) k
  have := h.servings_le_rounds
  simp only [Smoker.Stage.uncounted] at hk
  simp only [Section.Fits]
  omega

theorem released_eq_zero (h : Balanced n es r) (hc : r.factory.table.closing = false)
    (k : Ingredient) : tally (Agent.Stage.released k) r.agent.course = 0 := by
  cases hcourse : r.agent.course with
  | error e => rfl
  | ok stage =>
      have hclosed : stage.hasClosed = false := (h.closing stage hcourse).symm.trans hc
      cases stage <;> first | rfl | cases hclosed

theorem smoker (h : Balanced n es r) {k : Ingredient} {a : Actor} {fs : List Event}
    {stage : Smoker.Stage} {course : Except Failure Smoker.Stage} {s : Smoker} {f : Factory Actor L}
    (hc : (r.smokers.get k).course = .ok stage) (hg : stage ≠ .gone) (hs : s.holds = k)
    (he : Smoker.Effect k r.factory f stage course fs) :
    Balanced n (es ++ fs)
      (noteEnd a { r with factory := f, smokers := r.smokers.set k { smoker := s, course } }) := by
  have hsup : ∀ j, supplies fs j = 0 := he.supplied
  have hserv : ∀ j, j ≠ k → servings fs j = 0 := he.served_ne
  have hsum : ∑ j, servings fs j = servings fs k :=
    Finset.sum_eq_single k (fun j _ => hserv j) (by simp)
  have hle : servings fs k ≤ stage.called := he.served_le
  have hdeparted : stage.departed = 0 := by cases stage <;> first | rfl | exact absurd rfl hg
  have htold := r.smokers.sum_set k { smoker := s, course } fun t => tally Smoker.Stage.untold t.course
  simp only [hc, tally_ok] at htold
  have hcalls := h.calls k
  have hcounted := h.counted_exact k stage hc
  simp only [hc, tally_ok] at hcalls
  rw [noteEnd_eq]
  constructor
  all_goals simp only [supplies_append, servings_append, hsup, Nat.add_zero]
  case holds =>
    intro j
    by_cases hj : j = k
    · subst hj; simpa using hs
    · simpa [hj] using h.holds j
  case rounds => exact h.rounds
  case served =>
    intro j
    by_cases hj : j = k
    · subst hj
      -- A smoker is served before the closing only, while nobody has been woken for it.
      rcases Nat.eq_zero_or_pos (servings fs j) with hz | hpos
      · rw [hz]
        exact h.served j
      · have := h.released_eq_zero (he.served_open hpos.ne') j
        omega
    · rw [hserv j hj]
      exact h.served j
  case calls =>
    intro j
    by_cases hj : j = k
    · subst hj
      have := he.permits
      simp only [Trio.get_set_self, servings] at this hcalls ⊢
      omega
    · simpa [he.ready_ne j hj, hserv j hj, hj] using h.calls j
  case notices =>
    have heffect := he.notices
    have hbooks := h.notices
    rw [Finset.sum_add_distrib, hsum]
    simp only [servings] at heffect hbooks ⊢
    omega
  case expects => exact h.expects
  case closing =>
    intro next hn
    rw [he.closing]
    exact h.closing next hn
  case gone =>
    intro j hg
    rw [he.closing]
    by_cases hj : j = k
    · subst hj
      exact he.gone_closing (by simpa using hg)
    · exact h.gone j (by simpa [hj] using hg)
  case stock =>
    intro j
    rw [he.ingredients, h.stock]
    have hfs : ∑ i with i ≠ j, untaken fs i = -if j = k then 0 else (servings fs k : Int) := by
      rw [Ingredient.sum_others, sum_untaken, hsum]
      by_cases hj : j = k
      · simp [hj, untaken, hsup]
      · simp [hj, untaken, hsup, hserv]
    simp only [untaken_append, Finset.sum_add_distrib, hfs, servings, Int.sub_eq_add_neg]
  case counted =>
    intro j
    by_cases hj : j = k
    · subst hj
      have := he.cigarettes
      simp only [Trio.get_set_self, servings] at this hcounted ⊢
      omega
    · simpa [he.cigarettes_ne j hj, hserv j hj, hj] using h.counted j
  case counted_exact =>
    intro j next hn
    by_cases hj : j = k
    · subst hj
      have hcourse : course = .ok next := by simpa using hn
      have := (he.exact ⟨next, hcourse⟩).1
      rw [hcourse, tally_ok] at this
      simp only [servings] at this hcounted ⊢
      omega
    · simpa [he.cigarettes_ne j hj, hserv j hj] using h.counted_exact j next (by simpa [hj] using hn)
  case uncounted =>
    intro j
    by_cases hj : j = k
    · subst hj
      -- A smoker fails with at most one cigarette to count: it does not go back to the table with one.
      have := he.cigarettes_le
      have : stage.called + stage.uncounted ≤ 1 := by
        cases stage <;> simp [Smoker.Stage.called, Smoker.Stage.uncounted]
      omega
    · simpa [he.cigarettes_ne j hj, hserv j hj] using h.uncounted j
  case calls_exact =>
    intro hsound j
    obtain ⟨hr, hnext⟩ := hsound.of_smoker (r := r) rfl rfl hc
    by_cases hj : j = k
    · subst hj
      have heffect := (he.exact hnext).2.1
      have hbooks := h.calls_exact hr j
      simp only [hc, Trio.get_set_self, servings, tally_ok] at heffect hbooks ⊢
      omega
    · simpa [he.ready_ne j hj, hserv j hj, hj] using h.calls_exact hr j
  case notices_exact =>
    intro hsound
    obtain ⟨hr, hnext⟩ := hsound.of_smoker (r := r) rfl rfl hc
    have heffect := (he.exact hnext).2.2
    have hbooks := h.notices_exact hr
    rw [Finset.sum_add_distrib, hsum]
    simp only [servings] at heffect hbooks ⊢
    omega

theorem agent (h : Balanced n es r) {a : Actor} {fs : List Event} {stage : Agent.Stage}
    {course : Except Failure Agent.Stage} {g : Agent} {f : Factory Actor L}
    (hc : r.agent.course = .ok stage) (he : Agent.Effect r.agent.agent g r.factory f stage course fs) :
    Balanced n (es ++ fs) (noteEnd a { r with factory := f, agent := { agent := g, course } }) := by
  have hserv : ∀ j, servings fs j = 0 := he.served
  have hclosing := h.closing stage hc
  have hexpects := h.expects
  rw [hc] at hexpects
  rw [noteEnd_eq]
  constructor
  all_goals simp only [supplies_append, servings_append, hserv, Nat.add_zero, he.cigarettes]
  case holds => exact h.holds
  case rounds => exact he.rounds.trans h.rounds
  case served => exact fun k => (h.served k).trans (Nat.le_add_right _ _)
  case calls =>
    intro k
    have heffect := he.permits k
    have hbooks := h.calls k
    simp only [hc, tally_ok, supplies] at heffect hbooks ⊢
    omega
  case notices =>
    have heffect := he.notices
    have hbooks := h.notices
    omega
  case expects =>
    rw [Finset.sum_add_distrib, ← h.rounds]
    exact he.expects _ (h.rounds ▸ hexpects)
  case closing => exact fun next hn => he.closing next hn hclosing
  case gone => exact fun k hk => he.closing_mono (h.gone k hk)
  case stock =>
    intro j
    have hfs : ∀ k, untaken fs k = Event.times (.supplied k) fs := by
      simp [untaken, hserv, supplies]
    simp only [he.ingredients, h.stock, untaken_append, Finset.sum_add_distrib, hfs]
  case counted => exact h.counted
  case counted_exact => exact h.counted_exact
  case uncounted => exact h.uncounted
  case calls_exact =>
    intro hsound k
    have heffect := (he.exact hsound.1).1 k
    have hbooks := h.calls_exact (hsound.of_agent (r := r) rfl hc) k
    simp only [hc, tally_ok, supplies] at heffect hbooks ⊢
    omega
  case notices_exact =>
    intro hsound
    have heffect := (he.exact hsound.1).2
    have hbooks := h.notices_exact (hsound.of_agent (r := r) rfl hc)
    omega

theorem aside (h : Balanced n es r) {r' : Run L} (ha : r'.agent = r.agent)
    (hs : r'.smokers = r.smokers) (ht : r'.factory.table = r.factory.table)
    (hr : ∀ k, (r'.factory.ready.get k).permits = (r.factory.ready.get k).permits)
    (hq : r'.factory.cigarette.permits = r.factory.cigarette.permits) : Balanced n (es ++ []) r' := by
  have hsound : r'.Sound → r.Sound := fun hr' => ⟨ha ▸ hr'.1, hs ▸ hr'.2⟩
  rw [List.append_nil]
  constructor
  case served => exact h.served
  all_goals simp only [ha, hs, ht, hr, hq]
  case calls_exact => exact fun hr' => h.calls_exact (hsound hr')
  case notices_exact => exact fun hr' => h.notices_exact (hsound hr')
  all_goals first
    | exact h.holds | exact h.rounds | exact h.calls | exact h.notices | exact h.expects
    | exact h.closing | exact h.gone | exact h.stock | exact h.counted | exact h.counted_exact
    | exact h.uncounted

variable [StateLog L]

theorem moves (h : Balanced n es r) {fs : List Event} {r' : Run L} (hm : Moves r fs r') :
    Balanced n (es ++ fs) r' := by
  cases hm with
  | smoker _ hc hg hst =>
      rename_i k _ _ _ _ _
      refine h.smoker hc hg (hst.holds.trans (h.holds k)) ?_
      simpa only [h.holds k] using hst.effect
  | agent _ hc _ hst =>
      -- The agent lays out on an empty table, where it cannot fail half-way.
      refine h.agent hc (hst.effect fun k hk => ?_)
      subst hk
      exact h.supply_fits hc
  | smokerReported | agentReported | stopped | abandoned =>
      exact h.aside rfl rfl rfl (fun _ => rfl) rfl
  | failed =>
      refine h.aside rfl rfl ?_ (fun k => ?_) ?_
      all_goals
        simp only
        split <;> simp [Factory.destroy]

omit [StateLog L] in
theorem overtake (h : Balanced n es r) (order : List Actor) :
    Balanced n es { r with ended := order } := by
  have h' : Balanced n (es ++ []) { r with ended := order } :=
    h.aside rfl rfl rfl (fun _ => rfl) rfl
  rwa [List.append_nil] at h'

theorem reaches (h : Balanced n es r) {fs : List Event} {r' : Run L} (hr : Reaches r fs r') :
    Balanced n (es ++ fs) r' := by
  induction hr with
  | refl => simpa using h
  | step _ hs ih => simpa only [List.append_assoc] using ih.moves hs.moves
  | overtake _ _ ih => exact ih.overtake _

theorem of_start {r₀ : Run L} (h₀ : Balanced n [] r₀) (h : Reaches r₀ es r) : Balanced n es r := by
  simpa only [List.nil_append] using h₀.reaches h

end

section

variable {n : Nat} {es : List Event} {r : Run L}

theorem untaken_cases (h : Balanced n es r) : (∀ k, untaken es k = 0) ∨
    ∃ k, untaken es k = 1 ∧ ∀ j, j ≠ k → untaken es j = 0 := by
  by_cases hz : ∃ k, untaken es k ≠ 0
  · obtain ⟨k, hk⟩ := hz
    have hone : untaken es k = 1 := by
      have := h.untaken_nonneg k
      have := h.untaken_le k
      omega
    refine .inr ⟨k, hone, fun j hj => ?_⟩
    have hsum := h.sum_untaken_le
    have hothers := Ingredient.sum_others (untaken es) k
    have hle : untaken es j ≤ ∑ i with i ≠ k, untaken es i :=
      Finset.single_le_sum (fun i _ => h.untaken_nonneg i) (by simpa using hj)
    have := h.untaken_nonneg j
    omega
  · exact .inl fun k => not_not.1 fun hk => hz ⟨k, hk⟩

theorem stock_cases (h : Balanced n es r) : (∀ j, r.factory.table.ingredients.get j = 0) ∨
    ∃ k, untaken es k = 1 ∧ r.factory.table.ingredients.get k = 0 ∧
      r.factory.table.ingredients.get k.needs.1 = 1 ∧
      r.factory.table.ingredients.get k.needs.2 = 1 := by
  rcases h.untaken_cases with hz | ⟨k, hk, hz⟩
  · refine .inl fun j => Int64.toInt_inj.1 ?_
    rw [h.stock, Finset.sum_eq_zero fun k _ => hz k]
    rfl
  · have hsum : ∑ i, untaken es i = 1 := by
      rw [Finset.sum_eq_single k (fun i _ => hz i) (by simp), hk]
    obtain ⟨hne₁, hne₂, -⟩ := k.needs_ne
    refine .inr ⟨k, hk, ?_, ?_, ?_⟩
    all_goals rw [← Int64.toInt_inj, h.stock, Ingredient.sum_others, hsum]
    · rw [hk]; rfl
    · rw [hz _ hne₁]; rfl
    · rw [hz _ hne₂]; rfl

theorem action_total (h : Balanced n es r) (hn : n < UInt64.size) {a : Actor} {stopFirst : Bool}
    {sec : Section} (hsec : r.section? a stopFirst = some sec) :
    ∃ d t, sec.action r.factory.table = .ok d t := by
  apply Section.action_total
  cases a with
  | smoker k =>
      simp only [section?] at hsec
      split at hsec
      · rename_i stage hc
        rcases Smoker.section?_eq hsec with ⟨-, rfl⟩ | ⟨-, rfl⟩ | ⟨-, rfl⟩ | ⟨-, rfl⟩ | ⟨rfl, rfl⟩
        case inr.inr.inr.inr =>
          rw [h.holds k]
          exact h.finish_fits hn hc
        all_goals exact trivial
      · cases hsec
  | agent =>
      simp only [section?] at hsec
      split at hsec
      · rename_i stage hc
        rcases Agent.section?_eq hsec with ⟨k, rfl, rfl⟩ | ⟨-, rfl⟩ | ⟨-, rfl⟩
        · exact h.supply_fits hc
        all_goals exact trivial
      · cases hsec

theorem sum_cigarettes_le (h : Balanced n es r) :
    ∑ k, (r.factory.table.cigarettes.get k).toNat ≤ n :=
  (Finset.sum_le_sum fun k _ => h.cigarettes_le k).trans h.servings_le_rounds

end

end Balanced

/-- What the actors count of themselves is no more than what has come of it. -/
structure Modest (es : List Event) (r : Run L) : Prop where
  smoked : ∀ k, (r.smokers.get k).smoker.smoked ≤ (r.factory.table.cigarettes.get k).toNat
  supplied : ∀ k, r.agent.agent.summary.supplied.get k ≤ supplies es k

theorem modest_start (seed : UInt64) (n : Nat) (delay : DelayModel) (log : L) :
    Modest [] (start seed n delay log) := by
  constructor <;> simp [start]

variable [StateLog L]

theorem Modest.moves {n : Nat} {es fs : List Event} {r r' : Run L} (h : Modest es r)
    (hb : Balanced n es r) (hm : Moves r fs r') : Modest (es ++ fs) r' := by
  cases hm with
  | @smoker k _ _ _ _ _ _ hc _ hst =>
      have hsmoked := hst.smoked_le
      have hothers := hst.effect.cigarettes_ne
      have hnone := hst.effect.supplied
      rw [hb.holds k] at hsmoked hothers
      rw [noteEnd_eq]
      refine ⟨fun j => ?_, fun j => (h.supplied j).trans (by simp)⟩
      by_cases hj : j = k
      · subst hj
        have := h.smoked j
        simp only [Trio.get_set_self]
        omega
      · simpa only [Trio.get_set_of_ne _ _ hj, hothers j hj] using h.smoked j
  | agent _ hc _ hst =>
      have heff := hst.effect fun k hk => hb.supply_fits (hk ▸ hc)
      rw [noteEnd_eq]
      refine ⟨fun k => ?_, fun k => ?_⟩
      · simpa only [heff.cigarettes] using h.smoked k
      · rw [supplies_append]
        exact (hst.supplied_le k).trans (Nat.add_le_add_right (h.supplied k) _)
  | smokerReported | agentReported | stopped | abandoned =>
      rw [List.append_nil]
      exact ⟨h.smoked, h.supplied⟩
  | failed =>
      rw [List.append_nil]
      refine ⟨fun k => ?_, h.supplied⟩
      simp only
      split <;> exact h.smoked k

theorem Modest.of_start {n : Nat} {es : List Event} {r₀ r : Run L} (h₀ : Modest [] r₀)
    (hb : Balanced n [] r₀) (h : Reaches r₀ es r) : Modest es r := by
  induction h with
  | refl => exact h₀
  | step hr hs ih => exact ih.moves (hb.of_start hr) hs.moves
  | overtake _ _ ih => exact ⟨ih.smoked, ih.supplied⟩

/-- No actor counts beyond the number of rounds, so that what each counts of itself fits in 64 bits. -/
theorem counts_le_rounds (seed rounds : UInt64) (delay : DelayModel) (log : L) {es : List Event}
    {r : Run L} (h : (start seed rounds.toNat delay log).Reaches es r) :
    r.agent.agent.summary.rounds ≤ rounds.toNat ∧
    (∀ k, r.agent.agent.summary.supplied.get k ≤ rounds.toNat) ∧
    ∀ k, (r.smokers.get k).smoker.smoked ≤ rounds.toNat := by
  have hb₀ := balanced_start seed rounds.toNat delay log
  have hb := hb₀.of_start h
  have hm := (modest_start seed rounds.toNat delay log).of_start hb₀ h
  have hsupplies := hb.supplies_le_rounds
  have hservings := hb.servings_le_rounds
  refine ⟨?_, fun k => ?_, fun k => ?_⟩
  · have := hb.notices
    omega
  · exact (hm.supplied k).trans ((Ingredient.le_sum _ k).trans hsupplies)
  · exact (hm.smoked k).trans ((hb.cigarettes_le k).trans ((Ingredient.le_sum _ k).trans hservings))

/-- Supply is conserved: in every state that a run of up to 2⁶⁴ - 1 rounds can reach, whatever the
log does, the table holds what has been laid out and not yet taken, which is nothing or one supply,
every cigarette but the one under way is counted, and no count can overflow. -/
theorem supply_conserved (seed rounds : UInt64) (delay : DelayModel) (log : L) {es : List Event}
    {r : Run L} (h : (start seed rounds.toNat delay log).Reaches es r) :
    (∀ j, (r.factory.table.ingredients.get j).toInt = ∑ k with k ≠ j, untaken es k) ∧
    (∀ k, untaken es k = 0 ∨ untaken es k = 1) ∧
    (∀ j k, untaken es j = 1 → untaken es k = 1 → j = k) ∧
    ((∀ j, r.factory.table.ingredients.get j = 0) ∨
      ∃ k, untaken es k = 1 ∧ r.factory.table.ingredients.get k = 0 ∧
        r.factory.table.ingredients.get k.needs.1 = 1 ∧
        r.factory.table.ingredients.get k.needs.2 = 1) ∧
    (∀ k, (r.factory.table.cigarettes.get k).toNat ≤ servings es k ∧
      servings es k ≤ (r.factory.table.cigarettes.get k).toNat + 1) ∧
    ∑ k, supplies es k ≤ rounds.toNat ∧
    (∀ a stopFirst sec, r.section? a stopFirst = some sec →
      ∃ d t, sec.action r.factory.table = .ok d t) ∧
    ∃ total, r.factory.table.total = .ok total ∧
      total.toNat = ∑ k, (r.factory.table.cigarettes.get k).toNat := by
  have hb : Balanced rounds.toNat es r := .of_start (balanced_start seed _ delay log) h
  have hlt : rounds.toNat < UInt64.size := rounds.toNat_lt_size
  refine ⟨hb.stock, fun k => ?_, fun j k hj hk => ?_, hb.stock_cases,
    fun k => ⟨hb.cigarettes_le k, hb.uncounted k⟩, hb.supplies_le_rounds,
    fun a stopFirst sec hsec => hb.action_total hlt hsec,
    Table.total_of_lt (hb.sum_cigarettes_le.trans_lt hlt)⟩
  · have := hb.untaken_nonneg k
    have := hb.untaken_le k
    omega
  · rcases hb.untaken_cases with hz | ⟨i, -, hz⟩
    · simp [hz] at hj
    · have hone : ∀ {k}, untaken es k = 1 → k = i := fun {k} hk => by
        by_contra hne
        simp [hz k hne] at hk
      exact (hone hj).trans (hone hk).symm

def laidOut : List Event × Run Recorder := follow [.act .agent false] (drawn {})

theorem supply_conserved_laidOut : untaken laidOut.1 .paper = 1 ∧
    (laidOut.2.factory.table.ingredients.get .tobacco).toInt =
      ∑ k with k ≠ .tobacco, untaken laidOut.1 k ∧ ∑ k, supplies laidOut.1 k ≤ 1 := by
  have hl : (start 1 (1 : UInt64).toNat {} ({} : Recorder)).Reaches laidOut.1 laidOut.2 :=
    reaches_drawn _ [.act .agent false]
  obtain ⟨hstock, -, -, -, -, hsum, -⟩ := supply_conserved 1 1 {} _ hl
  exact ⟨by decide +kernel, hstock .tobacco, hsum⟩

end Run

end CigaretteSmokers
