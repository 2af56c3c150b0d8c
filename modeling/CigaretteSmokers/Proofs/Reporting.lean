import CigaretteSmokers.Proofs.RunSteps
import CigaretteSmokers.Run.Report

/-!
What the supervisor has been told. Each actor comes before it once, and what those that ended well have
reported is kept, so that at the end of a run without failures no report is missing; sorted, the
smokers' reports stand in the same order whoever ended first.
-/

namespace CigaretteSmokers

namespace Run

variable {L : Type} {r : Run L}

theorem smoker_over_of_gone {k : Ingredient} (h : (r.smokers.get k).course = .ok .gone) :
    r.isOver (.smoker k) = true := by
  simp only [isOver, SmokerTask.isOver, h]

theorem agent_over_of_gone (h : r.agent.course = .ok .gone) : r.isOver .agent = true := by
  simp only [isOver, AgentTask.isOver, h]

theorem smoker_gone_of_over {k : Ingredient} (h : r.isOver (.smoker k) = true)
    (hf : r.failed? (.smoker k) = none) : (r.smokers.get k).course = .ok .gone := by
  cases hc : (r.smokers.get k).course with
  | error e => simp [failed?, hc] at hf
  | ok stage => rw [smoker_eq_gone hc h]

theorem agent_gone_of_over (h : r.isOver .agent = true) (hf : r.failed? .agent = none) :
    r.agent.course = .ok .gone := by
  cases hc : r.agent.course with
  | error e => simp [failed?, hc] at hf
  | ok stage => rw [agent_eq_gone hc h]

/-- Those that have ended and not been handled stand there once each; of the others, those that have
gone have left their reports with the supervisor. -/
structure Heard (r : Run L) : Prop where
  nodup : r.ended.Nodup
  ended_over : ∀ a ∈ r.ended, r.isOver a = true
  smokers : ∃ ks : List Ingredient, ks.Nodup ∧ r.reports = ks.map r.smokerReport ∧
    ∀ k, k ∈ ks ↔ (r.smokers.get k).course = .ok .gone ∧ .smoker k ∉ r.ended
  agent : ∀ s, r.agentReport = some s ↔
    r.agent.course = .ok .gone ∧ .agent ∉ r.ended ∧ s = r.agent.agent.summary

theorem heard_start (seed : UInt64) (n : Nat) (delay : DelayModel) (log : L) :
    Heard (start seed n delay log) where
  nodup := .nil
  ended_over := by simp [start]
  smokers := ⟨[], .nil, rfl, by simp [start]⟩
  agent := by simp [start]

namespace Heard

/-- A step of the actor `a`, which has not ended before. -/
theorem noteEnd {r' : Run L} {a : Actor} (h : Heard r) (hnot : r.isOver a = false)
    (hended : r'.ended = r.ended) (hreports : r'.reports = r.reports)
    (hagentReport : r'.agentReport = r.agentReport)
    (hsmokers : ∀ k, .smoker k ≠ a → r'.smokers.get k = r.smokers.get k)
    (hagent : .agent ≠ a → r'.agent = r.agent) : Heard (noteEnd a r') := by
  have hfresh : a ∉ r.ended := fun hmem => by simp [h.ended_over a hmem] at hnot
  have hover : ∀ b, b ≠ a → r'.isOver b = r.isOver b := by
    intro b hb
    cases b with
    | smoker k => simp only [isOver, hsmokers k hb]
    | agent => simp only [isOver, hagent hb]
  have hmem : ∀ b, b ∈ r'.ended ++ (if r'.isOver a then [a] else []) ↔
      b ∈ r.ended ∨ b = a ∧ r'.isOver a = true := by
    intro b
    rw [List.mem_append, hended]
    split <;> simp [*]
  obtain ⟨ks, hks, hmap, hgone⟩ := h.smokers
  rw [noteEnd_eq]
  constructor
  case nodup =>
    simp only [hended]
    split
    · rw [List.nodup_append]
      exact ⟨h.nodup, List.nodup_singleton a, by rintro b hb c hc rfl; simp_all⟩
    · simpa using h.nodup
  case ended_over =>
    intro b hb
    rcases (hmem b).1 hb with hb | ⟨rfl, hb⟩
    · exact (hover b fun hba => hfresh (hba ▸ hb)).trans (h.ended_over b hb)
    · exact hb
  case smokers =>
    have hself : ∀ k, .smoker k = a → k ∉ ks := fun k hk hmem => by
      simp [← hk, smoker_over_of_gone ((hgone k).1 hmem).1] at hnot
    refine ⟨ks, hks, ?_, fun k => ?_⟩
    · refine (hreports.trans hmap).trans (List.map_congr_left fun k hk => ?_)
      simp only [smokerReport, hsmokers k fun hka => hself k hka hk]
    · by_cases hk : .smoker k = a
      · refine iff_of_false (hself k hk) fun hg => hg.2 ((hmem _).2 (.inr ⟨hk, ?_⟩))
        exact hk ▸ smoker_over_of_gone hg.1
      · simp only [hmem, hgone, hsmokers k hk, hk, false_and, or_false]
  case agent =>
    intro s
    by_cases ha : .agent = a
    · have hno : ¬ (r.agent.course = .ok .gone) := fun hg => by
        simp [← ha, agent_over_of_gone hg] at hnot
      simp only [hagentReport, h.agent]
      refine iff_of_false (fun hg => hno hg.1) fun hg => hg.2.1 ((hmem _).2 (.inr ⟨ha, ?_⟩))
      exact ha ▸ agent_over_of_gone hg.1
    · simp only [hagentReport, h.agent, hmem, hagent ha, ha, false_and, or_false]

/-- The actor that ended first is handled. -/
theorem drop {a : Actor} {rest : List Actor} (h : Heard r) (he : r.ended = a :: rest) :
    rest.Nodup ∧ a ∉ rest ∧ r.isOver a = true ∧ (∀ b ∈ rest, r.isOver b = true) ∧
      ∀ b, b ≠ a → (b ∈ rest ↔ b ∈ r.ended) := by
  obtain ⟨hno, hnodup⟩ := List.nodup_cons.1 (he ▸ h.nodup)
  exact ⟨hnodup, hno, h.ended_over a (by simp [he]), fun b hb => h.ended_over b (by simp [he, hb]),
    fun b hb => by simp [he, hb]⟩

variable [StateLog L]

theorem moves (h : Heard r) {es : List Event} {r' : Run L} (hm : Moves r es r') : Heard r' := by
  cases hm with
  | @smoker k _ _ _ _ _ _ hc hg =>
      exact h.noteEnd (smoker_not_over hc hg) rfl rfl rfl
        (fun j hj => Trio.get_set_of_ne _ _ fun hjk => hj (by rw [hjk])) fun _ => rfl
  | agent _ hc hg =>
      exact h.noteEnd (agent_not_over hc hg) rfl rfl rfl (fun _ _ => rfl) fun ha => absurd rfl ha
  | @smokerReported k rest he hf =>
      obtain ⟨hnodup, hno, hover, hrest, hmem⟩ := h.drop he
      obtain ⟨ks, hks, hmap, hgone⟩ := h.smokers
      have hk : k ∉ ks := fun hk => ((hgone k).1 hk).2 (by simp [he])
      refine ⟨hnodup, hrest, ⟨ks ++ [k], ?_, ?_, fun j => ?_⟩, fun s => ?_⟩
      · rw [List.nodup_append]
        exact ⟨hks, List.nodup_singleton k, by rintro i hi j hj rfl; simp_all⟩
      · simp only [hmap, List.map_append, List.map_cons, List.map_nil]
        rfl
      · by_cases hj : j = k
        · subst hj
          simp [hno, smoker_gone_of_over hover hf]
        · simp [hj, hgone, hmem (.smoker j) (by simpa using hj)]
      · rw [hmem .agent (by simp)]
        exact h.agent s
  | @agentReported rest he hf =>
      obtain ⟨hnodup, hno, hover, hrest, hmem⟩ := h.drop he
      obtain ⟨ks, hks, hmap, hgone⟩ := h.smokers
      refine ⟨hnodup, hrest, ⟨ks, hks, hmap, fun j => ?_⟩, fun s => ?_⟩
      · rw [hmem (.smoker j) (by simp)]
        exact hgone j
      · simp [hno, agent_gone_of_over hover hf, eq_comm]
  | @failed a rest e he hf =>
      obtain ⟨hnodup, -, -, hrest, hmem⟩ := h.drop he
      obtain ⟨ks, hks, hmap, hgone⟩ := h.smokers
      refine ⟨hnodup, hrest, ⟨ks, hks, hmap, fun j => ?_⟩, fun s => ?_⟩
      · rw [hgone]
        refine and_congr_right fun hg => not_congr (hmem _ ?_).symm
        rintro rfl
        simp [failed?, hg] at hf
      · rw [h.agent]
        refine and_congr_right fun hg => and_congr_left fun _ => not_congr (hmem _ ?_).symm
        rintro rfl
        simp [failed?, hg] at hf
  | stopped | abandoned => exact ⟨h.nodup, h.ended_over, h.smokers, h.agent⟩

omit [StateLog L] in
theorem overtake (h : Heard r) {order : List Actor} (ho : order.Perm r.ended) :
    Heard { r with ended := order } where
  nodup := ho.nodup_iff.2 h.nodup
  ended_over := fun a ha => h.ended_over a (ho.mem_iff.1 ha)
  smokers := by
    simp only [ho.mem_iff]
    exact h.smokers
  agent := by
    simp only [ho.mem_iff]
    exact h.agent

theorem reaches {r₀ : Run L} {es : List Event} (h₀ : Heard r₀) (h : Reaches r₀ es r) : Heard r := by
  induction h with
  | refl => exact h₀
  | step _ hs ih => exact ih.moves hs.moves
  | overtake _ ho ih => exact ih.overtake ho

omit [StateLog L] in
/-- Once all the smokers have gone and been handled, each of them has its place among the reports,
whoever was first. -/
theorem sortedReports_eq (h : Heard r) (hended : r.ended = [])
    (hgone : ∀ k, (r.smokers.get k).course = .ok .gone)
    (hholds : ∀ k, (r.smokers.get k).smoker.holds = k) :
    r.sortedReports = Ingredient.all.map fun k => (k, (r.smokers.get k).smoker.smoked) := by
  obtain ⟨ks, hks, hmap, hmem⟩ := h.smokers
  have hreport : r.smokerReport = fun k => (k, (r.smokers.get k).smoker.smoked) := by
    funext k
    rw [smokerReport, hholds]
  have hperm : ks.Perm Ingredient.all :=
    (List.perm_ext_iff_of_nodup hks (by decide)).2 fun k =>
      iff_of_true ((hmem k).2 ⟨hgone k, by simp [hended]⟩) k.mem_all
  have hreports : r.sortedReports.Perm (Ingredient.all.map r.smokerReport) :=
    (List.mergeSort_perm _ _).trans (hmap ▸ hperm.map _)
  rw [← hreport]
  refine hreports.eq_of_pairwise ?_ (List.pairwise_mergeSort ?_ ?_ _) ?_
  · -- Two reports of one number are those of one smoker.
    intro a b ha hb hab hba
    obtain ⟨j, -, rfl⟩ := List.mem_map.1 (hreports.mem_iff.1 ha)
    obtain ⟨k, -, rfl⟩ := List.mem_map.1 hb
    simp only [hreport, decide_eq_true_eq] at hab hba
    rw [Ingredient.index_inj.1 (Nat.le_antisymm hab hba)]
  · intro a b c hab hbc
    simp only [decide_eq_true_eq] at hab hbc ⊢
    omega
  · intro a b
    simp only [Bool.or_eq_true, decide_eq_true_eq]
    omega
  · simp [Ingredient.all, hreport, Ingredient.index]

omit [StateLog L] in
theorem agentReport_eq (h : Heard r) (hended : r.ended = []) (hgone : r.agent.course = .ok .gone) :
    r.agentReport = some r.agent.agent.summary :=
  (h.agent _).2 ⟨hgone, by simp [hended], rfl⟩

end Heard

end Run

end CigaretteSmokers
