import CigaretteSmokers.Proofs.Faultless
import CigaretteSmokers.Proofs.Lives

/-!
The life cycle of the smokers in the log of a run: they wait, roll and smoke in turn, take their
ingredients once in each wait that they roll after, count one cigarette in each smoke, and leave
from a wait.
-/

namespace CigaretteSmokers

open Event (entries snapshots)

namespace Smoker

/-- Where in its life a smoker stands that is to do what the stage says. -/
def Stage.Stands : Stage → Phase → Prop
  | .arriving, p => p = .fresh ∨ p = .counted
  | .awaiting, p | .collecting, p => p = .idle
  | .starting, p => p = .served
  | .rolling _, p | .telling, p | .lighting, p => p = .rolling
  | .smoking _, p | .finishing, p => p = .smoking
  | .gone, p => p = .gone

theorem Stage.Stands.turn {s : Smoker} {stage : Stage} {p : Phase} {d : Deed} (hp : stage.Stands p)
    (hs : s.section? stage = some d.origin) : ∃ q, p.Turn s.holds d q := by
  rcases section?_eq hs with ⟨rfl, ho⟩ | ⟨rfl, ho⟩ | ⟨rfl, ho⟩ | ⟨rfl, ho⟩ | ⟨rfl, ho⟩
  · obtain rfl : d = .arrived s.holds := by cases d <;> simp_all [Deed.origin]
    rcases hp with rfl | rfl
    · exact ⟨_, .arrived⟩
    · exact ⟨_, .returned⟩
  · obtain ⟨v, rfl⟩ : ∃ v, d = .visited s.holds v := by cases d <;> simp_all [Deed.origin]
    obtain rfl : p = .idle := hp
    cases v with
    | closed => exact ⟨_, .left⟩
    | served => exact ⟨_, .served⟩
    | lacking i => exact ⟨_, .lacked⟩
  · obtain rfl : d = .rolled s.holds := by cases d <;> simp_all [Deed.origin]
    obtain rfl : p = .served := hp
    exact ⟨_, .rolled⟩
  · obtain rfl : d = .lit s.holds := by cases d <;> simp_all [Deed.origin]
    obtain rfl : p = .rolling := hp
    exact ⟨_, .lit⟩
  · obtain rfl : d = .finished s.holds := by cases d <;> simp_all [Deed.origin]
    obtain rfl : p = .smoking := hp
    exact ⟨_, .finished⟩

variable {ω L : Type} [StateLog L] [DecidableEq ω]

theorem Step.lives {w : ω} {s s' : Smoker} {f f' : Factory ω L} {stage : Stage} {p : Phase}
    {course : Except Failure Stage} {es : List Event} (h : Step w s f stage es course s' f')
    (htotal : ∀ sec, s.section? stage = some sec → ∃ d t, sec.action f.table = .ok d t)
    (hp : stage.Stands p) : ∃ q, Lives s.holds p f.table (entries es) q f'.table ∧
      ∀ next, course = .ok next → next.Stands q := by
  have hdeed : ∀ {sec es d q f'}, f.Enters sec es (.ok d) f' → p.Turn s.holds d q →
      Lives s.holds p f.table (entries es) q f'.table := by
    intro sec es d q f' h hturn
    obtain ⟨-, hd, rfl⟩ := h.of_ok
    exact .step hturn hd .refl
  cases h with
  | failed hs h =>
      cases h.writes (htotal _ hs) with
      | nothing hes ht => exact ⟨p, by rw [hes, ht]; exact .refl, by simp⟩
      | deed ho hd hes =>
          -- The deed is done even if the log refuses it.
          obtain ⟨q, hq⟩ := hp.turn (hs.trans ho)
          exact ⟨q, by rw [hes]; exact .step hq hd .refl, by simp⟩
  | arrived h =>
      rcases hp with rfl | rfl
      · exact ⟨_, hdeed h .arrived, by rintro _ ⟨⟩; rfl⟩
      · exact ⟨_, hdeed h .returned, by rintro _ ⟨⟩; rfl⟩
  | served h =>
      obtain rfl : p = .idle := hp
      exact ⟨_, hdeed h .served, by rintro _ ⟨⟩; rfl⟩
  | left h =>
      obtain rfl : p = .idle := hp
      exact ⟨_, hdeed h .left, by rintro _ ⟨⟩; rfl⟩
  | lacked h =>
      obtain rfl : p = .idle := hp
      exact ⟨_, hdeed h .lacked, by simp⟩
  | rolled _ h =>
      obtain rfl : p = .served := hp
      exact ⟨_, hdeed h .rolled, by rintro _ ⟨⟩; rfl⟩
  | lit _ h =>
      obtain rfl : p = .rolling := hp
      exact ⟨_, hdeed h .lit, by rintro _ ⟨⟩; rfl⟩
  | dozed _ h =>
      obtain rfl : p = .rolling := hp
      exact ⟨_, by simpa using hdeed h .lit, by simp⟩
  | finished h =>
      obtain rfl : p = .smoking := hp
      exact ⟨_, hdeed h .finished, by rintro _ ⟨⟩; exact .inr rfl⟩
  | called | queued | rested | told | smoked => exact ⟨p, .refl, by rintro _ ⟨⟩; exact hp⟩
  | refused | overslept => exact ⟨p, .refl, by simp⟩

end Smoker

theorem Factory.Writes.others {ω L : Type} {f f' : Factory ω L} {o : Option Section}
    {es : List Event} {k : Ingredient} (h : f.Writes f' o es)
    (ho : ∀ sec, o = some sec → sec.smoker? ≠ some k) (p : Phase) :
    Lives k p f.table (entries es) p f'.table := by
  cases h with
  | nothing hes ht =>
      rw [hes, ht]
      exact .refl
  | deed hsec hd hes =>
      rw [hes]
      exact .step (.other (ho _ hsec)) hd .refl

namespace Run

variable {L : Type} {n : Nat} {es fs : List Event} {r u v : Run L} {k : Ingredient} {p : Phase}

/-- Whether `p` is where smoker `k` stands in its life, if it has not failed. -/
def Stands (r : Run L) (k : Ingredient) (p : Phase) : Prop :=
  ∀ stage, (r.smokers.get k).course = .ok stage → stage.Stands p

/-- The count that a smoker keeps of its cigarettes is that of the table. -/
def Tallied (r : Run L) : Prop :=
  ∀ k stage, (r.smokers.get k).course = .ok stage →
    (r.smokers.get k).smoker.smoked = (r.factory.table.cigarettes.get k).toNat

variable [StateLog L]

theorem Balanced.lives_moves (hb : Balanced n es u) (hn : n < UInt64.size) (hm : Moves u fs v)
    (hp : u.Stands k p) :
    ∃ q, Lives k p u.factory.table (entries fs) q v.factory.table ∧ v.Stands k q := by
  cases hm with
  | @smoker j stage _ _ _ _ _ hc _ hst =>
      have hs : ∀ sec, (u.smokers.get j).smoker.section? stage = some sec →
          u.section? (.smoker j) false = some sec := by simp [section?, hc]
      have htotal := fun sec hsec => hb.action_total hn (hs sec hsec)
      rw [noteEnd_eq]
      by_cases hj : k = j
      · subst hj
        obtain ⟨q, hl, hq⟩ := hst.lives htotal (hp stage hc)
        rw [hb.holds k] at hl
        exact ⟨q, hl, fun next hnext => hq next (by simpa using hnext)⟩
      · refine ⟨p, (hst.writes htotal).others (fun sec hsec => ?_) p, fun next hnext => ?_⟩
        · rw [Smoker.smoker?_of_section? hsec, hb.holds j]
          simpa using Ne.symm hj
        · exact hp next (by simpa [hj] using hnext)
  | @agent stage _ _ _ _ _ hc _ hst =>
      have hs : ∀ sf, u.section? .agent sf = Agent.section? u.stop.requested sf stage := by
        simp [section?, hc]
      obtain ⟨stopFirst, hw⟩ := hst.writes fun sf sec hsec => hb.action_total hn ((hs sf).trans hsec)
      rw [noteEnd_eq]
      exact ⟨p, hw.others (fun sec hsec => by simp [Agent.smoker?_of_section? hsec]) p, hp⟩
  | smokerReported | agentReported | stopped | abandoned => exact ⟨p, .refl, hp⟩
  | failed =>
      refine ⟨p, ?_, hp⟩
      simp only
      split <;> exact .refl

theorem Balanced.lives (hb : Balanced n es u) (hn : n < UInt64.size) (h : Reaches u fs v)
    (hp : u.Stands k p) :
    ∃ q, Lives k p u.factory.table (entries fs) q v.factory.table ∧ v.Stands k q := by
  induction h with
  | refl => exact ⟨p, .refl, hp⟩
  | step hr hs ih =>
      obtain ⟨q, hl, hq⟩ := ih
      obtain ⟨q', hl', hq'⟩ := (hb.reaches hr).lives_moves hn hs.moves hq
      exact ⟨q', by simpa using hl.append hl', hq'⟩
  | overtake _ _ ih => exact ih

omit [StateLog L] in
theorem stands_start (seed : UInt64) (n : Nat) (delay : DelayModel) (log : L) (k : Ingredient) :
    (start seed n delay log).Stands k .fresh := by
  intro stage hc
  obtain rfl : .arriving = stage := by simpa [start] using hc
  exact .inl rfl

omit [StateLog L] in
theorem tallied_start (seed : UInt64) (n : Nat) (delay : DelayModel) (log : L) :
    (start seed n delay log).Tallied := by
  intro k stage hc
  simp [start, Table.initial]

theorem Tallied.moves (h : u.Tallied) (hb : Balanced n es u) (hm : Moves u fs v) : v.Tallied := by
  cases hm with
  | @smoker j stage _ _ _ _ _ hc _ hst =>
      rw [noteEnd_eq]
      intro k next hnext
      by_cases hk : k = j
      · subst hk
        simp only [Trio.get_set_self] at hnext ⊢
        subst hnext
        have hadv := hst.advance.smoked
        rw [hb.holds k, h k stage hc] at hadv
        omega
      · have hcig := hst.effect.cigarettes_ne k (by rw [hb.holds j]; exact hk)
        simp only [Trio.get_set_of_ne _ _ hk] at hnext ⊢
        rw [hcig]
        exact h k next hnext
  | agent _ hc _ hst =>
      rw [noteEnd_eq]
      intro k next hnext
      have heff := hst.effect fun i hi => hb.supply_fits (hi ▸ hc)
      simp only [heff.cigarettes]
      exact h k next hnext
  | smokerReported | agentReported | stopped | abandoned => exact h
  | failed =>
      intro k next hnext
      simp only
      split <;> exact h k next hnext

theorem Tallied.reaches (h : u.Tallied) (hb : Balanced n es u) (hr : Reaches u fs v) : v.Tallied := by
  induction hr with
  | refl => exact h
  | step hr hs ih => exact ih.moves (hb.reaches hr) hs.moves
  | overtake _ _ ih => exact ih

/-- The life cycle of a smoker in the tables that the log of a run is given, whatever it makes of them.
The statuses that the smoker shows, repeats left out, begin a life. In a wait that it rolls after it
takes its ingredients once, in one that it leaves from it takes none. In a smoke it counts one
cigarette, perhaps none yet if the tables end there, and it counts nowhere else. When it leaves, its own
count is that of the table. The first table given has the initial table before it. -/
theorem life_cycle (seed rounds : UInt64) (delay : DelayModel) (log : L) (k : Ingredient)
    {r : Run (Tapped L)} (h : (start seed rounds.toNat delay ⟨[], log⟩).Reaches es r) :
    let tables := r.factory.log.given.map Prod.snd
    (∃ n, (tables.map (·.smokers.get k)).destutter (· ≠ ·) <+: SmokerStatus.life n) ∧
    (∀ wait rest, Stretch k .waiting (.initial :: tables) wait rest → ∀ t ∈ rest.head?,
      (t.smokers.get k = .rolling → Table.changes (Table.Takes k) wait = 1) ∧
      (t.smokers.get k = .closing → Table.changes (Table.Takes k) wait = 0)) ∧
    (∀ smoke rest, Stretch k .smoking (.initial :: tables) smoke rest →
      Table.changes (Table.Counts k) smoke ≤ 1 ∧
      ∀ t ∈ rest.head?, t.smokers.get k = .waiting ∧ Table.changes (Table.Counts k) smoke = 1) ∧
    (Table.initial :: tables).IsChain (fun t u =>
      (Table.Takes k t u → t.smokers.get k = .waiting ∧ u.smokers.get k = .waiting) ∧
      (u.cigarettes.get k = t.cigarettes.get k ∨
        Table.Counts k t u ∧ t.smokers.get k = .smoking ∧ u.smokers.get k = .smoking)) ∧
    ((r.smokers.get k).course = .ok .gone →
      (r.smokers.get k).smoker.smoked = (r.factory.table.cigarettes.get k).toNat) := by
  have hgiven : r.factory.log.given.map Prod.snd = snapshots es := h.given
  have hb := balanced_start seed rounds.toNat delay (⟨[], log⟩ : Tapped L)
  obtain ⟨q, hl, -⟩ := hb.lives rounds.toNat_lt_size h (stands_start seed _ delay _ k)
  have ht : Table.initial.smokers.get k = Phase.fresh.status := by cases k <;> rfl
  intro tables
  rw [show tables = snapshots es from hgiven, ← Event.map_snd_entries]
  refine ⟨hl.destutter ht, fun wait rest hs t htail => ?_, fun smoke rest hs => ?_, ?_,
    fun hg => (tallied_start seed _ delay _).reaches hb h k .gone hg⟩
  · obtain ⟨p₁, q₁, u, w, l, hl₁, rfl, hu, hq₁, htaken, -, hnext⟩ := hl.stretch ht ⟨rfl, rfl⟩ hs
    have hmarks := hl₁.marks Table.takes_iff Phase.Turn.takes hu hs.shows
    obtain ⟨d, q₂, hturn, htq⟩ := hnext t htail
    have hleaves := hturn.leaves_wait hq₁
    rw [htaken, Nat.add_zero] at hmarks
    rwa [htq, hmarks]
  · obtain ⟨p₁, q₁, u, w, l, hl₁, rfl, hu, hq₁, -, hcounted, hnext⟩ := hl.stretch ht ⟨rfl, rfl⟩ hs
    have hmarks := hl₁.marks Table.counts_iff Phase.Turn.counts hu hs.shows
    rw [hcounted, Nat.add_zero] at hmarks
    rw [hmarks]
    refine ⟨by cases q₁ <;> decide, fun t htail => ?_⟩
    obtain ⟨d, q₂, hturn, htq⟩ := hnext t htail
    have hne := hs.ends t htail
    rw [htq] at hne ⊢
    exact hturn.leaves_smoke hq₁ hne
  · exact hl.marked ht

/-- The smoker that holds paper takes its ingredients, and a stop request closes the factory. -/
def closingTime : List Choice :=
  List.replicate 3 (.act .agent false) ++ List.replicate 3 (.act (.smoker .paper) false) ++
    [.requestStop, .act .agent true, .act .agent false]

/-- One smoker leaves at once, another after its cigarette. -/
def parting : List Choice :=
  List.replicate 2 (.act .agent false) ++ List.replicate 3 (.act (.smoker .tobacco) false) ++
    List.replicate 9 (.act (.smoker .paper) false)

def parted : List Event × Run (Tapped Recorder) :=
  follow (closingTime ++ parting) (start 1 (1 : UInt64).toNat (instant .microseconds) ⟨[], {}⟩)

theorem life_cycle_parted :
    ((parted.2.factory.log.given.map Prod.snd).map (·.smokers.get .paper)).destutter (· ≠ ·) =
      SmokerStatus.life 1 ∧
    (parted.2.smokers.get .paper).smoker.smoked =
      (parted.2.factory.table.cigarettes.get .paper).toNat := by
  obtain ⟨hstatuses, hgone⟩ :
      ((parted.2.factory.log.given.map Prod.snd).map (·.smokers.get .paper)).destutter (· ≠ ·) =
        SmokerStatus.life 1 ∧
      (parted.2.smokers.get .paper).course = .ok .gone := by decide +kernel
  obtain ⟨-, -, -, -, hsmoked⟩ := life_cycle 1 1 (instant .microseconds) ({} : Recorder) .paper
    (reaches_follow (closingTime ++ parting) _)
  exact ⟨hstatuses, hsmoked hgone⟩

end Run

end CigaretteSmokers
