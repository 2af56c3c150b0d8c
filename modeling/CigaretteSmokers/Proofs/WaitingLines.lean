import CigaretteSmokers.Run
import CigaretteSmokers.Proofs.Permits

/-!
The semaphores of a factory seen from outside: how many signals there have been, how many waits they
have let through, and who stands in line. Any number of waits may come, look, look again and give up,
in any order, until the semaphores are destroyed.
-/

namespace CigaretteSmokers

/-- What is done at the semaphores of a factory. A wait comes when it first looks. -/
inductive Errand (ω : Type)
  | signal (a : Actor)
  | look (a : Actor) (w : ω)
  | giveUp (a : Actor) (w : ω)
  | destroy

/-- An account of one semaphore. In line stand the waits under way, the first to come first. -/
structure Ledger (ω : Type) where
  signals : Nat := 0
  completed : Nat := 0
  line : List ω := []

namespace Ledger

variable {ω : Type} [DecidableEq ω]

/-- The line once `w` has come to it. -/
def lineWith (w : ω) (l : Ledger ω) : List ω := if w ∈ l.line then l.line else l.line ++ [w]

def answered (w : ω) (l : Ledger ω) : Except Failure Bool → Ledger ω
  | .ok true => { l with completed := l.completed + 1, line := l.line.erase w }
  | .ok false => { l with line := l.lineWith w }
  | .error _ => { l with line := l.line.erase w }

/-- Whether `w` is one of the first in line, for whom there are signals. -/
def admits (w : ω) (l : Ledger ω) : Bool := (l.lineWith w).take (l.signals - l.completed) |>.contains w

end Ledger

namespace Semaphore

variable {ω : Type} [DecidableEq ω] {w : ω} {s q : Semaphore ω} {l : Ledger ω}

def answer (name : String) : Reply → Except Failure Bool
  | .passed => .ok true
  | .pending => .ok false
  | .refused => .error (.error (.semaphoreClosed name))

/-- An open semaphore agrees with its ledger. The first in line are those who have been given a
permit, and a permit is banked only when nobody is left. -/
structure Keeps (s : Semaphore ω) (l : Ledger ω) : Prop where
  isOpen : s.closed = false
  signals : l.signals = l.completed + s.banked + s.granted.length
  line : s.granted ++ s.queue = l.line
  nodup : l.line.Nodup
  idle : 0 < s.banked → s.queue = []

omit [DecidableEq ω] in
theorem keeps_fresh : Keeps ({} : Semaphore ω) {} := ⟨rfl, rfl, rfl, .nil, fun _ => rfl⟩

namespace Keeps

omit [DecidableEq ω] in
theorem banked_eq_zero (h : s.Keeps l) (hq : s.queue ≠ []) : s.banked = 0 :=
  Nat.eq_zero_of_not_pos fun hb => hq (h.idle hb)

omit [DecidableEq ω] in
theorem signal (h : s.Keeps l) : s.signal.Keeps { l with signals := l.signals + 1 } := by
  unfold Semaphore.signal
  have hsignals := h.signals
  split
  · rename_i v rest hq
    have hbank := h.banked_eq_zero (by simp [hq])
    refine ⟨h.isOpen, ?_, ?_, h.nodup, fun hb => absurd hbank (Nat.ne_of_gt hb)⟩
    · simp only [List.length_append, List.length_singleton]
      omega
    · simp [← h.line, hq]
  · rename_i hq
    refine ⟨h.isOpen, ?_, h.line, h.nodup, fun _ => hq⟩
    simp only
    omega

theorem cancel (h : s.Keeps l) (w : ω) : (s.cancel w).Keeps { l with line := l.line.erase w } := by
  have hsignals := h.signals
  have hnodup := h.nodup.erase w
  unfold Semaphore.cancel
  split
  · rename_i hw
    have hpos := List.length_pos_of_mem hw
    -- The permit goes back before it goes on: for a moment there is one signal less.
    have hback : Keeps { s with granted := s.granted.erase w }
        { l with signals := l.signals - 1, line := l.line.erase w } := by
      refine ⟨h.isOpen, ?_, ?_, hnodup, h.idle⟩
      · simp only [List.length_erase_of_mem hw]
        omega
      · rw [← h.line, List.erase_append_left _ hw]
    have hagain := hback.signal
    simp only at hagain
    rwa [Nat.sub_add_cancel (by omega)] at hagain
  · rename_i hw
    refine ⟨h.isOpen, hsignals, ?_, hnodup, fun hb => by simp [h.idle hb]⟩
    rw [← h.line, List.erase_append_right _ hw]

theorem poll (h : s.Keeps l) (name : String) (w : ω) :
    (s.poll w).2.Keeps (l.answered w (answer name (s.poll w).1)) := by
  have hsignals := h.signals
  have hline := h.line
  have hmem : w ∈ l.line ↔ w ∈ s.granted ∨ w ∈ s.queue := by rw [← hline, List.mem_append]
  rw [poll_eq]
  rw [if_neg (by simp [h.isOpen])]
  split
  · rename_i hw
    have hpos := List.length_pos_of_mem hw
    refine ⟨h.isOpen, ?_, ?_, h.nodup.erase w, h.idle⟩
    · simp only [answer, Ledger.answered, List.length_erase_of_mem hw]
      omega
    · simp only [answer, Ledger.answered, ← hline, List.erase_append_left _ hw]
  · rename_i hw
    split
    · rename_i hq
      have hstands : l.lineWith w = l.line := if_pos (hmem.2 (.inr hq))
      simpa only [answer, Ledger.answered, hstands] using h
    · rename_i hq
      have hnew : w ∉ l.line := by simp [hmem, hw, hq]
      split
      · rename_i n hn
        have hqueue : s.queue = [] := h.idle (by omega)
        have hgone : l.line.erase w = l.line := List.erase_of_not_mem hnew
        simp only [answer, Ledger.answered, hgone]
        exact ⟨h.isOpen, by simp only; omega, hline, h.nodup, fun _ => hqueue⟩
      · rename_i hb
        have hcomes : l.lineWith w = l.line ++ [w] := if_neg hnew
        simp only [answer, Ledger.answered, hcomes]
        refine ⟨h.isOpen, hsignals, ?_, ?_, fun hpos => absurd hb (Nat.ne_of_gt hpos)⟩
        · simp [← hline]
        · exact List.nodup_append.2 ⟨h.nodup, by simp, by rintro a ha _ hb rfl; simp_all⟩

/-- A wait is let through if it is one of the first for whom there is a signal. -/
theorem answer_poll (h : s.Keeps l) (name : String) (w : ω) :
    answer name (s.poll w).1 = .ok (l.admits w) := by
  have howed : l.signals - l.completed = s.granted.length + s.banked := by
    have := h.signals
    omega
  have hline := h.line
  have hmem : w ∈ l.line ↔ w ∈ s.granted ∨ w ∈ s.queue := by rw [← hline, List.mem_append]
  have hnodup := h.nodup
  rw [← hline, List.nodup_append] at hnodup
  rw [poll_eq]
  unfold Ledger.admits
  rw [if_neg (by simp [h.isOpen]), howed]
  split
  · rename_i hw
    have hstands : l.lineWith w = s.granted ++ s.queue := (if_pos (hmem.2 (.inl hw))).trans hline.symm
    simp [answer, hstands, List.take_length_add_append, hw]
  · rename_i hw
    split
    · rename_i hq
      have hstands : l.lineWith w = s.granted ++ s.queue := (if_pos (hmem.2 (.inr hq))).trans hline.symm
      have hbank := h.banked_eq_zero (List.ne_nil_of_mem hq)
      simp [answer, hstands, hbank, hw]
    · rename_i hq
      have hcomes : l.lineWith w = s.granted ++ (s.queue ++ [w]) := by
        rw [Ledger.lineWith, if_neg (by simp [hmem, hw, hq]), ← hline, List.append_assoc]
      split
      · rename_i n hn
        have hqueue : s.queue = [] := h.idle (by omega)
        simp [answer, hcomes, hqueue, hn, List.take_length_add_append]
      · rename_i hb
        simp [answer, hcomes, hb, hw]

end Keeps

/-- A semaphore that has been closed: nobody is left to wait for a signal. -/
structure Shut (s : Semaphore ω) (l : Ledger ω) : Prop where
  closed : s.closed = true
  queue : s.queue = []
  completed : l.completed ≤ l.signals

omit [DecidableEq ω] in
theorem Keeps.close (h : s.Keeps l) : s.close.Shut l := by
  have := h.signals
  exact ⟨rfl, rfl, by omega⟩

theorem poll_of_closed (w : ω) (h : s.closed = true) :
    s.poll w = (.refused, { s with granted := s.granted.erase w }) := (poll_eq w s).trans (if_pos h)

namespace Shut

omit [DecidableEq ω] in
theorem signal (h : s.Shut l) : s.signal.Shut { l with signals := l.signals + 1 } := by
  unfold Semaphore.signal
  simp only [h.queue]
  exact ⟨h.closed, rfl, Nat.le_succ_of_le h.completed⟩

theorem cancel (h : s.Shut l) (w : ω) : (s.cancel w).Shut { l with line := l.line.erase w } := by
  unfold Semaphore.cancel Semaphore.signal
  simp only [h.queue]
  split
  · exact ⟨h.closed, rfl, h.completed⟩
  · exact ⟨h.closed, rfl, h.completed⟩

theorem poll (h : s.Shut l) (name : String) (w : ω) :
    (s.poll w).2.Shut (l.answered w (answer name (s.poll w).1)) := by
  rw [poll_of_closed w h.closed]
  exact ⟨h.closed, h.queue, h.completed⟩

end Shut

end Semaphore

/-- What an errand does to the semaphore of `a`. -/
def Errand.effect {ω : Type} [DecidableEq ω] (a : Actor) : Errand ω → Semaphore ω → Semaphore ω
  | .signal b, s => if b = a then s.signal else s
  | .look b w, s => if b = a then (s.poll w).2 else s
  | .giveUp b w, s => if b = a then s.cancel w else s
  | .destroy, s => s.close

namespace Factory

variable {ω L : Type}

/-- The semaphore at which `a` is woken. -/
def semaphore (f : Factory ω L) : Actor → Semaphore ω
  | .smoker k => f.ready.get k
  | .agent => f.cigarette

def semaphoreName : Actor → String
  | .smoker k => readyName k
  | .agent => cigaretteName

variable [DecidableEq ω]

def look (w : ω) (f : Factory ω L) : Actor → Except Failure Bool × Factory ω L
  | .smoker k => f.awaitIngredients w k
  | .agent => f.awaitCigarette w

def attend (f : Factory ω L) : Errand ω → Factory ω L
  | .signal (.smoker k) => f.signalIngredients k
  | .signal .agent => f.signalCigarette
  | .look a w => (f.look w a).2
  | .giveUp (.smoker k) w => f.cancelIngredients w k
  | .giveUp .agent w => f.cancelCigarette w
  | .destroy => f.destroy

def attendAll (es : List (Errand ω)) (f : Factory ω L) : Factory ω L := es.foldl attend f

variable (f : Factory ω L)

theorem look_eq (w : ω) (a : Actor) :
    (f.look w a).1 = Semaphore.answer (semaphoreName a) ((f.semaphore a).poll w).1 ∧
    ∀ b, (f.look w a).2.semaphore b =
      if a = b then ((f.semaphore a).poll w).2 else f.semaphore b := by
  cases a with
  | smoker k =>
      simp only [look, awaitIngredients, semaphore]
      rcases (f.ready.get k).poll w with ⟨_ | _ | _, q⟩
      all_goals
        refine ⟨rfl, fun b => ?_⟩
        cases b with
        | smoker j =>
            by_cases hj : j = k
            · subst hj; simp
            · simp [hj, Ne.symm hj]
        | agent => rfl
  | agent =>
      simp only [look, awaitCigarette, semaphore]
      rcases f.cigarette.poll w with ⟨_ | _ | _, q⟩
      all_goals
        refine ⟨rfl, fun b => ?_⟩
        cases b <;> rfl

theorem semaphore_attend (e : Errand ω) (a : Actor) :
    (f.attend e).semaphore a = e.effect a (f.semaphore a) := by
  cases e with
  | look b w =>
      simp only [attend, Errand.effect, (f.look_eq w b).2]
      split
      · subst b; rfl
      · rfl
  | destroy => cases a <;> simp [attend, Errand.effect, semaphore, destroy]
  | signal b | giveUp b =>
      cases b with
      | smoker j =>
          cases a with
          | smoker k =>
              by_cases hj : j = k
              · subst hj; simp [attend, Errand.effect, semaphore, signalIngredients, cancelIngredients]
              · simp [attend, Errand.effect, semaphore, signalIngredients, cancelIngredients, hj,
                  Ne.symm hj]
          | agent => rfl
      | agent => cases a <;> rfl

end Factory

namespace Ledger

variable {ω L : Type} [DecidableEq ω]

/-- What is entered into the ledger of `a` when an errand is done. -/
def enter (a : Actor) (f : Factory ω L) (l : Ledger ω) : Errand ω → Ledger ω
  | .signal b => if b = a then { l with signals := l.signals + 1 } else l
  | .look b w => if b = a then l.answered w (f.look w b).1 else l
  | .giveUp b w => if b = a then { l with line := l.line.erase w } else l
  | .destroy => l

def enterAll (a : Actor) : List (Errand ω) → Factory ω L → Ledger ω → Ledger ω
  | [], _, l => l
  | e :: es, f, l => enterAll a es (f.attend e) (l.enter a f e)

end Ledger

namespace Factory

variable {ω L : Type} [DecidableEq ω] {f : Factory ω L} {l : Ledger ω} {a : Actor}

/-- What the operations of a semaphore keep, an errand keeps. -/
theorem attend_enter {R : Semaphore ω → Ledger ω → Prop} {e : Errand ω}
    (hsignal : ∀ {s l}, R s l → R s.signal { l with signals := l.signals + 1 })
    (hpoll : ∀ {s l} (_ : R s l) name w, R (s.poll w).2 (l.answered w (Semaphore.answer name (s.poll w).1)))
    (hcancel : ∀ {s l} (_ : R s l) w, R (s.cancel w) { l with line := l.line.erase w })
    (hclose : e = .destroy → ∀ {s l}, R s l → R s.close l) (h : R (f.semaphore a) l) :
    R ((f.attend e).semaphore a) (l.enter a f e) := by
  rw [semaphore_attend]
  cases e with
  | signal b =>
      simp only [Errand.effect, Ledger.enter]
      split
      · exact hsignal h
      · exact h
  | look b w =>
      simp only [Errand.effect, Ledger.enter]
      split
      · subst b
        rw [(f.look_eq w a).1]
        exact hpoll h _ w
      · exact h
  | giveUp b w =>
      simp only [Errand.effect, Ledger.enter]
      split
      · exact hcancel h w
      · exact h
  | destroy => exact hclose rfl h

theorem keeps_attend {e : Errand ω} (he : e ≠ .destroy) (h : (f.semaphore a).Keeps l) :
    ((f.attend e).semaphore a).Keeps (l.enter a f e) :=
  attend_enter .signal .poll .cancel (fun hd => absurd hd he) h

theorem shut_attend (e : Errand ω) (h : (f.semaphore a).Shut l) :
    ((f.attend e).semaphore a).Shut (l.enter a f e) :=
  attend_enter .signal .poll .cancel (fun _ _ _ h => ⟨rfl, rfl, h.completed⟩) h

theorem keeps_attendAll {es : List (Errand ω)} (h : (f.semaphore a).Keeps l) (hd : .destroy ∉ es) :
    ((f.attendAll es).semaphore a).Keeps (l.enterAll a es f) := by
  induction es generalizing f l with
  | nil => exact h
  | cons e es ih =>
      rw [List.mem_cons, not_or] at hd
      exact ih (keeps_attend (Ne.symm hd.1) h) hd.2

theorem shut_attendAll (es : List (Errand ω)) (h : (f.semaphore a).Shut l) :
    ((f.attendAll es).semaphore a).Shut (l.enterAll a es f) := by
  induction es generalizing f l with
  | nil => exact h
  | cons e es ih => exact ih (shut_attend e h)

theorem shut_of_destroy_mem {es : List (Errand ω)} (h : (f.semaphore a).Keeps l) (hd : .destroy ∈ es) :
    ((f.attendAll es).semaphore a).Shut (l.enterAll a es f) := by
  induction es generalizing f l with
  | nil => cases hd
  | cons e es ih =>
      by_cases he : e = .destroy
      · subst he
        refine shut_attendAll (f := f.attend .destroy) es ?_
        rw [semaphore_attend]
        exact h.close
      · exact ih (keeps_attend he h) ((List.mem_cons.1 hd).resolve_left (Ne.symm he))

theorem giveUp_of_granted {w : ω} (hw : w ∈ (f.semaphore a).granted) :
    (f.attend (.giveUp a w)).semaphore a = { f.semaphore a with
      granted := (f.semaphore a).granted.erase w ++ (f.semaphore a).queue.take 1
      queue := (f.semaphore a).queue.drop 1
      banked := (f.semaphore a).banked + (1 - (f.semaphore a).queue.length) } := by
  simp only [semaphore_attend, Errand.effect, if_true, Semaphore.cancel, hw, Semaphore.signal]
  split
  · rename_i v rest hq
    simp [hq]
  · rename_i hq
    simp [hq]

theorem giveUp_of_not_granted {w : ω} (hw : w ∉ (f.semaphore a).granted) :
    (f.attend (.giveUp a w)).semaphore a =
      { f.semaphore a with queue := (f.semaphore a).queue.erase w } := by
  simp only [semaphore_attend, Errand.effect, if_true, Semaphore.cancel, hw, if_false]

/-- No wake-up is lost or duplicated, whatever is done at the semaphores and in which order. Before
they are destroyed every signal has let one wait through, or is banked, or lies ready for a wait that
has not looked since. The waits in line are given permits in the order in which they came, a permit is
banked only when nobody is left without one, and a wait that looks is let through if it is one of the
first for whom there are signals. The permit of a wait that gives up goes to the next, or to the bank;
a wait that is over leaves nothing behind. Once the semaphores are destroyed every wait that looks is
refused. -/
theorem served_in_line (t : Table) (log : L) (es : List (Errand ω)) (a : Actor) :
    let f := ({ table := t, log } : Factory ω L).attendAll es
    let l := ({} : Ledger ω).enterAll a es ({ table := t, log } : Factory ω L)
    let s := f.semaphore a
    l.completed ≤ l.signals ∧
    (.destroy ∉ es →
      l.signals = l.completed + s.banked + s.granted.length ∧
      s.granted ++ s.queue = l.line ∧ l.line.Nodup ∧ (0 < s.banked → s.queue = []) ∧
      (∀ w, (f.look w a).1 = .ok (l.admits w)) ∧
      ∀ w, (w ∈ s.granted → (f.attend (.giveUp a w)).semaphore a = { s with
          granted := s.granted.erase w ++ s.queue.take 1
          queue := s.queue.drop 1
          banked := s.banked + (1 - s.queue.length) }) ∧
        (w ∈ s.queue → (f.attend (.giveUp a w)).semaphore a = { s with queue := s.queue.erase w }) ∧
        (w ∉ l.line → (f.attend (.giveUp a w)).semaphore a = s)) ∧
    (.destroy ∈ es → f.destroyed = true ∧ s.queue = [] ∧
      ∀ w, (f.look w a).1 = .error (.error (.semaphoreClosed (semaphoreName a)))) := by
  intro f l s
  have hfresh : ∀ b, (({ table := t, log } : Factory ω L).semaphore b).Keeps {} := by
    intro b
    cases b with
    | smoker k => simpa [semaphore] using Semaphore.keeps_fresh
    | agent => exact Semaphore.keeps_fresh
  by_cases hd : .destroy ∈ es
  · have hs : s.Shut l := shut_of_destroy_mem (hfresh a) hd
    have hq : (f.semaphore .agent).Shut _ := shut_of_destroy_mem (hfresh .agent) hd
    refine ⟨hs.completed, fun h => absurd hd h, fun _ => ⟨hq.closed, hs.queue, fun w => ?_⟩⟩
    rw [(f.look_eq w a).1, Semaphore.poll_of_closed w hs.closed]
    rfl
  · have hs : s.Keeps l := keeps_attendAll (hfresh a) hd
    have hsignals := hs.signals
    have hnodup := hs.nodup
    rw [← hs.line, List.nodup_append] at hnodup
    refine ⟨by omega, fun _ => ⟨hsignals, hs.line, hs.nodup, hs.idle, fun w => ?_, fun w =>
      ⟨giveUp_of_granted, fun hw => ?_, fun hw => ?_⟩⟩, fun h => absurd h hd⟩
    · rw [(f.look_eq w a).1]
      exact hs.answer_poll _ w
    · exact giveUp_of_not_granted fun hg => hnodup.2.2 w hg w hw rfl
    · rw [← hs.line, List.mem_append, not_or] at hw
      rw [giveUp_of_not_granted hw.1, List.erase_of_not_mem hw.2]

/-- The permit of a wait that gives up goes to the one that came after it. -/
example : ((({ log := () } : Factory Nat Unit).attendAll
    [.look .agent 0, .look .agent 1, .signal .agent, .giveUp .agent 0]).look 1 .agent).1 = .ok true :=
  rfl

end Factory

end CigaretteSmokers
