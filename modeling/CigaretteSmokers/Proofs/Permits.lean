import CigaretteSmokers.Semaphore

/-!
The permits of a semaphore, and what becomes of them. A permit is banked or lies ready for a wait
that has not looked since.
-/

namespace CigaretteSmokers.Semaphore

variable {ω : Type} [DecidableEq ω]

omit [DecidableEq ω] in
def permits (s : Semaphore ω) : Nat := s.banked + s.granted.length

theorem passed_permits {w : ω} {s q : Semaphore ω} (h : s.poll w = (.passed, q)) :
    q.permits + 1 = s.permits ∧ q.closed = s.closed := by
  rw [poll_eq] at h
  split at h
  · cases h
  · split at h
    · rename_i hw
      cases h
      have hpos := List.length_pos_of_mem hw
      simp only [permits, List.length_erase_of_mem hw, and_true]
      omega
    · split at h
      · cases h
      · split at h
        · rename_i n hn
          cases h
          simp only [permits, hn, and_true]
          omega
        · cases h

theorem pending_permits {w : ω} {s q : Semaphore ω} (h : s.poll w = (.pending, q)) :
    q.permits = s.permits ∧ q.closed = s.closed ∧ w ∈ q.queue := by
  rw [poll_eq] at h
  split at h
  · cases h
  · split at h
    · cases h
    · split at h
      · rename_i hw
        cases h
        exact ⟨rfl, rfl, hw⟩
      · split at h
        · cases h
        · cases h
          exact ⟨rfl, rfl, by simp⟩

theorem refused_permits {w : ω} {s q : Semaphore ω} (h : s.poll w = (.refused, q)) :
    q.permits ≤ s.permits ∧ q.closed = s.closed ∧ s.closed = true ∧ q.queue = s.queue := by
  rw [poll_eq] at h
  split at h
  · rename_i hc
    cases h
    refine ⟨?_, rfl, hc, rfl⟩
    simp only [permits]
    have := List.length_erase_le (a := w) (l := s.granted)
    omega
  · split at h
    · cases h
    · split at h
      · cases h
      · split at h <;> cases h

theorem permits_poll_le (w : ω) (s : Semaphore ω) : (s.poll w).2.permits ≤ s.permits := by
  rcases hq : s.poll w with ⟨_ | _ | _, q⟩
  · exact Nat.le_of_lt (Nat.lt_of_succ_le (Nat.le_of_eq (passed_permits hq).1))
  · exact Nat.le_of_eq (pending_permits hq).1
  · exact (refused_permits hq).1

omit [DecidableEq ω] in
@[simp] theorem permits_signal (s : Semaphore ω) : s.signal.permits = s.permits + 1 := by
  unfold signal permits
  split
  · simp only [List.length_append, List.length_singleton]
    omega
  · simp only
    omega

omit [DecidableEq ω] in
theorem ne_signal {s q : Semaphore ω} (h : q.permits ≤ s.permits) : q ≠ s.signal := by
  rintro rfl
  rw [permits_signal] at h
  omega

omit [DecidableEq ω] in
@[simp] theorem closed_signal (s : Semaphore ω) : s.signal.closed = s.closed := by
  unfold signal
  split <;> rfl

@[simp] theorem permits_cancel (w : ω) (s : Semaphore ω) : (s.cancel w).permits = s.permits := by
  unfold cancel
  split
  · rename_i hw
    have hpos := List.length_pos_of_mem hw
    rw [permits_signal]
    simp only [permits, List.length_erase_of_mem hw]
    omega
  · rfl

@[simp] theorem closed_cancel (w : ω) (s : Semaphore ω) : (s.cancel w).closed = s.closed := by
  unfold cancel
  split <;> simp

omit [DecidableEq ω] in
@[simp] theorem permits_close (s : Semaphore ω) : s.close.permits = s.permits := rfl

omit [DecidableEq ω] in
@[simp] theorem closed_close (s : Semaphore ω) : s.close.closed = true := rfl

/-- Nobody but `w` has ever waited: at most one permit lies ready, and `w` stands in the queue
only while there is no permit at all. Closing clears the queue for good. -/
structure Sole (w : ω) (s : Semaphore ω) : Prop where
  queue : s.queue = [] ∨ s.queue = [w] ∧ s.permits = 0 ∧ s.closed = false
  granted : s.granted = [] ∨ s.granted = [w]

omit [DecidableEq ω] in
theorem Sole.of_fresh (w : ω) : Sole w ({} : Semaphore ω) := ⟨.inl rfl, .inl rfl⟩

theorem Sole.permits_eq_zero {w : ω} {s : Semaphore ω} (h : Sole w s) (hw : s.queue.contains w) :
    s.permits = 0 ∧ s.closed = false := by
  rcases h.queue with hq | ⟨_, hp, hc⟩
  · simp [hq] at hw
  · exact ⟨hp, hc⟩

theorem Sole.poll {w : ω} {s : Semaphore ω} (h : Sole w s) : Sole w (s.poll w).2 := by
  rw [poll_eq]
  split
  · rename_i hc
    refine ⟨.inl (h.queue.resolve_right fun hq => ?_), ?_⟩
    · simp [hc] at hq
    · rcases h.granted with hg | hg <;> simp [hg]
  · split
    · rename_i hw
      refine ⟨.inl (h.queue.resolve_right fun hq => ?_), ?_⟩
      · have hpos := List.length_pos_of_mem hw
        have := hq.2.1
        simp only [permits] at this
        omega
      · rcases h.granted with hg | hg <;> simp [hg]
    · split
      · exact h
      · rename_i hc hg hq
        have hgranted : s.granted = [] := h.granted.resolve_right fun hg' => hg (by simp [hg'])
        have hqueue : s.queue = [] := h.queue.resolve_right fun hq' => hq (by simp [hq'.1])
        split
        · exact ⟨.inl hqueue, .inl hgranted⟩
        · rename_i hb
          refine ⟨.inr ⟨by simp [hqueue], ?_, by simpa using hc⟩, .inl hgranted⟩
          simp [permits, hb, hgranted]

omit [DecidableEq ω] in
theorem Sole.signal {w : ω} {s : Semaphore ω} (h : Sole w s) : Sole w s.signal := by
  unfold Semaphore.signal
  rcases h.queue with hq | ⟨hq, hp, -⟩
  · simp only [hq]
    exact ⟨.inl rfl, h.granted⟩
  · have hg : s.granted = [] := List.eq_nil_of_length_eq_zero (by simp only [permits] at hp; omega)
    simp only [hq, hg]
    exact ⟨.inl rfl, .inr rfl⟩

theorem Sole.cancel {w : ω} {s : Semaphore ω} (h : Sole w s) : Sole w (s.cancel w) := by
  unfold Semaphore.cancel
  split
  · rename_i hw
    have hg : s.granted = [w] := h.granted.resolve_left fun hg => by simp [hg] at hw
    have hq : s.queue = [] := h.queue.resolve_right fun hq => by
      have := hq.2.1
      simp [permits, hg] at this
    exact Sole.signal ⟨.inl hq, .inl (by simp [hg])⟩
  · refine ⟨.inl ?_, h.granted⟩
    rcases h.queue with hq | hq <;> simp [hq]

omit [DecidableEq ω] in
theorem Sole.close {w : ω} {s : Semaphore ω} (h : Sole w s) : Sole w s.close := ⟨.inl rfl, h.granted⟩

/-- What becomes of a semaphore at which nobody but `w` waits, short of being closed. -/
inductive Uses (w : ω) (s : Semaphore ω) : Semaphore ω → Prop
  | refl : Uses w s s
  | poll {q} (h : Uses w s q) : Uses w s (q.poll w).2
  | signal {q} (h : Uses w s q) : Uses w s q.signal
  | cancel {q} (h : Uses w s q) : Uses w s (q.cancel w)

theorem Uses.sole {w : ω} {s q : Semaphore ω} (h : Uses w s q) (hs : Sole w s) : Sole w q := by
  induction h with
  | refl => exact hs
  | poll _ ih => exact ih.poll
  | signal _ ih => exact ih.signal
  | cancel _ ih => exact ih.cancel

theorem closed_poll (w : ω) (s : Semaphore ω) : (s.poll w).2.closed = s.closed := by
  rcases hq : s.poll w with ⟨_ | _ | _, q⟩
  · exact (passed_permits hq).2
  · exact (pending_permits hq).2.1
  · exact (refused_permits hq).2.1

theorem Uses.closed {w : ω} {s q : Semaphore ω} (h : Uses w s q) : q.closed = s.closed := by
  induction h with
  | refl => rfl
  | poll _ ih => exact (closed_poll w _).trans ih
  | signal _ ih => exact (closed_signal _).trans ih
  | cancel _ ih => exact (closed_cancel w _).trans ih

end CigaretteSmokers.Semaphore
