/-!
A counting semaphore that serves its waits in the order in which they came. A wait is known by
its name, and is given its permit before it next looks: until then the permit is neither banked
nor spent.
-/

namespace CigaretteSmokers

structure Semaphore (ω : Type) where
  banked : Nat := 0
  queue : List ω := []
  granted : List ω := []
  closed : Bool := false
  deriving DecidableEq, Inhabited

namespace Semaphore

/-- What a wait has in hand when it passes. As it lets go of it, so many permits go back. -/
structure Permit where
  count : Nat := 1
  deriving DecidableEq

/-- A permit that is used up: nothing of it goes back. -/
def Permit.forget (p : Permit) : Permit := { p with count := 0 }

/-- What a wait that asks for a permit is given. -/
inductive Grant
  | permit (p : Permit)
  | pending
  | refused
  deriving DecidableEq

/-- What a wait is told when it looks. -/
inductive Reply
  | passed
  | pending
  | refused
  deriving DecidableEq

variable {ω : Type} [DecidableEq ω]

/-- The wait `w` asks for a permit, for the first time or again. -/
def acquire (w : ω) (s : Semaphore ω) : Grant × Semaphore ω :=
  if s.closed then (.refused, { s with granted := s.granted.erase w })
  else if w ∈ s.granted then (.permit {}, { s with granted := s.granted.erase w })
  else if w ∈ s.queue then (.pending, s)
  else match s.banked with
    | n + 1 => (.permit {}, { s with banked := n })
    | 0 => (.pending, { s with queue := s.queue ++ [w] })

omit [DecidableEq ω] in
/-- One permit more: for the wait that came first, or for the bank. -/
def signal (s : Semaphore ω) : Semaphore ω :=
  match s.queue with
  | w :: rest => { s with queue := rest, granted := s.granted ++ [w] }
  | [] => { s with banked := s.banked + 1 }

omit [DecidableEq ω] in
/-- A permit in hand is let go of. -/
def letGo (p : Permit) (s : Semaphore ω) : Semaphore ω := Nat.repeat signal p.count s

/-- The wait `w` looks. A permit that it gets is used up at once. -/
def poll (w : ω) (s : Semaphore ω) : Reply × Semaphore ω :=
  match s.acquire w with
  | (.permit p, s) => (.passed, s.letGo p.forget)
  | (.pending, s) => (.pending, s)
  | (.refused, s) => (.refused, s)

omit [DecidableEq ω] in
@[simp] theorem letGo_forget (p : Permit) (s : Semaphore ω) : s.letGo p.forget = s := rfl

theorem poll_eq (w : ω) (s : Semaphore ω) : s.poll w =
    if s.closed then (.refused, { s with granted := s.granted.erase w })
    else if w ∈ s.granted then (.passed, { s with granted := s.granted.erase w })
    else if w ∈ s.queue then (.pending, s)
    else match s.banked with
      | n + 1 => (.passed, { s with banked := n })
      | 0 => (.pending, { s with queue := s.queue ++ [w] }) := by
  unfold poll acquire
  by_cases hc : s.closed
  · simp [hc]
  · by_cases hg : w ∈ s.granted
    · simp [hc, hg]
    · by_cases hq : w ∈ s.queue
      · simp [hc, hg, hq]
      · cases hb : s.banked <;> simp [hc, hg, hq]

/-- The wait `w` gives up. A permit that it was given goes on to the next. -/
def cancel (w : ω) (s : Semaphore ω) : Semaphore ω :=
  if w ∈ s.granted then signal { s with granted := s.granted.erase w }
  else { s with queue := s.queue.erase w }

omit [DecidableEq ω] in
/-- Refuses every wait from now on, those that stand in the queue included. -/
def close (s : Semaphore ω) : Semaphore ω := { s with queue := [], closed := true }

end Semaphore

end CigaretteSmokers
