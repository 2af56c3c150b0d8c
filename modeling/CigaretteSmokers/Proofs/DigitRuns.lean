import CigaretteSmokers.Text.Digits
import Mathlib.Data.List.TakeDrop

/-!
The digits of a number, read back: by the value of each digit, and as the run that a text begins
with, as long as what follows cannot extend it.
-/

namespace CigaretteSmokers.Text.Digits

section

variable {p : Char → Bool} {l rest : List Char}

theorem takeWhile_append_self (hl : ∀ c ∈ l, p c = true) (hr : rest.head?.any p = false) :
    (l ++ rest).takeWhile p = l := by
  rw [List.takeWhile_append_of_pos hl]
  cases rest with
  | nil => simp
  | cons c rest => simp_all

theorem dropWhile_append_self (hl : ∀ c ∈ l, p c = true) (hr : rest.head?.any p = false) :
    (l ++ rest).dropWhile p = rest := by
  rw [List.dropWhile_append_of_pos hl]
  cases rest with
  | nil => rfl
  | cons c rest => simp_all

theorem span_append_self (hl : ∀ c ∈ l, p c = true) (hr : rest.head?.any p = false) :
    (l ++ rest).span p = (l, rest) := by
  rw [List.span_eq_takeWhile_dropWhile, takeWhile_append_self hl hr, dropWhile_append_self hl hr]

end

theorem ne_of_isDigit {c d : Char} (hc : c.isDigit = true) (hd : d.isDigit = false) : c ≠ d := by
  rintro rfl
  rw [hc] at hd
  cases hd

/-- What begins like a number begins like nothing else. -/
theorem ne_of_starts {c d : Char} (hc : c = '-' ∨ c.isDigit = true) (hminus : d ≠ '-')
    (hd : d.isDigit = false) : c ≠ d := by
  rcases hc with rfl | hc
  · exact Ne.symm hminus
  · exact ne_of_isDigit hc hd

/-- Digits, at least one. -/
structure IsRun (ds : List Char) : Prop where
  ne_nil : ds ≠ []
  isDigit : ∀ c ∈ ds, c.isDigit = true

theorem IsRun.eq_cons {ds : List Char} (h : IsRun ds) :
    ∃ d tail, ds = d :: tail ∧ d.isDigit = true ∧ ∀ c ∈ tail, c.isDigit = true := by
  cases ds with
  | nil => exact absurd rfl h.ne_nil
  | cons d tail =>
      exact ⟨d, tail, rfl, h.isDigit d (by simp), fun c hc => h.isDigit c (List.mem_cons_of_mem _ hc)⟩

theorem isRun_toDigits (n : Nat) : IsRun (Nat.toDigits 10 n) :=
  ⟨Nat.toDigits_ne_nil, fun _ => Nat.isDigit_of_mem_toDigits (by decide) (by decide)⟩

theorem run?_append {ds rest : List Char} (h : IsRun ds)
    (hr : rest.head?.any Char.isDigit = false) : run? (ds ++ rest) = some (ds, rest) := by
  unfold run?
  rw [span_append_self h.isDigit hr]
  obtain ⟨d, tail, rfl, -⟩ := h.eq_cons
  rfl

/-- Only zero is written with a zero in front. -/
theorem head_toDigits {n : Nat} (hn : n ≠ 0) : (Nat.toDigits 10 n).head? ≠ some '0' := by
  induction n using Nat.strongRecOn with
  | ind n ih =>
      by_cases h : n < 10
      · rw [Nat.toDigits_of_lt_base h]
        simpa using hn
      · rw [Nat.toDigits_of_base_le (by decide) (by omega), List.head?_append]
        have hrec := ih (n / 10) (by omega) (by omega)
        cases hd : (Nat.toDigits 10 (n / 10)).head? with
        | none => simp [List.head?_eq_none_iff, Nat.toDigits_ne_nil] at hd
        | some c => simpa [hd] using hrec

theorem digit?_digitChar {d : Nat} (h : d < 16) : digit? (Nat.digitChar d) = some d := by
  revert d
  decide

theorem number?_append (radix n : Nat) (l m : List Char) :
    number? radix n (l ++ m) = (number? radix n l).bind fun k => number? radix k m := by
  induction l generalizing n with
  | nil => rfl
  | cons c l ih =>
      simp only [List.cons_append, number?]
      cases digit? c with
      | none => rfl
      | some d =>
          simp only [Option.bind_eq_bind, Option.bind_some]
          split
          · exact ih _
          · rfl

theorem number?_digitChar {radix n d : Nat} (hd : d < radix) (hr : radix ≤ 16) :
    number? radix n [Nat.digitChar d] = some (n * radix + d) := by
  simp [number?, digit?_digitChar (Nat.lt_of_lt_of_le hd hr), hd]

/-- The digits of a number denote it. -/
theorem number?_toDigits {radix : Nat} (h : 1 < radix) (hr : radix ≤ 16) (n : Nat) :
    number? radix 0 (Nat.toDigits radix n) = some n := by
  induction n using Nat.strongRecOn with
  | ind n ih =>
      by_cases hn : n < radix
      · rw [Nat.toDigits_of_lt_base hn, number?_digitChar hn hr]
        simp
      · have hpos : 0 < n := by omega
        rw [Nat.toDigits_of_base_le h (by omega), number?_append, ih _ (Nat.div_lt_self hpos h),
          Option.bind_some, number?_digitChar (Nat.mod_lt _ (by omega)) hr, Nat.div_add_mod']

end CigaretteSmokers.Text.Digits
