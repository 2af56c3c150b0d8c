import CigaretteSmokers.Calendar.Text
import CigaretteSmokers.Proofs.DigitRuns
import Mathlib.Algebra.Group.Nat.Defs
import Mathlib.Data.List.TakeWhile

/-!
A moment that has been written is read as the moment that it is.
-/

namespace CigaretteSmokers.Timestamp

open Text (skipBlanks)
open Text.Digits

theorem skipBlanks_cons {c : Char} (h : Text.isBlank c = false) (rest : List Char) :
    skipBlanks (c :: rest) = c :: rest := by
  simp [skipBlanks, h]

theorem isBlank_of_isDigit {c : Char} (h : c.isDigit = true) : Text.isBlank c = false := by
  have hc : 48 ≤ c.toNat ∧ c.toNat ≤ 57 := by
    simpa [Char.isDigit, UInt32.le_iff_toNat_le] using h
  simp [Text.isBlank]
  omega

theorem isRun_padded (width n : Nat) : IsRun (padded width n) := by
  refine ⟨by simp [padded, Nat.toDigits_ne_nil], fun c hc => ?_⟩
  simp only [padded, List.mem_append, List.mem_replicate] at hc
  rcases hc with ⟨-, rfl⟩ | hc
  · rfl
  · exact (isRun_toDigits n).isDigit c hc

theorem ofDigitChars_padded (width n : Nat) : Nat.ofDigitChars 10 (padded width n) 0 = n := by
  simp [padded, Nat.ofDigitChars_append, Nat.ofDigitChars_replicate_zero,
    Nat.ofDigitChars_ten_toDigits]

theorem length_padded {width n : Nat} (hw : 0 < width) (hn : n < 10 ^ width) :
    (padded width n).length = width := by
  have := (Nat.length_toDigits_le_iff (n := n) (by decide : 1 < 10) hw).2 hn
  simp only [padded, List.length_append, List.length_replicate]
  omega

theorem skipBlanks_padded (width n : Nat) (rest : List Char) :
    skipBlanks (padded width n ++ rest) = padded width n ++ rest := by
  obtain ⟨c, ds, h, hc, -⟩ := (isRun_padded width n).eq_cons
  rw [h]
  exact skipBlanks_cons (isBlank_of_isDigit hc) _

theorem number?_padded {width n : Nat} (hw : 0 < width) (hn : n < 10 ^ width) (rest : List Char) :
    number? width (padded width n ++ rest) = some (n, rest) := by
  have htake : ((padded width n ++ rest).take width).takeWhile Char.isDigit = padded width n := by
    rw [List.take_left' (length_padded hw hn)]
    exact List.takeWhile_eq_self_iff.2 (isRun_padded width n).isDigit
  have hvalue := ofDigitChars_padded width n
  unfold number?
  rw [htake]
  obtain ⟨c, ds, h, -⟩ := (isRun_padded width n).eq_cons
  rw [h] at hvalue ⊢
  simp [hvalue]

theorem part?_padded {n : Nat} (hn : n < 100) (rest : List Char) :
    part? (padded 2 n ++ rest) = some (n, rest) := by
  rw [part?, skipBlanks_padded, number?_padded (by decide) hn]

theorem mark?_cons {c : Char} (h : Text.isBlank c = false) (rest : List Char) :
    mark? c (c :: rest) = some rest := by
  simp [mark?, skipBlanks_cons h]

theorem year?_yearText (year : Int) (rest : List Char) :
    year? (yearText year ++ '-' :: rest) = some (year, '-' :: rest) := by
  have hrun : run? (padded 4 year.natAbs ++ '-' :: rest) =
      some (padded 4 year.natAbs, '-' :: rest) :=
    run?_append (isRun_padded _ _) rfl
  unfold yearText
  split
  · rename_i h
    have hnumber : number? 4 (padded 4 year.natAbs ++ '-' :: rest) =
        some (year.natAbs, '-' :: rest) := number?_padded (by decide) (by omega) _
    have hblank := skipBlanks_padded 4 year.natAbs ('-' :: rest)
    obtain ⟨c, ds, hp, hc, -⟩ := (isRun_padded 4 year.natAbs).eq_cons
    have hminus : c ≠ '-' := ne_of_isDigit hc rfl
    have hplus : c ≠ '+' := ne_of_isDigit hc rfl
    rw [hp, List.cons_append] at hnumber hblank
    rw [year?, hp, List.cons_append, hblank]
    simp [hminus, hplus, hnumber]
    omega
  · split
    · rename_i h
      rw [year?, List.cons_append, skipBlanks_cons (by decide)]
      simp only [hrun, Option.map_some, ofDigitChars_padded]
      congr
      omega
    · rename_i h h'
      rw [year?, List.cons_append, skipBlanks_cons (by decide)]
      simp only [hrun, Option.map_some, ofDigitChars_padded]
      congr
      omega

theorem fraction?_fractionText {n : Nat} (h : n < 1000000000) (rest : List Char)
    (hr : rest.head?.any Char.isDigit = false) (hdot : rest.head? ≠ some '.') :
    fraction? (fractionText n ++ rest) = some (n, rest) := by
  have hplaces : ∀ {width m}, 0 < width → width ≤ 9 → m < 10 ^ width →
      fraction? ('.' :: padded width m ++ rest) = some (m * 10 ^ (9 - width), rest) := by
    intro width m hw hle hm
    have hrun : run? (padded width m ++ rest) = some (padded width m, rest) :=
      run?_append (isRun_padded _ _) hr
    have hlen := length_padded hw hm
    simp only [List.cons_append, fraction?, hrun, Option.map_some, hlen,
      List.take_of_length_le (hlen.symm ▸ hle : (padded width m).length ≤ 9), ofDigitChars_padded]
    rfl
  unfold fractionText
  split
  · rename_i hn
    rw [List.nil_append, hn]
    cases rest with
    | nil => rfl
    | cons c rest => simp_all [fraction?]
  · split
    · rename_i hn
      rw [hplaces (by decide) (by decide) (by omega)]
      congr
      omega
    · split
      · rename_i hn
        rw [hplaces (by decide) (by decide) (by omega)]
        congr
        omega
      · rw [hplaces (by decide) (by decide) (by omega)]
        simp

theorem daysIn_le (year : Int) (month : Nat) : Date.daysIn year month ≤ 31 := by
  unfold Date.daysIn
  split
  · split <;> decide
  · split <;> decide

/-- A moment that has been written reads back. -/
theorem parse?_render (t : Timestamp) : parse? t.render = some t := by
  obtain ⟨date, minute, second, nanosecond, hvalid⟩ := t
  obtain ⟨hdate, hminute, hsecond, hnanosecond⟩ := id hvalid
  have hd := hdate
  simp only [Date.isValid, Bool.and_eq_true, decide_eq_true_eq] at hd
  have hday := Nat.le_trans hd.2 (daysIn_le date.year date.month)
  simp only [parse?, render, String.toList_ofList, toChars, List.append_assoc, List.cons_append]
  simp only [ofChars?, year?_yearText, Option.bind_eq_bind, Option.bind_some,
    mark?_cons (c := '-') (by decide), mark?_cons (c := ':') (by decide),
    part?_padded (n := date.month) (by omega), part?_padded (n := date.day) (by omega),
    part?_padded (n := minute / 60) (by omega), part?_padded (n := minute % 60) (by omega),
    part?_padded (n := second) (by omega),
    fraction?_fractionText hnanosecond ['Z'] rfl (by decide)]
  have hsplit : minute / 60 * 60 + minute % 60 = minute := by omega
  have hsixty : minute % 60 < 60 := by omega
  have hlocal : ofLocal? date minute second nanosecond 0 =
      some ⟨date, minute, second, nanosecond, hvalid⟩ := by
    have hlow : ¬ (minute : Int) < 0 := by omega
    have hhigh : ¬ (1440 : Int) ≤ minute := by omega
    simp [ofLocal?, hlow, hhigh, hdate, hminute, ofFields?, hsecond, hnanosecond]
  have hzone : offset? (skipBlanks ['Z']) = some (0, []) := rfl
  have hend : skipBlanks [] = [] := rfl
  simp [hzone, hend, hsplit, hsixty, hlocal]

end CigaretteSmokers.Timestamp
