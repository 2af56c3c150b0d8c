import CigaretteSmokers.Settings.Document
import CigaretteSmokers.Proofs.DigitRuns
import CigaretteSmokers.Proofs.ShortestFloat

/-!
Numbers of a document that have been written read back: whole numbers, and finite floats with the
bits that they had.
-/

namespace CigaretteSmokers

open Text.Digits

namespace Decimal

/-- A decimal in positional form is digits before a point and digits after it, and denotes what the
decimal does. -/
theorem positional_eq (d : Decimal) (hd : d.digits = 0 → d.power = 0) :
    ∃ w f : List Char, d.positional true = w ++ '.' :: f ∧
      IsRun w ∧ IsRun f ∧ (w = ['0'] ∨ w.head? ≠ some '0') ∧
      (⟨Nat.ofDigitChars 10 (w ++ f) 0, 0 - f.length⟩ : Decimal).value = d.value := by
  obtain ⟨hne, hdigits⟩ : IsRun d.digitText := isRun_toDigits d.digits
  have hhead : d.digits ≠ 0 → d.digitText.head? ≠ some '0' := head_toDigits
  have hvalue : Nat.ofDigitChars 10 d.digitText 0 = d.digits := Nat.ofDigitChars_ten_toDigits
  have hzero : d.digits = 0 → d.digitText = ['0'] := fun h => by rw [digitText, h]; rfl
  obtain ⟨digits, power⟩ := d
  unfold positional
  generalize digitText ⟨digits, power⟩ = text at *
  dsimp only at *
  cases power with
  | ofNat n =>
      dsimp only
      refine ⟨text ++ List.replicate (if digits = 0 then 0 else n) '0', ['0'], rfl,
        ⟨by simp [hne], ?_⟩, ⟨by simp, by simp⟩, ?_, ?_⟩
      · simp only [List.mem_append, List.mem_replicate]
        rintro a (ha | ⟨-, rfl⟩)
        · exact hdigits a ha
        · rfl
      · by_cases hd : digits = 0
        · exact .inl (by simp [hzero hd, hd])
        · refine .inr ?_
          rw [List.head?_append_of_ne_nil _ hne]
          exact hhead hd
      · have hzeros : digits * 10 ^ (if digits = 0 then 0 else n) = digits * 10 ^ n := by
          split <;> simp_all
        have hread : Nat.ofDigitChars 10
            (text ++ List.replicate (if digits = 0 then 0 else n) '0' ++ ['0']) 0 =
              digits * 10 ^ n * 10 := by
          rw [Nat.ofDigitChars_append, Nat.ofDigitChars_append, hvalue,
            Nat.ofDigitChars_replicate_zero, Nat.mul_comm _ digits, hzeros, Nat.ofDigitChars_cons]
          simp [Nat.mul_comm]
        rw [hread]
        simp [value]
  | negSucc n =>
      have hd : digits ≠ 0 := fun h => by simpa using hd h
      dsimp only
      by_cases hplaces : n + 1 < text.length
      · rw [if_pos hplaces]
        refine ⟨_, _, rfl, ⟨?_, fun a ha => hdigits a (List.mem_of_mem_take ha)⟩,
          ⟨?_, fun a ha => hdigits a (List.mem_of_mem_drop ha)⟩, .inr ?_, ?_⟩
        · rw [ne_eq, List.take_eq_nil_iff, not_or]
          exact ⟨by omega, hne⟩
        · rw [ne_eq, List.drop_eq_nil_iff]
          omega
        · rw [List.head?_take, if_neg (by omega)]
          exact hhead hd
        · rw [List.take_append_drop, hvalue, List.length_drop]
          congr
          omega
      · rw [if_neg hplaces]
        refine ⟨['0'], _, rfl, ⟨by simp, by simp⟩, ⟨by simp [hne], ?_⟩, .inl rfl, ?_⟩
        · simp only [List.mem_append, List.mem_replicate]
          rintro a (⟨-, rfl⟩ | ha)
          · rfl
          · exact hdigits a ha
        · have hzeros : Nat.ofDigitChars 10
              (['0'] ++ (List.replicate (n + 1 - text.length) '0' ++ text)) 0 = digits := by
            simp [Nat.ofDigitChars_cons, Nat.ofDigitChars_append, Nat.ofDigitChars_replicate_zero,
              hvalue]
          rw [hzeros, List.length_append, List.length_replicate]
          congr
          omega

end Decimal

namespace Toml

/-- What a number does not go on with. -/
def endsDigits (rest : List Char) : Prop :=
  ∀ c ∈ rest.head?, c.isDigit = false ∧ c ≠ '_'

theorem moreDigits?_append {w rest : List Char} (hw : ∀ c ∈ w, c.isDigit = true)
    (hrest : endsDigits rest) : moreDigits? Char.isDigit (w ++ rest) = some (w, rest) := by
  induction w with
  | nil =>
      cases rest with
      | nil => rfl
      | cons c rest =>
          obtain ⟨hdigit, hscore⟩ := hrest c rfl
          rw [List.nil_append, moreDigits?.eq_def]
          split <;> simp_all
  | cons d w ih =>
      have hd := hw d (by simp)
      have hscore : d ≠ '_' := by rintro rfl; cases hd
      have htail := ih fun c hc => hw c (List.mem_cons_of_mem _ hc)
      rw [List.cons_append, moreDigits?.eq_def]
      split <;> simp_all [push]

theorem digits?_append {w rest : List Char} (hw : IsRun w) (hrest : endsDigits rest) :
    digits? Char.isDigit (w ++ rest) = some (w, rest) := by
  obtain ⟨d, tail, rfl, hd, htail⟩ := hw.eq_cons
  simp [digits?, hd, moreDigits?_append htail hrest, push]

theorem whole?_append {w rest : List Char} (hw : IsRun w)
    (hzero : w = ['0'] ∨ w.head? ≠ some '0') (hrest : endsDigits rest) :
    whole? (w ++ rest) = some (w, rest) := by
  rcases hzero with rfl | hzero
  · rfl
  · rw [← digits?_append hw hrest, whole?.eq_def]
    obtain ⟨d, tail, rfl, -⟩ := hw.eq_cons
    split
    · simp_all
    · rfl

section Decimal

variable {w f rest : List Char} (negative : Bool)

theorem decimal?_pointed (hw : IsRun w) (hf : IsRun f) (hzero : w = ['0'] ∨ w.head? ≠ some '0') :
    decimal? negative (w ++ '.' :: (f ++ '\n' :: rest)) =
      ((⟨Nat.ofDigitChars 10 (w ++ f) 0, 0 - f.length⟩ : Decimal).nearest? negative).map
        fun x => (.float x, '\n' :: rest) := by
  have hpoint : endsDigits ('.' :: (f ++ '\n' :: rest)) := by simp [endsDigits]
  have hline : endsDigits ('\n' :: rest) := by simp [endsDigits]
  simp only [decimal?, whole?_append hw hzero hpoint, Option.bind_eq_bind, Option.bind_some,
    fraction?, digits?_append hf hline, Option.map_some, exponent?]
  simp [Option.map_eq_bind]

theorem decimal?_toDigits (n : Nat) (rest : List Char) :
    decimal? false (Nat.toDigits 10 n ++ '\n' :: rest) =
      (Checked.signed n).map fun k => (.integer k, '\n' :: rest) := by
  have hline : endsDigits ('\n' :: rest) := by simp [endsDigits]
  have hzero : Nat.toDigits 10 n = ['0'] ∨ (Nat.toDigits 10 n).head? ≠ some '0' := by
    by_cases hn : n = 0
    · exact .inl (by rw [hn]; rfl)
    · exact .inr (head_toDigits hn)
  simp only [decimal?, whole?_append (isRun_toDigits n) hzero hline, Option.bind_eq_bind,
    Option.bind_some, fraction?, exponent?]
  simp [Option.map_eq_bind, Nat.ofDigitChars_ten_toDigits]

end Decimal

namespace Moment

/-- Digits, and after them what neither a date nor a time goes on with. -/
structure Breaks (text : List Char) : Prop where
  eq_append : ∃ w c rest, text = w ++ c :: rest ∧ (∀ d ∈ w, d.isDigit = true) ∧
    c.isDigit = false ∧ c ≠ '-' ∧ c ≠ ':'

theorem Breaks.pair? {text rest : List Char} {low high : Nat} (h : Breaks text)
    (hrest : pair? low high text = some rest) : Breaks rest := by
  obtain ⟨w, c, tail, rfl, hw, hc, hmarks⟩ := h.eq_append
  cases w with
  | nil =>
      cases tail <;> simp [Moment.pair?, hc] at hrest
  | cons d w =>
      cases w with
      | nil => simp [Moment.pair?, hc] at hrest
      | cons e w =>
          simp only [List.cons_append, Moment.pair?, Option.ite_none_right_eq_some,
            Option.some.injEq] at hrest
          obtain ⟨-, rfl⟩ := hrest
          exact ⟨w, c, tail, rfl, fun d hd => hw d (by simp [hd]), hc, hmarks⟩

theorem Breaks.mark? {text : List Char} {m : Char} (h : Breaks text) (hm : m = '-' ∨ m = ':') :
    mark? m text = none := by
  obtain ⟨w, c, tail, rfl, hw, hc, hdash, hcolon⟩ := h.eq_append
  cases w with
  | nil => rcases hm with rfl | rfl <;> simp [Moment.mark?, Ne.symm hdash, Ne.symm hcolon]
  | cons d w =>
      have hd := hw d (by simp)
      have hne : m ≠ d := by
        rintro rfl
        rcases hm with rfl | rfl <;> cases hd
      simp [Moment.mark?, hne]

theorem Breaks.skip? {text : List Char} (h : Breaks text) : skip? text = none := by
  have hclock : clock? text = none := by
    unfold clock?
    cases hpair : Moment.pair? 0 23 text with
    | none => rfl
    | some rest => simp [(h.pair? hpair).mark? (.inr rfl)]
  have hdate : date? text = none := by
    unfold date?
    cases hpair : Moment.pair? 0 99 text with
    | none => rfl
    | some rest =>
        cases hagain : Moment.pair? 0 99 rest with
        | none => simp [hagain]
        | some rest => simp [hagain, ((h.pair? hpair).pair? hagain).mark? (.inl rfl)]
  simp [Moment.skip?, hdate, hclock]

theorem skip?_minus (text : List Char) : skip? ('-' :: text) = none := by
  have hpair : ∀ low high, Moment.pair? low high ('-' :: text) = none := by
    cases text <;> simp [Moment.pair?]
  simp [Moment.skip?, date?, clock?, hpair]

end Moment

theorem numeral?_unsigned {w rest : List Char} {c : Char} (hw : IsRun w)
    (hc : c ≠ 'x' ∧ c ≠ 'o' ∧ c ≠ 'b') :
    numeral? (w ++ c :: rest) = decimal? false (w ++ c :: rest) := by
  obtain ⟨d, digits, rfl, hd, hdigits⟩ := hw.eq_cons
  have hminus : d ≠ '-' := ne_of_isDigit hd rfl
  have hplus : d ≠ '+' := ne_of_isDigit hd rfl
  have hi : d ≠ 'i' := ne_of_isDigit hd rfl
  have hn : d ≠ 'n' := ne_of_isDigit hd rfl
  have hsecond : ∀ e tail, digits ++ c :: rest = e :: tail → e ≠ 'x' ∧ e ≠ 'o' ∧ e ≠ 'b' := by
    intro e tail he
    cases digits with
    | nil =>
        cases he
        exact hc
    | cons f digits =>
        cases he
        have he := hdigits e (by simp)
        exact ⟨ne_of_isDigit he rfl, ne_of_isDigit he rfl, ne_of_isDigit he rfl⟩
  rw [List.cons_append, numeral?.eq_def]
  split
  · rename_i h
    exact absurd rfl (hsecond _ _ (List.cons.inj h).2).1
  · rename_i h
    exact absurd rfl (hsecond _ _ (List.cons.inj h).2).2.1
  · rename_i h
    exact absurd rfl (hsecond _ _ (List.cons.inj h).2).2.2
  · simp [sign, named?, hminus, hplus, hi, hn]

theorem numeral?_negative {w rest : List Char} (hw : IsRun w) :
    numeral? ('-' :: (w ++ rest)) = decimal? true (w ++ rest) := by
  obtain ⟨d, digits, rfl, hd, -⟩ := hw.eq_cons
  have hi : d ≠ 'i' := ne_of_isDigit hd rfl
  have hn : d ≠ 'n' := ne_of_isDigit hd rfl
  rw [numeral?.eq_def]
  simp [sign, named?, hi, hn]

/-- A value that begins like a number and is no date is a number. -/
theorem scalarValue?_numeral {c : Char} {rest : List Char} (hc : c = '-' ∨ c.isDigit = true)
    (hskip : Moment.skip? (c :: rest) = none) :
    scalarValue? (c :: rest) = numeral? (c :: rest) := by
  have ht : c ≠ 't' := ne_of_starts hc (by decide) rfl
  have hf : c ≠ 'f' := ne_of_starts hc (by decide) rfl
  have hquote : c ≠ '"' := ne_of_starts hc (by decide) rfl
  have hapostrophe : c ≠ '\'' := ne_of_starts hc (by decide) rfl
  simp [scalarValue?, text?, hskip, ht, hf, hquote, hapostrophe]

theorem scalarValue?_digits {w rest : List Char} {c : Char} (hw : IsRun w)
    (hc : c.isDigit = false ∧ c ≠ '-' ∧ c ≠ ':') (hmarks : c ≠ 'x' ∧ c ≠ 'o' ∧ c ≠ 'b') :
    scalarValue? (w ++ c :: rest) = decimal? false (w ++ c :: rest) := by
  have hbreaks : Moment.Breaks (w ++ c :: rest) := ⟨w, c, rest, rfl, hw.isDigit, hc⟩
  rw [← numeral?_unsigned hw hmarks]
  obtain ⟨d, digits, rfl, hd, -⟩ := hw.eq_cons
  exact scalarValue?_numeral (.inr hd) hbreaks.skip?

/-- A whole number that has been written reads back. -/
theorem scalarValue?_toDigits {n : Nat} {k : Int64} (h : Checked.signed n = some k)
    (rest : List Char) :
    scalarValue? (Nat.toDigits 10 n ++ '\n' :: rest) = some (.integer k, '\n' :: rest) := by
  rw [scalarValue?_digits (isRun_toDigits n) (by decide) (by decide), decimal?_toDigits, h, Option.map_some]

end Toml

namespace Settings

theorem floatText_eq {x : Binary64} (hx : x.isFinite = true) :
    floatText x = (if x.signed then ['-'] else []) ++ x.shortest.positional true := by
  have hfield : ¬ x.exponentField = 2047 := by simpa [Binary64.isFinite] using hx
  simp [floatText, Binary64.render, Toml.floatStyle, Binary64.isNaN, Binary64.isInfinite, hfield]

/-- A finite float that has been written reads back, bit for bit. -/
theorem scalarValue?_floatText {x : Binary64} (hx : x.isFinite = true) (rest : List Char) :
    Toml.scalarValue? (floatText x ++ '\n' :: rest) = some (.float x, '\n' :: rest) := by
  obtain ⟨w, f, htext, hw, hf, hlead, hvalue⟩ :=
    x.shortest.positional_eq (Binary64.shortest_power_eq_zero hx)
  have hdecimal : ∀ negative, x.signed = negative →
      Toml.decimal? negative (w ++ '.' :: (f ++ '\n' :: rest)) =
        some (.float x, '\n' :: rest) := by
    rintro _ rfl
    rw [Toml.decimal?_pointed _ hw hf hlead, Binary64.nearest?_of_shortest hx hvalue,
      Option.map_some]
  rw [floatText_eq hx, htext]
  cases hsign : x.signed with
  | false =>
      rw [← hdecimal _ hsign, ← Toml.scalarValue?_digits hw (by decide) (by decide)]
      simp
  | true =>
      rw [← hdecimal _ hsign, ← Toml.numeral?_negative hw,
        ← Toml.scalarValue?_numeral (.inl rfl) (Toml.Moment.skip?_minus _)]
      simp

end Settings

end CigaretteSmokers
