import CigaretteSmokers.Number.Nearest
import Mathlib.Algebra.Order.Field.Power
import Mathlib.Tactic.FieldSimp
import Mathlib.Tactic.Linarith
import Mathlib.Tactic.Ring

/-!
The interval of the reals that round to a floating-point number, and that the nearest number to a
decimal of this interval is that number, with the tie at a bound going to the even mantissa.
-/

namespace CigaretteSmokers

section Powers

variable {b : ℚ}

theorem pow_toNat_eq (hb : b ≠ 0) (p : ℤ) : b ^ p.toNat = b ^ p * b ^ (-p).toNat := by
  rcases le_total 0 p with h | h
  · lift p to ℕ using h
    simp
  · obtain ⟨n, rfl⟩ : ∃ n : ℕ, p = -n := ⟨p.natAbs, by omega⟩
    simp [hb]

/-- A quotient of whole numbers over a power of two. -/
theorem scaled_quotient (n d : ℕ) (e : ℤ) :
    ((n * Nat.pow 2 (-e).toNat : ℕ) : ℚ) / ((d * Nat.pow 2 e.toNat : ℕ) : ℚ) = n / d / 2 ^ e := by
  have h := pow_toNat_eq (b := 2) (by norm_num) e
  push_cast [Nat.pow_eq]
  rw [h]
  field_simp

theorem two_pow_le_ten_pow {j k : ℕ} (h : 28 * j ≤ 93 * k) : 2 ^ j ≤ 10 ^ k := by
  refine (Nat.pow_le_pow_iff_left (n := 28) (by decide)).1 ?_
  calc (2 ^ j) ^ 28 = 2 ^ (28 * j) := by rw [← pow_mul, mul_comm]
    _ ≤ 2 ^ (93 * k) := Nat.pow_le_pow_right (by decide) h
    _ = (2 ^ 93) ^ k := pow_mul ..
    _ ≤ (10 ^ 28) ^ k := Nat.pow_le_pow_left (by norm_num) k
    _ = (10 ^ k) ^ 28 := by rw [← pow_mul, ← pow_mul, mul_comm]

theorem ten_pow_le_two_pow {j k : ℕ} (h : 10 * k ≤ 3 * j) : 10 ^ k ≤ 2 ^ j := by
  refine (Nat.pow_le_pow_iff_left (n := 3) (by decide)).1 ?_
  calc (10 ^ k) ^ 3 = (10 ^ 3) ^ k := by rw [← pow_mul, ← pow_mul, mul_comm]
    _ ≤ (2 ^ 10) ^ k := Nat.pow_le_pow_left (by norm_num) k
    _ = 2 ^ (10 * k) := (pow_mul ..).symm
    _ ≤ 2 ^ (3 * j) := Nat.pow_le_pow_right (by decide) h
    _ = (2 ^ j) ^ 3 := by rw [← pow_mul, mul_comm]

end Powers

namespace Rounding

theorem divEven_eq {n d m : ℕ} (hd : 0 < d) (hlow : 2 * m * d ≤ 2 * n + d)
    (hhigh : 2 * n ≤ 2 * m * d + d)
    (htie : m % 2 = 1 → 2 * m * d < 2 * n + d ∧ 2 * n < 2 * m * d + d) : divEven n d = m := by
  obtain ⟨q, hq⟩ : ∃ q, q = n / d := ⟨_, rfl⟩
  obtain ⟨r, hr⟩ : ∃ r, r = n % d := ⟨_, rfl⟩
  have hn : n = q * d + r := by rw [hq, hr, Nat.div_add_mod']
  have hrd : r < d := hr ▸ Nat.mod_lt n hd
  have hcases : m = q ∨ m = q + 1 := by
    have hle : q ≤ m := by
      by_contra hlt
      nlinarith [Nat.mul_le_mul_right d (show m + 1 ≤ q by omega)]
    have hge : m ≤ q + 1 := by
      by_contra hlt
      nlinarith [Nat.mul_le_mul_right d (show q + 2 ≤ m by omega)]
    omega
  unfold divEven
  rw [← hq, ← hr]
  rcases hcases with rfl | rfl
  · rw [show 2 * m * d = 2 * (m * d) by ring] at hlow hhigh htie
    generalize m * d = k at *
    dsimp only
    split
    · rfl
    · split <;> omega
  · rw [show 2 * (q + 1) * d = 2 * (q * d) + 2 * d by ring] at hlow hhigh htie
    generalize q * d = k at *
    dsimp only
    split
    · omega
    · split <;> omega

/-- The whole number within half of a quotient is what it rounds to; an odd one must be nearer. -/
theorem divEven_of_near {n d m : ℕ} (hd : 0 < d) (hlow : (m : ℚ) - 1 / 2 ≤ n / d)
    (hhigh : (n / d : ℚ) ≤ m + 1 / 2)
    (htie : m % 2 = 1 → (m : ℚ) - 1 / 2 < n / d ∧ (n / d : ℚ) < m + 1 / 2) : divEven n d = m := by
  have hpos : (0 : ℚ) < d := by exact_mod_cast hd
  rw [le_div_iff₀ hpos] at hlow
  rw [div_le_iff₀ hpos] at hhigh
  refine divEven_eq hd ?_ ?_ fun hodd => ?_
  · have : (2 * m * d : ℚ) ≤ 2 * n + d := by linarith
    exact_mod_cast this
  · have : (2 * n : ℚ) ≤ 2 * m * d + d := by linarith
    exact_mod_cast this
  · obtain ⟨hlow, hhigh⟩ := htie hodd
    rw [lt_div_iff₀ hpos] at hlow
    rw [div_lt_iff₀ hpos] at hhigh
    have hlow : (2 * m * d : ℚ) < 2 * n + d := by linarith
    have hhigh : (2 * n : ℚ) < 2 * m * d + d := by linarith
    exact ⟨by exact_mod_cast hlow, by exact_mod_cast hhigh⟩

theorem scaled_pos {d : ℕ} (hd : 0 < d) (e : ℤ) : 0 < d * Nat.pow 2 e.toNat :=
  Nat.mul_pos hd (Nat.pow_pos (by decide))

end Rounding

namespace Decimal

/-- The scale at which a quotient has 53 bits; below the least scale there are fewer. -/
theorem scaleOf_eq {n d : ℕ} (hn : n ≠ 0) (hd : d ≠ 0) {e : ℤ} (he : -1074 ≤ e)
    (hhigh : (n / d : ℚ) < 2 ^ 53 * 2 ^ e) (hlow : (2 ^ 52 * 2 ^ e : ℚ) ≤ n / d ∨ e = -1074) :
    scaleOf n d = e := by
  have hpos : (0 : ℚ) < d := by exact_mod_cast Nat.pos_of_ne_zero hd
  obtain ⟨g, hg⟩ : ∃ g : ℤ, g = n.log2 - d.log2 - 52 := ⟨_, rfl⟩
  have hnlow : (2 : ℚ) ^ (n.log2 : ℤ) ≤ n := by exact_mod_cast Nat.log2_self_le hn
  have hnhigh : (n : ℚ) < 2 ^ (n.log2 + 1 : ℤ) := by exact_mod_cast Nat.lt_log2_self
  have hdlow : (2 : ℚ) ^ (d.log2 : ℤ) ≤ d := by exact_mod_cast Nat.log2_self_le hd
  have hdhigh : (d : ℚ) < 2 ^ (d.log2 + 1 : ℤ) := by exact_mod_cast Nat.lt_log2_self
  have hup : (n / d : ℚ) < 2 ^ (g + 53) := by
    rw [div_lt_iff₀ hpos]
    calc (n : ℚ) < 2 ^ (n.log2 + 1 : ℤ) := hnhigh
      _ = 2 ^ (g + 53) * 2 ^ (d.log2 : ℤ) := by rw [← zpow_add₀ (by norm_num)]; congr 1; omega
      _ ≤ 2 ^ (g + 53) * d := by gcongr
  have hdown : (2 : ℚ) ^ (g + 51) < n / d := by
    rw [lt_div_iff₀ hpos]
    calc (2 : ℚ) ^ (g + 51) * d < 2 ^ (g + 51) * 2 ^ (d.log2 + 1 : ℤ) := by gcongr
      _ = 2 ^ (n.log2 : ℤ) := by rw [← zpow_add₀ (by norm_num)]; congr 1; omega
      _ ≤ n := hnlow
  have hfits : n * Nat.pow 2 (-g).toNat < Binary64.leadingBit * (d * Nat.pow 2 g.toNat) ↔
      (n / d : ℚ) < 2 ^ (g + 52) := by
    have hscaled := scaled_quotient n d g
    have hden : (0 : ℚ) < (d * Nat.pow 2 g.toNat : ℕ) := by
      exact_mod_cast Nat.mul_pos (Nat.pos_of_ne_zero hd) (Nat.pow_pos (by decide))
    rw [← Nat.cast_lt (α := ℚ), Nat.cast_mul Binary64.leadingBit, ← div_lt_iff₀ hden, hscaled,
      div_lt_iff₀ (by positivity), zpow_add₀ (by norm_num), mul_comm]
    norm_num [Binary64.leadingBit]
  rw [← zpow_natCast, ← zpow_add₀ (by norm_num)] at hhigh hlow
  unfold scaleOf
  rw [← hg]
  simp only [hfits]
  split
  · rename_i hfit
    have hle : g + 51 < 53 + e := (zpow_lt_zpow_iff_right₀ (by norm_num)).1 (hdown.trans hhigh)
    rcases hlow with hlow | hlow
    · have : 52 + e < g + 52 := (zpow_lt_zpow_iff_right₀ (by norm_num)).1 (hlow.trans_lt hfit)
      omega
    · omega
  · rename_i hfit
    have hle : g + 52 < 53 + e :=
      (zpow_lt_zpow_iff_right₀ (by norm_num)).1 ((not_lt.1 hfit).trans_lt hhigh)
    rcases hlow with hlow | hlow
    · have : 52 + e < g + 53 := (zpow_lt_zpow_iff_right₀ (by norm_num)).1 (hlow.trans_lt hup)
      omega
    · omega

/-- The magnitude that a decimal stands for. -/
def value (d : Decimal) : ℚ := d.digits * 10 ^ d.power

theorem value_eq_quotient (d : Decimal) :
    ((d.digits * Nat.pow 10 d.power.toNat : ℕ) : ℚ) / (Nat.pow 10 (-d.power).toNat : ℕ) =
      d.value := by
  have h := pow_toNat_eq (b := 10) (by norm_num) d.power
  unfold value
  push_cast [Nat.pow_eq]
  rw [h]
  field_simp

theorem value_lt {d : Decimal} (h : d.power + d.digits.log2 + 1 < -400) :
    d.value < (2 : ℚ) ^ (-1075 : ℤ) := by
  have hdigits : (d.digits : ℚ) < 10 ^ (d.digits.log2 + 1 : ℤ) := by
    exact_mod_cast Nat.lt_log2_self.trans_le (Nat.pow_le_pow_left (by decide) _)
  have hpow : (2 : ℚ) ^ 1075 ≤ 10 ^ 401 := by
    exact_mod_cast two_pow_le_ten_pow (j := 1075) (k := 401) (by decide)
  calc d.value < 10 ^ (d.digits.log2 + 1 : ℤ) * 10 ^ d.power := by
        unfold value
        gcongr
    _ = 10 ^ (d.digits.log2 + 1 + d.power) := by rw [← zpow_add₀ (by norm_num)]
    _ ≤ 10 ^ (-(401 : ℕ) : ℤ) := zpow_le_zpow_right₀ (by norm_num) (by omega)
    _ ≤ 2 ^ (-(1075 : ℕ) : ℤ) := by
        rw [zpow_neg, zpow_neg, zpow_natCast, zpow_natCast]
        exact inv_anti₀ (by positivity) hpow

theorem le_value {d : Decimal} (hd : d.digits ≠ 0) (h : 400 < d.power) :
    (2 : ℚ) ^ (1024 : ℤ) ≤ d.value := by
  have hpow : (2 : ℚ) ^ 1024 ≤ 10 ^ 401 := by
    exact_mod_cast two_pow_le_ten_pow (j := 1024) (k := 401) (by decide)
  calc (2 : ℚ) ^ (1024 : ℤ) ≤ 10 ^ (401 : ℤ) := hpow
    _ ≤ 10 ^ d.power := zpow_le_zpow_right₀ (by norm_num) (by omega)
    _ ≤ d.value :=
        le_mul_of_one_le_left (by positivity) (by exact_mod_cast Nat.one_le_iff_ne_zero.2 hd)

end Decimal

namespace Binary64

variable {x : Binary64}

theorem bits_eq (x : Binary64) : x.bits.toNat = (if x.signed then signBit else 0) +
    ((x.exponent + 1074).toNat * leadingBit + x.mantissa) := by
  have hbits : x.bits.toNat < 2 ^ 64 := x.bits.toNat_lt
  have hsign : (if x.signed then signBit else 0) = x.bits.toNat / signBit * signBit := by
    have hiff : x.signed = true ↔ signBit ≤ x.bits.toNat := by simp [signed]
    split
    · rename_i h
      rw [hiff, signBit] at h
      unfold signBit
      omega
    · rename_i h
      rw [hiff, signBit] at h
      unfold signBit
      omega
  rw [hsign]
  unfold exponent mantissa
  by_cases hfield : x.exponentField = 0
  · rw [if_pos hfield, if_pos hfield]
    simp only [exponentField, fraction, signBit, leadingBit] at hfield ⊢
    omega
  · rw [if_neg hfield, if_neg hfield]
    simp only [exponentField, fraction, signBit, leadingBit] at hfield ⊢
    omega

/-- The bounds of a finite number's mantissa and exponent. -/
theorem mantissa_lt (x : Binary64) : x.mantissa < 2 ^ 53 := by
  unfold mantissa fraction leadingBit
  split <;> omega

theorem exponent_ge (x : Binary64) : -1074 ≤ x.exponent := by
  unfold exponent
  split <;> omega

theorem exponent_le (h : x.isFinite = true) : x.exponent ≤ 971 := by
  have hfield : x.exponentField < 2048 := Nat.mod_lt _ (by decide)
  simp only [isFinite, ne_eq, decide_not, Bool.not_eq_true', decide_eq_false_iff_not] at h
  unfold exponent
  split <;> omega

/-- Only the least exponent has mantissas without the leading bit. -/
theorem mantissa_ge (h : x.exponent ≠ -1074) : 2 ^ 52 ≤ x.mantissa := by
  unfold exponent at h
  unfold mantissa leadingBit
  split
  · rename_i hfield
    exact absurd (if_pos hfield) h
  · omega

/-- A real rounds to the number: between the bounds, or at one if the mantissa is even. -/
def Covers (x : Binary64) (v : ℚ) : Prop :=
  if x.mantissa % 2 = 0 then
    x.lowerBound * 2 ^ (x.exponent - 2) ≤ v ∧ v ≤ x.upperBound * 2 ^ (x.exponent - 2)
  else x.lowerBound * 2 ^ (x.exponent - 2) < v ∧ v < x.upperBound * 2 ^ (x.exponent - 2)

/-- The bounds in units of the last bit of the mantissa. -/
theorem Covers.near {v : ℚ} (h : x.Covers v) :
    (x.lowerBound / 4 ≤ v / 2 ^ x.exponent ∧ v / 2 ^ x.exponent ≤ x.mantissa + 1 / 2) ∧
      (x.mantissa % 2 = 1 →
        x.lowerBound / 4 < v / 2 ^ x.exponent ∧ v / 2 ^ x.exponent < x.mantissa + 1 / 2) := by
  have hquarter : (2 : ℚ) ^ (x.exponent - 2) = 2 ^ x.exponent / 4 := by
    rw [zpow_sub₀ (by norm_num)]
    norm_num
  have hunit : (0 : ℚ) < 2 ^ x.exponent := by positivity
  have hupper : (x.upperBound : ℚ) = 4 * x.mantissa + 2 := by simp [upperBound]
  rw [le_div_iff₀ hunit, div_le_iff₀ hunit, lt_div_iff₀ hunit, div_lt_iff₀ hunit]
  unfold Covers at h
  rw [hquarter, hupper] at h
  split at h
  · exact ⟨⟨by linarith [h.1], by linarith [h.2]⟩, fun hodd => by omega⟩
  · exact ⟨⟨by linarith [h.1], by linarith [h.2]⟩, fun _ => ⟨by linarith [h.1], by linarith [h.2]⟩⟩

theorem lowerBound_ge (x : Binary64) : (x.mantissa - 1 / 2 : ℚ) ≤ x.lowerBound / 4 := by
  have h : 4 * x.mantissa ≤ x.lowerBound + 2 := by
    unfold lowerBound
    split <;> omega
  have h : (4 * x.mantissa : ℚ) ≤ x.lowerBound + 2 := by exact_mod_cast h
  linarith

theorem factors_eq (x : Binary64) (power : ℤ) : ∃ k : ℚ, 0 < k ∧
    ((x.factors power).1 : ℚ) = k * 10 ^ power ∧
      ((x.factors power).2 : ℚ) = k * 2 ^ (x.exponent - 2) := by
  refine ⟨2 ^ (2 - x.exponent).toNat * 10 ^ (-power).toNat, by positivity, ?_, ?_⟩
  · have h := pow_toNat_eq (b := 10) (by norm_num) power
    simp only [factors, Nat.pow_eq]
    push_cast
    rw [h]
    ring
  · have h := pow_toNat_eq (b := 2) (by norm_num) (x.exponent - 2)
    rw [neg_sub] at h
    simp only [factors, Nat.pow_eq]
    push_cast
    rw [h]
    ring

theorem rounds_iff {c : ℕ} {power : ℤ} :
    x.rounds c power = true ↔ x.Covers (c * 10 ^ power) := by
  obtain ⟨k, hk, ha, hb⟩ := x.factors_eq power
  have hlow : ∀ n : ℕ, n * (x.factors power).2 ≤ c * (x.factors power).1 ↔
      (n * 2 ^ (x.exponent - 2) : ℚ) ≤ c * 10 ^ power := fun n => by
    rw [← Nat.cast_le (α := ℚ), Nat.cast_mul, Nat.cast_mul, ha, hb, mul_left_comm, mul_left_comm _ k,
      mul_le_mul_iff_right₀ hk]
  have hhigh : ∀ n : ℕ, c * (x.factors power).1 ≤ n * (x.factors power).2 ↔
      (c * 10 ^ power : ℚ) ≤ n * 2 ^ (x.exponent - 2) := fun n => by
    rw [← Nat.cast_le (α := ℚ), Nat.cast_mul, Nat.cast_mul, ha, hb, mul_left_comm, mul_left_comm _ k,
      mul_le_mul_iff_right₀ hk]
  unfold rounds Covers
  dsimp only
  split
  · simp only [Bool.and_eq_true, decide_eq_true_eq, hlow, hhigh]
  · simp only [Bool.and_eq_true, decide_eq_true_eq, ← not_le, hlow, hhigh]

/-- Below the least mantissa with the leading bit the numbers lie twice as close, and only what is
within a quarter of a unit rounds up to it. -/
theorem Covers.below {v : ℚ} (h : x.Covers v) (he : x.exponent ≠ -1074)
    (hv : v / 2 ^ x.exponent < 2 ^ 52) :
    x.mantissa = 2 ^ 52 ∧ (2 ^ 52 - 1 / 4 : ℚ) ≤ v / 2 ^ x.exponent := by
  obtain ⟨⟨hlow, -⟩, -⟩ := h.near
  have hlower := x.lowerBound_ge
  have hge := mantissa_ge he
  have hle : x.mantissa ≤ 2 ^ 52 := by
    have : (x.mantissa : ℚ) < 2 ^ 52 + 1 := by linarith
    exact Nat.lt_succ_iff.1 (by exact_mod_cast this)
  have hm := le_antisymm hle hge
  have hfield : x.exponentField ≠ 0 ∧ x.exponentField ≠ 1 := by
    unfold exponent at he
    split at he <;> omega
  have hbound : x.lowerBound = 4 * 2 ^ 52 - 1 := by
    unfold mantissa leadingBit at hm
    unfold lowerBound
    rw [if_neg hfield.1] at hm
    rw [if_pos ⟨by omega, by omega⟩, mantissa, if_neg hfield.1, leadingBit]
    omega
  rw [hbound] at hlow
  norm_num at hlow ⊢
  exact ⟨hm, by linarith⟩

/-- The bits of the nearest number are those of the number that covers the quotient. -/
theorem quotientBits_eq {n d : ℕ} (hn : n ≠ 0) (hd : 0 < d) (h : x.Covers (n / d)) :
    Decimal.quotientBits n d = (x.exponent + 1074).toNat * leadingBit + x.mantissa := by
  obtain ⟨⟨hlow, hhigh⟩, htie⟩ := h.near
  have hlower := x.lowerBound_ge
  have hexponent := x.exponent_ge
  have hunit : (0 : ℚ) < 2 ^ x.exponent := by positivity
  have hmantissa : (x.mantissa : ℚ) + 1 ≤ 2 ^ 53 := by exact_mod_cast x.mantissa_lt
  have hbelow : (n / d : ℚ) / 2 ^ x.exponent < 2 ^ 53 := by linarith
  unfold Decimal.quotientBits
  dsimp only
  by_cases hcase : (2 ^ 52 : ℚ) ≤ n / d / 2 ^ x.exponent ∨ x.exponent = -1074
  · have hscale : Decimal.scaleOf n d = x.exponent := by
      rw [div_lt_iff₀ hunit] at hbelow
      rw [le_div_iff₀ hunit] at hcase
      exact Decimal.scaleOf_eq hn hd.ne' hexponent hbelow hcase
    rw [hscale, Rounding.divEven_of_near (Rounding.scaled_pos hd _)]
    all_goals rw [scaled_quotient]
    · linarith
    · exact hhigh
    · exact fun hodd => ⟨by linarith [(htie hodd).1], (htie hodd).2⟩
  · obtain ⟨hlt, hne⟩ := not_or.1 hcase
    obtain ⟨hm, hnear⟩ := h.below hne (not_le.1 hlt)
    have htwice : (2 : ℚ) ^ x.exponent = 2 * 2 ^ (x.exponent - 1) := by
      rw [zpow_sub₀ (by norm_num)]
      norm_num
      ring
    have hhalf : (n / d / 2 ^ (x.exponent - 1) : ℚ) = 2 * (n / d / 2 ^ x.exponent) := by
      rw [htwice]
      field_simp
    have hscale : Decimal.scaleOf n d = x.exponent - 1 := by
      have hsmall : (0 : ℚ) < 2 ^ (x.exponent - 1) := by positivity
      refine Decimal.scaleOf_eq hn hd.ne' (by omega) ?_ (.inl ?_)
      · rw [← div_lt_iff₀ hsmall, hhalf]
        linarith
      · rw [← le_div_iff₀ hsmall, hhalf]
        linarith
    have hround : Rounding.divEven (n * Nat.pow 2 (-(x.exponent - 1)).toNat)
        (d * Nat.pow 2 (x.exponent - 1).toNat) = 2 ^ 53 := by
      refine Rounding.divEven_of_near (Rounding.scaled_pos hd _) ?_ ?_ fun hodd => by omega
      · rw [scaled_quotient, hhalf]
        norm_num
        linarith
      · rw [scaled_quotient, hhalf]
        norm_num
        linarith
    rw [hscale, hround, hm, leadingBit]
    omega

theorem Covers.pos {v : ℚ} (h : x.Covers v) (hm : x.mantissa ≠ 0) :
    (2 : ℚ) ^ (-1075 : ℤ) ≤ v := by
  obtain ⟨⟨hlow, -⟩, -⟩ := h.near
  have hlower := x.lowerBound_ge
  have hone : (1 : ℚ) ≤ x.mantissa := by exact_mod_cast Nat.one_le_iff_ne_zero.2 hm
  have hhalf : (1 / 2 : ℚ) ≤ v / 2 ^ x.exponent := by linarith
  calc (2 : ℚ) ^ (-1075 : ℤ) ≤ 2 ^ (x.exponent - 1) :=
        zpow_le_zpow_right₀ (by norm_num) (by have := x.exponent_ge; omega)
    _ = 1 / 2 * 2 ^ x.exponent := by
        rw [zpow_sub₀ (by norm_num)]
        norm_num
        ring
    _ ≤ v := by rwa [← le_div_iff₀ (by positivity)]

theorem Covers.lt {v : ℚ} (h : x.Covers v) (hx : x.isFinite = true) : v < 2 ^ (1024 : ℤ) := by
  obtain ⟨⟨-, hhigh⟩, -⟩ := h.near
  have hmantissa : (x.mantissa : ℚ) + 1 ≤ 2 ^ 53 := by exact_mod_cast x.mantissa_lt
  have hv : v < 2 ^ 53 * 2 ^ x.exponent := by
    rw [← div_lt_iff₀ (by positivity)]
    linarith
  calc v < 2 ^ 53 * 2 ^ x.exponent := hv
    _ ≤ 2 ^ 53 * 2 ^ (971 : ℤ) := by
        have := zpow_le_zpow_right₀ (by norm_num : (1 : ℚ) ≤ 2) (exponent_le hx)
        gcongr
    _ = 2 ^ (1024 : ℤ) := by rw [← zpow_natCast, ← zpow_add₀ (by norm_num)]; rfl

/-- A number other than zero is the nearest to every decimal that rounds to it. -/
theorem nearest?_of_covers {d : Decimal} (hx : x.isFinite = true) (hm : x.mantissa ≠ 0)
    (h : x.Covers d.value) : d.nearest? x.signed = some x := by
  have hpos := h.pos hm
  have hlt := h.lt hx
  have hd : d.digits ≠ 0 := by
    intro hzero
    have : (0 : ℚ) < 2 ^ (-1075 : ℤ) := by positivity
    simp only [Decimal.value, hzero, Nat.cast_zero, zero_mul] at hpos
    linarith
  have hsmall : ¬ d.power + d.digits.log2 + 1 < -400 := fun hp =>
    absurd hpos (not_le.2 (Decimal.value_lt hp))
  have hlarge : ¬ 400 < d.power := fun hp => absurd hlt (not_lt.2 (Decimal.le_value hd hp))
  have hquotient : Decimal.quotientBits (d.digits * Nat.pow 10 d.power.toNat)
      (Nat.pow 10 (-d.power).toNat) = (x.exponent + 1074).toNat * leadingBit + x.mantissa := by
    refine quotientBits_eq (Nat.mul_ne_zero hd ?_) (Nat.pow_pos (by decide)) ?_
    · exact (Nat.pow_pos (by decide)).ne'
    · rwa [d.value_eq_quotient]
  have hbits := x.bits_eq
  have hmantissa := x.mantissa_lt
  have hexponent := exponent_le hx
  have hfinite : (x.exponent + 1074).toNat * leadingBit + x.mantissa < Decimal.infinityBits := by
    unfold leadingBit Decimal.infinityBits
    omega
  unfold Decimal.nearest?
  dsimp only
  rw [if_neg (not_or.2 ⟨hd, hsmall⟩), if_neg hlarge, hquotient, if_pos hfinite, ← hbits,
    UInt64.ofNat_toNat]

/-- The two zeros are told apart by their signs. -/
theorem nearest?_of_zero {d : Decimal} (hd : d.digits = 0) (hm : x.mantissa = 0) :
    d.nearest? x.signed = some x := by
  have hbits := x.bits_eq
  have hfield : x.exponentField = 0 := by
    by_contra h
    simp [mantissa, h, leadingBit] at hm
  simp only [exponent, if_pos hfield, hm, Int.reduceNeg, Int.reduceAdd, Int.toNat_zero,
    zero_mul] at hbits
  unfold Decimal.nearest?
  dsimp only
  simp only [hd, true_or, if_true]
  rw [if_pos (by decide), ← hbits, UInt64.ofNat_toNat]

end Binary64

end CigaretteSmokers
