import Mathlib

/-!
Rounding never passes a number that a float can hold: an operation on floats whose exact result lies
between two such numbers gives a float that lies between them.
-/

namespace CigaretteSmokers.FloatBound

open Float.Model Float.Model.UnpackedFloat

/-- The digits of `x` down to the unit, with the marks of what is below it: `x` is at least the
mantissa, and more if there are marks. -/
def Cuts (em : ExtendedMantissa) (x : ℚ) : Prop :=
  (em.mantissa : ℚ) ≤ x ∧ ((em.mantissa : ℚ) = x → em.roundBit = false ∧ em.stickyBit = false)

namespace Cuts

variable {em : ExtendedMantissa} {x : ℚ}

theorem shiftRightOne (h : Cuts em x) : Cuts em.shiftRightOne (x / 2) := by
  have hhalf : 2 * ((em.mantissa / 2 : ℕ) : ℚ) ≤ em.mantissa := by
    exact_mod_cast Nat.mul_div_le em.mantissa 2
  refine ⟨?_, fun heq => ?_⟩
  · simp only [ExtendedMantissa.shiftRightOne]
    linarith [h.1]
  · simp only [ExtendedMantissa.shiftRightOne] at heq ⊢
    have hx : (em.mantissa : ℚ) = x := by linarith [h.1]
    have heven : 2 * (em.mantissa / 2) = em.mantissa := by
      have : 2 * ((em.mantissa / 2 : ℕ) : ℚ) = em.mantissa := by linarith
      exact_mod_cast this
    obtain ⟨hr, hs⟩ := h.2 hx
    refine ⟨?_, by simp [hr, hs]⟩
    simp
    omega

theorem shift (h : Cuts em x) (k : ℕ) : Cuts (em >>> k) (x / 2 ^ k) := by
  induction k with
  | zero => simpa [HShiftRight.hShiftRight, Nat.repeat] using h
  | succ k ih =>
      have hstep := ih.shiftRightOne
      rw [div_div, ← pow_succ] at hstep
      exact hstep

theorem rounded_le (h : Cuts em x) {n : ℕ} (hx : x ≤ n) : em.roundedMantissa ≤ n := by
  obtain ⟨m, r, s⟩ := em
  have hle : m ≤ n := by exact_mod_cast h.1.trans hx
  rcases hle.lt_or_eq with hlt | rfl
  · cases r <;> cases s <;>
      simp [ExtendedMantissa.roundedMantissa, ExtendedMantissa.accuracy,
        Accuracy.roundToNearestEven] <;>
      omega
  · obtain ⟨rfl, rfl⟩ := h.2 (le_antisymm h.1 hx)
    simp [ExtendedMantissa.roundedMantissa, ExtendedMantissa.accuracy, Accuracy.roundToNearestEven]

theorem of_exact (m : ℕ) : Cuts (.ofMantissaAndAccuracy m .exact) m :=
  ⟨le_rfl, fun _ => ⟨rfl, rfl⟩⟩

end Cuts

theorem mantissa_shift (em : ExtendedMantissa) (k : ℕ) :
    (em >>> k).mantissa = em.mantissa / 2 ^ k := by
  induction k with
  | zero => simp [HShiftRight.hShiftRight, Nat.repeat]
  | succ k ih =>
      change (em >>> k).mantissa / 2 = em.mantissa / 2 ^ (k + 1)
      rw [ih, Nat.div_div_eq_div_mul, pow_succ]

theorem targetExponent_eq (m : ℕ) (e : ℤ) :
    Format.binary64.targetExponent (totalExponent m e) = max (m.log2 + e - 52) (-1074) := by
  simp only [Format.targetExponent, totalExponent, Format.mantissaBits, Format.minExponent]
  norm_num
  omega

/-- How far a mantissa has to be shifted. -/
def excess (m : ℕ) (e : ℤ) : ℕ := (max (m.log2 + e - 52) (-1074) - e).toNat

theorem shiftToTargetExponent_eq (m : ℕ) (e : ℤ) (acc : Accuracy) :
    shiftToTargetExponent Format.binary64 m e acc =
      (ExtendedMantissa.ofMantissaAndAccuracy m acc >>> excess m e, e + excess m e) := by
  rw [shiftToTargetExponent, targetExponent_eq]
  rfl

theorem shift_value_le (m k : ℕ) (e : ℤ) :
    ((m / 2 ^ k : ℕ) : ℚ) * 2 ^ (e + k) ≤ m * 2 ^ e := by
  have hdiv : ((m / 2 ^ k : ℕ) : ℚ) * 2 ^ k ≤ m := by exact_mod_cast Nat.div_mul_le_self m (2 ^ k)
  calc ((m / 2 ^ k : ℕ) : ℚ) * 2 ^ (e + k)
      = ((m / 2 ^ k : ℕ) : ℚ) * 2 ^ k * 2 ^ e := by
        rw [zpow_add₀ (by norm_num), zpow_natCast]
        ring
    _ ≤ m * 2 ^ e := by gcongr

theorem shifted_lt (m : ℕ) (e : ℤ) : m / 2 ^ excess m e < 2 ^ 53 := by
  rw [Nat.div_lt_iff_lt_mul (by positivity), ← pow_add]
  exact Nat.lt_log2_self.trans_le (Nat.pow_le_pow_right (by decide) (by unfold excess; omega))

theorem le_shifted (e : ℤ) (m : ℕ) : -1074 ≤ e + excess m e := by
  unfold excess
  omega

/-- The numbers that a float of unbounded exponent can hold. -/
def OnGrid (b : ℚ) : Prop := ∃ (c : ℕ) (q : ℤ), c < 2 ^ 53 ∧ -1074 ≤ q ∧ b = c * 2 ^ q

/-- A number whose last digit is worth more than `2 ^ q`, with all the digits of a mantissa, is
greater than a number whose last digit is worth `2 ^ q`. -/
theorem lt_of_log2 {m c : ℕ} {e q : ℤ} (hm : m ≠ 0) (hc : c < 2 ^ 53) (hq : q < m.log2 + e - 52) :
    (c : ℚ) * 2 ^ q < m * 2 ^ e := by
  calc (c : ℚ) * 2 ^ q < 2 ^ 53 * 2 ^ q := by
        gcongr
        exact_mod_cast hc
    _ = 2 ^ (q + 53) := by
        rw [zpow_add₀ (by norm_num), mul_comm]
        norm_cast
    _ ≤ 2 ^ (m.log2 + e : ℤ) := zpow_le_zpow_right₀ (by norm_num) (by omega)
    _ = 2 ^ m.log2 * 2 ^ e := by rw [zpow_add₀ (by norm_num), zpow_natCast]
    _ ≤ m * 2 ^ e := by
        gcongr
        exact_mod_cast Nat.log2_self_le hm

theorem OnGrid.rounded_le {b x : ℚ} {m : ℕ} {e : ℤ} {acc : Accuracy} (hb : OnGrid b)
    (hx : Cuts (.ofMantissaAndAccuracy m acc) x)
    (hacc : (acc = .exact ∧ x = m) ∨ e ≤ max (m.log2 + e - 52) (-1074)) (hle : x * 2 ^ e ≤ b) :
    ((ExtendedMantissa.ofMantissaAndAccuracy m acc >>> excess m e).roundedMantissa : ℚ) *
      2 ^ (e + excess m e) ≤ b := by
  obtain ⟨c, q, hc, hq, rfl⟩ := hb
  have hpos : (0 : ℚ) < 2 ^ (e + excess m e) := zpow_pos (by norm_num) _
  by_cases hqe : e + excess m e ≤ q
  · -- The bound is a whole number of the units that are kept.
    have hbound : (c : ℚ) * 2 ^ q =
        (c * 2 ^ (q - (e + excess m e)).toNat : ℕ) * 2 ^ (e + excess m e) := by
      push_cast
      rw [← zpow_natCast, mul_assoc, ← zpow_add₀ (by norm_num), Int.toNat_of_nonneg (by omega),
        sub_add_cancel]
    have hvalue : x * 2 ^ e = x / 2 ^ excess m e * 2 ^ (e + excess m e) := by
      rw [zpow_add₀ (by norm_num), zpow_natCast]
      field_simp
    rw [hbound, hvalue] at hle
    rw [hbound]
    gcongr
    exact_mod_cast (hx.shift (excess m e)).rounded_le (le_of_mul_le_mul_right hle hpos)
  · by_cases he : e ≤ max (m.log2 + e - 52) (-1074)
    · -- All the digits of a mantissa are kept, which makes the number greater than the bound.
      exfalso
      have hlog : e + excess m e = m.log2 + e - 52 := by
        unfold excess at hqe ⊢
        omega
      have hm : m ≠ 0 := by
        rintro rfl
        unfold excess at hqe hlog
        simp at hlog hqe
        omega
      have hmantissa : (m : ℚ) ≤ x := by
        refine le_trans (le_of_eq ?_) hx.1
        cases acc with
        | exact => rfl
        | inexact o => cases o <;> rfl
      have hlow : (m : ℚ) * 2 ^ e ≤ x * 2 ^ e := by gcongr
      have hhigh := lt_of_log2 hm hc (show q < m.log2 + e - 52 by omega)
      linarith
    · obtain ⟨rfl, rfl⟩ := hacc.resolve_right he
      have hk : excess m e = 0 := by
        unfold excess
        omega
      rw [hk]
      simpa [ExtendedMantissa.ofMantissaAndAccuracy, HShiftRight.hShiftRight, Nat.repeat,
        ExtendedMantissa.roundedMantissa, ExtendedMantissa.accuracy, Accuracy.roundToNearestEven]
        using hle

/-- How far from zero a number of a sign may be that is not below `-a` and not above `b`. -/
def limit (a b : ℚ) : Sign → ℚ
  | .negative => a
  | .positive => b

/-- Zero or a number from `-a` to `b`, with a mantissa and an exponent that a float can hold. -/
inductive Between (a b : ℚ) : UnpackedFloat → Prop
  | zero {s} : Between a b (.zero s)
  | finite {s} {m : ℕ} {e h} (hm : m < 2 ^ 53) (he : -1074 ≤ e)
      (hv : (m : ℚ) * 2 ^ e ≤ limit a b s) : Between a b (.finite s m e h)

variable {a b c d : ℚ} {x y : UnpackedFloat} {s : Sign}

theorem OnGrid.roundWithAccuracy {v : ℚ} {m : ℕ} {e : ℤ} {acc : Accuracy} (hb : OnGrid (limit a b s))
    (hx : Cuts (.ofMantissaAndAccuracy m acc) v)
    (hacc : (acc = .exact ∧ v = m) ∨ e ≤ max (m.log2 + e - 52) (-1074))
    (hle : v * 2 ^ e ≤ limit a b s) :
    Between a b (roundWithAccuracy Format.binary64 s m e acc) := by
  have hround := hb.rounded_le hx hacc hle
  simp only [UnpackedFloat.roundWithAccuracy, shiftToTargetExponent_eq, mantissa_shift]
  split
  · exact .zero
  · exact .finite (shifted_lt _ _) (le_shifted _ _) ((shift_value_le _ _ _).trans hround)

theorem decreased_value (m k : ℕ) (e : ℤ) :
    ((m <<< k : ℕ) : ℚ) * 2 ^ (e - k) = m * 2 ^ e := by
  rw [Nat.shiftLeft_eq, Nat.cast_mul, Nat.cast_pow, Nat.cast_ofNat, mul_assoc, ← zpow_natCast,
    ← zpow_add₀ (by norm_num), add_sub_cancel]

theorem OnGrid.round {m : ℕ} {e : ℤ} (hb : OnGrid (limit a b s))
    (hle : (m : ℚ) * 2 ^ e ≤ limit a b s) : Between a b (round Format.binary64 s m e) := by
  refine hb.roundWithAccuracy (.of_exact _) (.inl ⟨rfl, rfl⟩) ?_
  rw [decreased_value]
  exact hle

theorem OnGrid.normalize (ha : OnGrid a) (hb : OnGrid b) {n e : ℤ} (hlow : -a ≤ (n : ℚ) * 2 ^ e)
    (hhigh : (n : ℚ) * 2 ^ e ≤ b) : Between a b (normalize Format.binary64 n e s) := by
  unfold UnpackedFloat.normalize
  split
  · rename_i hn
    rw [Int.compare_eq_lt] at hn
    have hcast : (((-n).toNat : ℕ) : ℚ) = -n := by
      exact_mod_cast Int.toNat_of_nonneg (by omega : 0 ≤ -n)
    refine OnGrid.round ha ?_
    rw [hcast, neg_mul]
    exact neg_le.1 hlow
  · exact .zero
  · rename_i hn
    rw [Int.compare_eq_gt] at hn
    have hcast : ((n.toNat : ℕ) : ℚ) = n := by exact_mod_cast Int.toNat_of_nonneg hn.le
    refine OnGrid.round hb ?_
    rw [hcast]
    exact hhigh

theorem apply_lowered {m : ℕ} {e t : ℤ} (h : t ≤ e) :
    ((s.apply (m <<< (e - t).toNat : ℕ) : ℤ) : ℚ) * 2 ^ t = (s.apply m : ℤ) * 2 ^ e := by
  have hvalue := decreased_value m (e - t).toNat e
  rw [show e - ((e - t).toNat : ℤ) = t by omega] at hvalue
  cases s with
  | positive => simpa only [Sign.apply, Int.cast_natCast] using hvalue
  | negative =>
      simpa only [Sign.apply, Int.cast_neg, Int.cast_natCast, neg_mul, neg_inj] using hvalue

namespace Between

theorem mono (h : Between a b x) (hac : a ≤ c) (hbd : b ≤ d) : Between c d x := by
  cases h with
  | zero => exact .zero
  | @finite s _ _ _ hm he hv =>
      refine .finite hm he (hv.trans ?_)
      cases s with
      | negative => exact hac
      | positive => exact hbd

theorem value {m : ℕ} {e : ℤ} {h : 0 < m} (hx : Between a b (.finite s m e h)) (ha : 0 ≤ a)
    (hb : 0 ≤ b) :
    -a ≤ ((s.apply m : ℤ) : ℚ) * 2 ^ e ∧ ((s.apply m : ℤ) : ℚ) * 2 ^ e ≤ b := by
  have hpos : (0 : ℚ) ≤ m * 2 ^ e := by positivity
  cases hx with
  | finite _ _ hv =>
      cases s with
      | negative =>
          simp only [limit, Sign.apply, Int.cast_neg, Int.cast_natCast, neg_mul] at hv ⊢
          constructor <;> linarith
      | positive =>
          simp only [limit, Sign.apply, Int.cast_natCast] at hv ⊢
          constructor <;> linarith

theorem eq_zero (h : Between 0 0 x) : ∃ s, x = .zero s := by
  cases h with
  | zero => exact ⟨_, rfl⟩
  | @finite s m e h _ _ hv =>
      have hpos : (0 : ℚ) < m * 2 ^ e := by positivity
      cases s <;> exact absurd hv (not_le.2 hpos)

/-- What is above zero and not above `b` is a positive number. -/
theorem of_lt (h : Between a b x) (hlt : UnpackedFloat.lt (.zero s) x = true) :
    ∃ (m : ℕ) (e : ℤ) (hm : 0 < m), x = .finite .positive m e hm ∧ (m : ℚ) * 2 ^ e ≤ b := by
  cases h with
  | zero => cases hlt
  | @finite s _ _ _ _ _ hv =>
      cases s with
      | negative => cases hlt
      | positive => exact ⟨_, _, _, rfl, hv⟩

theorem add {a' b' : ℚ} (hx : Between a b x) (hy : Between a' b' y) (h₀ : 0 ≤ a ∧ 0 ≤ b)
    (h₀' : 0 ≤ a' ∧ 0 ≤ b') (hc : OnGrid c) (hd : OnGrid d) (hac : a + a' ≤ c) (hbd : b + b' ≤ d) :
    Between c d (x.add Format.binary64 y) := by
  cases x with
  | notANumber | infinity => cases hx
  | zero s =>
      cases y with
      | notANumber | infinity => cases hy
      | zero s =>
          simp only [UnpackedFloat.add]
          split <;> exact .zero
      | finite => exact hy.mono (by linarith) (by linarith)
  | finite s₁ m₁ e₁ h₁ =>
      cases y with
      | notANumber | infinity => cases hy
      | zero => exact hx.mono (by linarith) (by linarith)
      | finite s₂ m₂ e₂ h₂ =>
          have hx := hx.value h₀.1 h₀.2
          have hy := hy.value h₀'.1 h₀'.2
          rw [← apply_lowered (min_le_left e₁ e₂)] at hx
          rw [← apply_lowered (min_le_right e₁ e₂)] at hy
          refine hc.normalize hd ?_ ?_
          · rw [Int.cast_add, add_mul]
            linarith
          · rw [Int.cast_add, add_mul]
            linarith

theorem sub {m : ℕ} {e : ℤ} {h : 0 < m} (hx : Between a b x) (h₀ : 0 ≤ a ∧ 0 ≤ b) (hm : m < 2 ^ 53)
    (he : -1074 ≤ e) (hc : OnGrid c) (hd : OnGrid d) (hac : a + m * 2 ^ e ≤ c)
    (hbd : b ≤ d + m * 2 ^ e) : Between c d (x.sub Format.binary64 (.finite .positive m e h)) := by
  cases x with
  | notANumber | infinity => cases hx
  | zero s => exact .finite hm he (show (m : ℚ) * 2 ^ e ≤ c by linarith)
  | finite s₁ m₁ e₁ h₁ =>
      have hx := hx.value h₀.1 h₀.2
      have hy : ((Sign.positive.apply m : ℤ) : ℚ) * 2 ^ e = m * 2 ^ e := rfl
      rw [← apply_lowered (min_le_left e₁ e)] at hx
      rw [← apply_lowered (min_le_right e₁ e)] at hy
      refine hc.normalize hd ?_ ?_
      · rw [Int.cast_sub, sub_mul]
        linarith!
      · rw [Int.cast_sub, sub_mul]
        linarith!

/-- A factor that is not below zero does not turn a number around. -/
theorem mul {k : ℚ} (hx : Between a b x) (hy : Between 0 k y) (hc : OnGrid c) (hd : OnGrid d)
    (hac : a * k ≤ c) (hbd : b * k ≤ d) : Between c d (x.mul Format.binary64 y) := by
  cases hy with
  | zero => cases hx <;> exact .zero
  | @finite t m e h _ _ hv =>
      cases hx with
      | zero => exact .zero
      | @finite s m' e' h' _ _ hv' =>
          have hpos : (0 : ℚ) < m * 2 ^ e := by positivity
          have hpos' : (0 : ℚ) ≤ m' * 2 ^ e' := by positivity
          cases t with
          | negative => exact absurd hv (not_le.2 hpos)
          | positive =>
              have hsign : s * Sign.positive = s := by cases s <;> rfl
              have hgrid : OnGrid (limit c d s) := by cases s <;> assumption
              have hlimit : limit a b s * k ≤ limit c d s := by cases s <;> assumption
              simp only [UnpackedFloat.mul, hsign]
              refine hgrid.roundWithAccuracy (.of_exact _) (.inl ⟨rfl, rfl⟩) ?_
              calc ((m' * m : ℕ) : ℚ) * 2 ^ (e' + e) = m' * 2 ^ e' * (m * 2 ^ e) := by
                    rw [Nat.cast_mul, zpow_add₀ (by norm_num)]
                    ring
                _ ≤ limit a b s * k := mul_le_mul hv' hv hpos.le (hpos'.trans hv')
                _ ≤ limit c d s := hlimit

end Between

theorem Cuts.of_div (n : ℕ) {d : ℕ} (hd : 0 < d) :
    Cuts (.ofMantissaAndAccuracy (n / d) (accuracyOfFraction (n % d) d)) (n / d) := by
  have hdiv : ((n / d : ℕ) : ℚ) * d + (n % d : ℕ) = n := by exact_mod_cast Nat.div_add_mod' n d
  have hd' : (0 : ℚ) < d := by exact_mod_cast hd
  have hmantissa : (ExtendedMantissa.ofMantissaAndAccuracy (n / d)
      (accuracyOfFraction (n % d) d)).mantissa = n / d := by
    cases accuracyOfFraction (n % d) d with
    | exact => rfl
    | inexact o => cases o <;> rfl
  unfold Cuts
  rw [hmantissa]
  constructor
  · rw [le_div_iff₀ hd']
    have : (0 : ℚ) ≤ (n % d : ℕ) := by positivity
    linarith
  · intro h
    rw [eq_div_iff hd'.ne'] at h
    have hzero : n % d = 0 := by
      have : ((n % d : ℕ) : ℚ) = 0 := by linarith
      exact_mod_cast this
    rw [hzero]
    exact ⟨rfl, rfl⟩

/-- A dividend with enough digits gives a quotient with all the digits of a mantissa. -/
theorem le_log2_div {m m' k : ℕ} (hm : m ≠ 0) (hm' : 0 < m') (hk : m'.log2 + 53 ≤ m.log2 + k) :
    52 ≤ ((m <<< k) / m').log2 := by
  have hle : 2 ^ 52 ≤ (m <<< k) / m' := by
    rw [Nat.le_div_iff_mul_le hm', Nat.shiftLeft_eq]
    calc 2 ^ 52 * m' ≤ 2 ^ 52 * 2 ^ (m'.log2 + 1) := by
          gcongr
          exact Nat.lt_log2_self.le
      _ = 2 ^ (m'.log2 + 53) := by rw [← pow_add]; congr 1; omega
      _ ≤ 2 ^ (m.log2 + k) := Nat.pow_le_pow_right (by decide) hk
      _ = 2 ^ m.log2 * 2 ^ k := pow_add ..
      _ ≤ m * 2 ^ k := by
          gcongr
          exact Nat.log2_self_le hm
  exact (Nat.le_log2 (by omega)).2 hle

theorem OnGrid.div {m m' : ℕ} {e e' : ℤ} {h h'} (hb : OnGrid b)
    (hle : (m : ℚ) * 2 ^ e ≤ b * (m' * 2 ^ e')) : Between a b
      (UnpackedFloat.div Format.binary64 (.finite .positive m e h) (.finite .positive m' e' h')) := by
  obtain ⟨t, ht⟩ : ∃ t, t = min (e - e')
    (Format.binary64.targetExponent (totalExponent m e - totalExponent m' e')) := ⟨_, rfl⟩
  have htarget : t ≤ m.log2 + e - m'.log2 - e' - 53 ∨ t ≤ -1074 := by
    simp only [Format.targetExponent, totalExponent, Format.mantissaBits, Format.minExponent] at ht
    norm_num at ht
    omega
  have hpos : (0 : ℚ) < m' * 2 ^ e' := by positivity
  unfold UnpackedFloat.div
  simp only [divCore, ← ht]
  refine OnGrid.roundWithAccuracy hb (.of_div _ h') (.inr ?_) ?_
  · rcases htarget with ht' | ht'
    · have := le_log2_div (k := (e - e' - t).toNat) h.ne' h' (by omega)
      omega
    · exact le_max_of_le_right ht'
  · have hvalue := decreased_value m (e - e' - t).toNat (e - e')
    rw [show e - e' - ((e - e' - t).toNat : ℤ) = t by omega, zpow_sub₀ (by norm_num)] at hvalue
    rw [div_mul_eq_mul_div, hvalue, ← mul_div_assoc, div_div, mul_comm (2 ^ e' : ℚ),
      div_le_iff₀ hpos]
    exact hle

section Packing

variable {s : Sign} {exponent : BitVec 11} {fraction : BitVec 52}

theorem implied_bit : (1#1 ++ fraction).toNat = 2 ^ 52 + fraction.toNat := by
  rw [BitVec.toNat_append, ← Nat.shiftLeft_add_eq_or_of_lt fraction.isLt]
  simp [Nat.shiftLeft_eq]

theorem unpack_normal (s : Sign) (exponent : BitVec 11) (fraction : BitVec 52)
    (h0 : exponent.toNat ≠ 0) (h1 : exponent.toNat ≠ 2047) :
    UnpackedFloat.unpack Format.binary64 (packComponents Format.binary64 s exponent fraction) =
      .finite s (2 ^ 52 + fraction.toNat) (exponent.toNat - 1075)
        (Nat.add_pos_left (by decide) _) := by
  have hzero : exponent ≠ 0#11 := by
    rintro rfl
    exact h0 rfl
  have hones : exponent ≠ -1#11 := by
    rintro rfl
    exact h1 rfl
  unfold UnpackedFloat.unpack
  simp only [unpackSign_packComponents, Sign.ofBitVec_toBitVec, unpackExponent_packComponents,
    unpackMantissa_packComponents, implied_bit]
  rw [if_neg hones, if_neg hzero]
  rfl

theorem unpack_subnormal (s : Sign) (fraction : BitVec 52) (h : 0 < fraction.toNat) :
    UnpackedFloat.unpack Format.binary64 (packComponents Format.binary64 s 0#11 fraction) =
      .finite s fraction.toNat (-1074) h := by
  have hzero : fraction ≠ 0#52 := by
    rintro rfl
    exact absurd h (by decide)
  unfold UnpackedFloat.unpack
  simp only [unpackSign_packComponents, Sign.ofBitVec_toBitVec, unpackExponent_packComponents,
    unpackMantissa_packComponents]
  rw [if_neg (by decide)]
  simp only [if_true, dif_neg hzero]
  rfl

theorem unpack_ones : UnpackedFloat.unpack Format.binary64
      (packComponents Format.binary64 s 2047#11 fraction) = .infinity s ∨
    UnpackedFloat.unpack Format.binary64
      (packComponents Format.binary64 s 2047#11 fraction) = .notANumber := by
  unfold UnpackedFloat.unpack
  simp only [unpackSign_packComponents, Sign.ofBitVec_toBitVec, unpackExponent_packComponents,
    unpackMantissa_packComponents]
  rw [if_pos (by decide)]
  split
  · exact .inl rfl
  · exact .inr rfl

section

variable {m : ℕ} {e : ℤ} {h : 0 < m}

theorem exponent_lt (h : 0 < m) (hv : (m : ℚ) * 2 ^ e < 2 ^ 100) : e < 100 := by
  by_contra hlarge
  have hpow : (2 : ℚ) ^ 100 ≤ 2 ^ e := by
    rw [← zpow_natCast]
    exact zpow_le_zpow_right₀ (by norm_num) (by omega)
  have hprod : (1 : ℚ) * 2 ^ e ≤ m * 2 ^ e := by
    gcongr
    exact_mod_cast h
  linarith

theorem biased_eq (e : ℤ) :
    (e + Format.binary64.exponentBias + (52 : ℕ)).toNat = (e + 1075).toNat := by
  rw [add_assoc]
  rfl

theorem unpack_pack_normal (hlow : 2 ^ 52 ≤ m) (hm : m < 2 ^ 53) (he : -1074 ≤ e) (he' : e < 100) :
    UnpackedFloat.unpack Format.binary64 (UnpackedFloat.pack Format.binary64 (.finite s m e h)) =
      .finite s m e h := by
  have hlog : m.log2 + 1 = Format.binary64.mantissaBits := by
    have := (Nat.le_log2 h.ne').2 hlow
    have := (Nat.log2_lt h.ne').2 hm
    exact (show m.log2 + 1 = 53 by omega)
  have hexponent : (BitVec.ofNat 11 (e + 1075).toNat).toNat = (e + 1075).toNat :=
    Nat.mod_eq_of_lt (by omega)
  have hfraction : 2 ^ 52 + (BitVec.ofNat 52 m).toNat = m := by
    rw [BitVec.toNat_ofNat]
    omega
  unfold UnpackedFloat.pack
  simp only [biased_eq]
  rw [if_neg (by norm_num; omega), if_pos hlog, unpack_normal _ _ _ (by omega) (by omega)]
  simp only [hfraction, hexponent, show ((e + 1075).toNat : ℤ) - 1075 = e by omega]

theorem unpack_pack_subnormal (hm : m < 2 ^ 52) (he' : e < 100) :
    UnpackedFloat.unpack Format.binary64 (UnpackedFloat.pack Format.binary64 (.finite s m e h)) =
      .finite s m (-1074) h := by
  have hlog : ¬ m.log2 + 1 = Format.binary64.mantissaBits := by
    have := (Nat.log2_lt h.ne').2 hm
    exact (show ¬ m.log2 + 1 = 53 by omega)
  have hfraction : (BitVec.ofNat 52 m).toNat = m := Nat.mod_eq_of_lt hm
  unfold UnpackedFloat.pack
  simp only [biased_eq]
  rw [if_neg (by norm_num; omega), if_neg hlog, unpack_subnormal _ _ (by omega)]
  simp only [hfraction]

end

/-- A number that a float can hold is not moved away from zero when it is packed. -/
theorem Between.packed (h : Between a b x) (ha : a < 2 ^ 100) (hb : b < 2 ^ 100) : Between a b
    (UnpackedFloat.unpack Format.binary64 (UnpackedFloat.pack Format.binary64 x)) := by
  cases h with
  | @zero s =>
      rw [UnpackedFloat.pack, unpack_packedZero]
      exact .zero
  | @finite s m e h hm he hv =>
      have hlimit : limit a b s < 2 ^ 100 := by cases s <;> assumption
      have hfits := exponent_lt h (hv.trans_lt hlimit)
      by_cases hlow : 2 ^ 52 ≤ m
      · rw [unpack_pack_normal hlow hm he hfits]
        exact .finite hm he hv
      · rw [unpack_pack_subnormal (not_le.1 hlow) hfits]
        refine .finite hm le_rfl (le_trans ?_ hv)
        gcongr
        norm_num

end Packing

end CigaretteSmokers.FloatBound
