import CigaretteSmokers.Proofs.FloatRounding
import CigaretteSmokers.Proofs.NearestFloat
import CigaretteSmokers.Settings

/-!
Delays that can be told as a duration: as long as the longest that a delay model asks for is not
more than half of what a duration can be, every draw from it is a duration.
-/

namespace CigaretteSmokers

open Float.Model FloatBound

namespace Binary64

/-- The magnitude of a finite number. -/
def magnitude (x : Binary64) : ℚ := x.mantissa * 2 ^ x.exponent

def sign (x : Binary64) : UnpackedFloat.Sign := if x.signed then .negative else .positive

/-- What the bits stand for. -/
def unpacked (x : Binary64) : UnpackedFloat := UnpackedFloat.unpack Format.binary64 x.bits.toBitVec

variable {x : Binary64} {b : ℚ}

theorem exponentField_lt (x : Binary64) : x.exponentField < 2048 := Nat.mod_lt _ (by decide)

theorem fraction_lt (x : Binary64) : x.fraction < 2 ^ 52 := Nat.mod_lt _ (by decide)

theorem unpackSign_bits (x : Binary64) : UnpackedFloat.Sign.ofBitVec
    (@UnpackedFloat.unpackSign Format.binary64 x.bits.toBitVec) = x.sign := by
  have hbits : x.bits.toNat < 2 ^ 64 := x.bits.toNat_lt
  have htop : (@UnpackedFloat.unpackSign Format.binary64 x.bits.toBitVec).toNat =
      x.bits.toNat / 2 ^ 63 % 2 := by
    rw [UnpackedFloat.unpackSign_def, BitVec.extractLsb'_toNat, Nat.shiftRight_eq_div_pow]
    rfl
  unfold UnpackedFloat.Sign.ofBitVec sign signed signBit
  simp only [← BitVec.toNat_inj, htop]
  by_cases h : 0x8000000000000000 ≤ x.bits.toNat
  · rw [if_neg (by simp; omega), if_pos (by simpa using h)]
  · rw [if_pos (by simp; omega), if_neg (by simpa using h)]

theorem bits_eq_packComponents (x : Binary64) : x.bits.toBitVec =
    UnpackedFloat.packComponents Format.binary64 x.sign (.ofNat 11 x.exponentField)
      (.ofNat 52 x.fraction) := by
  have hexponent : @UnpackedFloat.unpackExponent Format.binary64 x.bits.toBitVec =
      .ofNat 11 x.exponentField := by
    apply BitVec.eq_of_toNat_eq
    rw [UnpackedFloat.unpackExponent_def, BitVec.extractLsb'_toNat, Nat.shiftRight_eq_div_pow,
      BitVec.toNat_ofNat]
    exact (Nat.mod_eq_of_lt x.exponentField_lt).symm
  have hfraction : @UnpackedFloat.unpackMantissa Format.binary64 x.bits.toBitVec =
      .ofNat 52 x.fraction := by
    apply BitVec.eq_of_toNat_eq
    rw [UnpackedFloat.unpackMantissa_def, BitVec.extractLsb'_toNat, Nat.shiftRight_zero,
      BitVec.toNat_ofNat]
    exact (Nat.mod_eq_of_lt x.fraction_lt).symm
  rw [← x.unpackSign_bits, ← hexponent, ← hfraction]
  exact (@UnpackedFloat.packComponents_unpackSign_unpackExponent_unpackMantissa Format.binary64
    x.bits.toBitVec).symm

theorem unpacked_of_finite (h : x.isFinite = true) :
    (x.mantissa = 0 ∧ x.unpacked = .zero x.sign) ∨
      ∃ hm, x.unpacked = .finite x.sign x.mantissa x.exponent hm := by
  have hfield := x.exponentField_lt
  have hfraction : (BitVec.ofNat 52 x.fraction).toNat = x.fraction := Nat.mod_eq_of_lt x.fraction_lt
  have hexponent : (BitVec.ofNat 11 x.exponentField).toNat = x.exponentField :=
    Nat.mod_eq_of_lt x.exponentField_lt
  simp only [isFinite, ne_eq, decide_not, Bool.not_eq_true', decide_eq_false_iff_not] at h
  unfold unpacked mantissa exponent
  rw [bits_eq_packComponents]
  by_cases hsub : x.exponentField = 0
  · simp only [hsub]
    rcases Nat.eq_zero_or_pos x.fraction with hzero | hpos
    · left
      rw [hzero]
      exact ⟨rfl, UnpackedFloat.unpack_packedZero⟩
    · right
      refine ⟨hpos, ?_⟩
      have hunpack := unpack_subnormal x.sign (.ofNat 52 x.fraction) (by omega)
      simp only [hfraction] at hunpack
      exact hunpack
  · right
    simp only [if_neg hsub]
    have hunpack := unpack_normal x.sign (.ofNat 11 x.exponentField) (.ofNat 52 x.fraction)
      (by omega) (by omega)
    simp only [hfraction, hexponent] at hunpack
    exact ⟨by unfold leadingBit; omega, hunpack⟩

theorem unpacked_of_not_finite (h : x.isFinite = false) :
    x.unpacked = .infinity x.sign ∨ x.unpacked = .notANumber := by
  have hones : x.exponentField = 2047 := by simpa [isFinite] using h
  unfold unpacked
  rw [bits_eq_packComponents, hones]
  exact unpack_ones

theorem magnitude_nonneg (x : Binary64) : 0 ≤ x.magnitude := by
  unfold magnitude
  positivity

theorem between_unpacked (hx : x.isFinite = true) (hs : x.isNegative = false) :
    Between 0 x.magnitude x.unpacked := by
  rcases unpacked_of_finite hx with ⟨-, hu⟩ | ⟨hm, hu⟩
  · rw [hu]
    exact .zero
  · have hzero : x.isZero = false := by
      unfold mantissa at hm
      unfold isZero
      split at hm
      · simp
        omega
      · simp_all
    have hnan : x.isNaN = false := by simp_all [isNaN, isFinite]
    have hsign : x.sign = .positive := by simp_all [isNegative, sign]
    rw [hu, hsign]
    exact .finite x.mantissa_lt x.exponent_ge le_rfl

theorem finite_of_between (h : Between 0 b x.unpacked) (hb : 0 ≤ b) :
    x.isFinite = true ∧ x.magnitude ≤ b := by
  cases hx : x.isFinite with
  | false =>
      rcases unpacked_of_not_finite hx with hu | hu <;> rw [hu] at h <;> cases h
  | true =>
      refine ⟨rfl, ?_⟩
      rcases unpacked_of_finite hx with ⟨hm, hu⟩ | ⟨hm, hu⟩
      · unfold magnitude
        simpa [hm] using hb
      · rw [hu] at h
        generalize x.sign = s at h
        cases h with
        | finite _ _ hv =>
            refine hv.trans ?_
            cases s with
            | negative => exact hb
            | positive => exact le_rfl

end Binary64

/-- The float is a number from `-a` to `b`. -/
def Ranges (a b : ℚ) (f : Float) : Prop := Between a b f.toModel.unpack

theorem onGrid_natCast {n : ℕ} (hn : n < 2 ^ 53) : OnGrid n := ⟨n, 0, hn, by decide, by simp⟩

theorem onGrid_zero : OnGrid 0 := ⟨0, 0, by decide, by decide, by simp⟩

theorem Ranges.mul {a b c d k : ℚ} {f g : Float} (hf : Ranges a b f) (hg : Ranges 0 k g)
    (hc : OnGrid c) (hd : OnGrid d) (hac : a * k ≤ c) (hbd : b * k ≤ d) (hc' : c < 2 ^ 100)
    (hd' : d < 2 ^ 100) : Ranges c d (f * g) :=
  (Between.mul hf hg hc hd hac hbd).packed hc' hd'

namespace Random.Generator

theorem ranges_toFloat {n : UInt64} (hn : n.toNat < 2 ^ 53) : Ranges 0 n.toNat n.toFloat := by
  have hrounded : Between 0 n.toNat (UnpackedFloat.normalize Format.binary64 n.toNat 0 .positive) :=
    onGrid_zero.normalize (onGrid_natCast hn) (by simp) (by simp)
  refine hrounded.packed (by norm_num) ?_
  calc (n.toNat : ℚ) < 2 ^ 53 := by exact_mod_cast hn
    _ < 2 ^ 100 := by norm_num

theorem ranges_unit : Ranges 0 (1 / 2 ^ 53) (Float.ofBits 0x3ca0000000000000) := by
  have hunpack : (Float.ofBits 0x3ca0000000000000).toModel.unpack =
      .finite .positive (2 ^ 52) (-105) (by decide) := rfl
  rw [Ranges, hunpack]
  exact .finite (by decide) (by decide) (by norm_num [limit])

theorem ranges_nextUnit (g : Generator) : Ranges 0 1 g.nextUnit.1 := by
  have hshift : (g.next64.1 >>> 11).toNat < 2 ^ 53 := by
    have := g.next64.1.toNat_lt
    rw [UInt64.toNat_shiftRight]
    simp [Nat.shiftRight_eq_div_pow]
    omega
  have hone : OnGrid 1 := ⟨1, 0, by decide, by decide, by norm_num⟩
  refine (ranges_toFloat hshift).mul ranges_unit onGrid_zero hone (by simp) ?_ (by norm_num)
    (by norm_num)
  have : ((g.next64.1 >>> 11).toNat : ℚ) ≤ 2 ^ 53 := by exact_mod_cast hshift.le
  linarith

theorem ranges_sumUnits {sum : Float} {n k : ℕ} (hk : k + n ≤ 12) (h : Ranges 0 k sum)
    (g : Generator) : Ranges 0 ↑(k + n) (g.sumUnits n sum).1 := by
  induction n generalizing k sum g with
  | zero => exact h
  | succ n ih =>
      have hsum : Ranges 0 ↑(k + 1) (sum + g.nextUnit.1) := by
        refine Between.packed (Between.add h g.ranges_nextUnit ?_ ?_ onGrid_zero
          (onGrid_natCast (by omega)) (by simp) (by push_cast; rfl)) (by norm_num) ?_
        · exact ⟨le_rfl, by positivity⟩
        · exact ⟨le_rfl, zero_le_one⟩
        · calc ((k + 1 : ℕ) : ℚ) ≤ 12 := by exact_mod_cast (by omega : k + 1 ≤ 12)
            _ < 2 ^ 100 := by norm_num
      rw [show k + (n + 1) = k + 1 + n by omega]
      exact ih (by omega) hsum _

/-- Twelve numbers below one do not stray from their mean by more than six. -/
theorem ranges_nextNormal {stddev : Float} {s b : ℚ} (hs : Ranges 0 s stddev) (hb : OnGrid b)
    (hle : 6 * s ≤ b) (hlt : b < 2 ^ 100) (g : Generator) : Ranges b b (g.nextNormal stddev).1 := by
  have hzero : Ranges 0 ↑0 (0 : Float) := by
    have hunpack : (0 : Float).toModel.unpack = .zero .positive := rfl
    rw [Ranges, hunpack]
    exact .zero
  have hsix : (6 : Float).toModel.unpack = .finite .positive (3 * 2 ^ 51) (-50) (by decide) := rfl
  have hgrid : OnGrid 6 := ⟨6, 0, by decide, by decide, by norm_num⟩
  have hsum : Ranges 0 ((0 + 12 : ℕ) : ℚ) (g.sumUnits 12 0).1 := ranges_sumUnits le_rfl hzero g
  have hcentred : Ranges 6 6 ((g.sumUnits 12 0).1 - 6) := by
    refine Between.packed ?_ (by norm_num) (by norm_num)
    rw [hsix]
    exact Between.sub hsum (by norm_num) (by decide) (by decide) hgrid hgrid (by norm_num)
      (by norm_num)
  exact hcentred.mul hs hb hb hle hle hlt hlt

end Random.Generator

namespace TimeUnit

/-- How many of the unit make a second. -/
def count : TimeUnit → ℕ
  | .microseconds => 1000000
  | .milliseconds => 1000

theorem unpack_perSecond (unit : TimeUnit) : ∃ m e h,
    unit.perSecond.toModel.unpack = .finite .positive m e h ∧ (m : ℚ) * 2 ^ e = unit.count := by
  cases unit with
  | microseconds => exact ⟨1000000 * 2 ^ 33, -33, by decide, rfl, by norm_num [count]⟩
  | milliseconds => exact ⟨1000 * 2 ^ 43, -43, by decide, rfl, by norm_num [count]⟩

end TimeUnit

namespace Duration

/-- Seconds that stay below the longest duration are one. -/
theorem ofSeconds_of_lt {x : Binary64} (hx : x.isFinite = true) (hlt : x.magnitude < longest) :
    ∃ d, ofSeconds x = .ok d := by
  unfold Binary64.magnitude at hlt
  unfold ofSeconds
  rw [hx]
  simp only [Bool.not_true, Bool.false_eq_true, if_false]
  split
  · rename_i e he
    rw [he, Int.ofNat_eq_natCast, zpow_natCast] at hlt
    have hwhole : x.mantissa * 2 ^ e < longest := by exact_mod_cast hlt
    exact ⟨_, if_neg (not_le.2 hwhole)⟩
  · rename_i e he
    rw [he, zpow_negSucc, ← div_eq_mul_inv, div_lt_iff₀ (by positivity)] at hlt
    have hpart : x.mantissa < longest * 2 ^ (e + 1) := by exact_mod_cast hlt
    exact ⟨_, if_neg (not_le.2 hpart)⟩

end Duration

namespace DelayModel

/-- The longest that the model asks for is not more than half of what a duration can be. -/
def Moderate (m : DelayModel) : Prop :=
  m.base.magnitude + 6 * m.stddev.magnitude ≤ 2 ^ 63 * m.unit.count

/-- An amount of half again what a model may ask for is still told as a duration. -/
theorem lasting_of_ranges {unit : TimeUnit} {amount : Float} {a : ℚ}
    (h : Ranges a (3 * 2 ^ 62 * unit.count) amount) : ∃ d, lasting unit amount = .ok d := by
  unfold lasting
  split
  · rename_i hpos
    rw [Bool.and_eq_true, decide_eq_true_eq] at hpos
    have hlt : UnpackedFloat.lt (0 : Float).toModel.unpack amount.toModel.unpack = true :=
      of_decide_eq_true hpos.1
    obtain ⟨m, e, hm, hu, hv⟩ := Between.of_lt h hlt
    obtain ⟨m', e', hm', hunit, hcount⟩ := unit.unpack_perSecond
    have hquotient : Between 0 (3 * 2 ^ 62)
        (Binary64.ofFloat (amount / unit.perSecond)).unpacked := by
      refine Between.packed ?_ (by norm_num) (by norm_num)
      rw [hu, hunit]
      refine OnGrid.div ⟨3, 62, by decide, by decide, by norm_num⟩ ?_
      rw [hcount]
      exact hv
    obtain ⟨hfinite, hle⟩ := Binary64.finite_of_between hquotient (by norm_num)
    exact Duration.ofSeconds_of_lt hfinite (hle.trans_lt (by norm_num [Duration.longest]))
  · exact ⟨_, rfl⟩

theorem ranges_toFloat {x : Binary64} (hx : Settings.isAmount x = true)
    (hlt : x.magnitude < 2 ^ 100) : Ranges 0 x.magnitude x.toFloat := by
  simp only [Settings.isAmount, Bool.and_eq_true, Bool.not_eq_true'] at hx
  exact (Binary64.between_unpacked hx.1 hx.2).packed (by norm_num) hlt

theorem sample_of_moderate {m : DelayModel} (hbase : Settings.isAmount m.base = true)
    (hstddev : Settings.isAmount m.stddev = true) (h : m.Moderate) (g : Random.Generator) :
    ∃ d, (m.sample g).1 = .ok d := by
  have hb := m.base.magnitude_nonneg
  have hs := m.stddev.magnitude_nonneg
  have hcount : (m.unit.count : ℚ) ≤ 1000000 := by cases m.unit <;> norm_num [TimeUnit.count]
  unfold Moderate at h
  -- Eight times the deviation has as few digits as the deviation, which six times need not have.
  have hnoise : Ranges (8 * m.stddev.magnitude) (8 * m.stddev.magnitude)
      (g.nextNormal m.stddev.toFloat).1 := by
    apply Random.Generator.ranges_nextNormal (ranges_toFloat hstddev (by linarith))
    · refine ⟨m.stddev.mantissa, m.stddev.exponent + 3, m.stddev.mantissa_lt, ?_, ?_⟩
      · have := m.stddev.exponent_ge
        omega
      · unfold Binary64.magnitude
        rw [zpow_add₀ (by norm_num)]
        ring
    · linarith
    · linarith
  have hgrid : OnGrid (3 * 2 ^ 62 * m.unit.count) := by
    cases m.unit with
    | microseconds => exact ⟨46875, 68, by decide, by decide, by norm_num [TimeUnit.count]⟩
    | milliseconds => exact ⟨375, 65, by decide, by decide, by norm_num [TimeUnit.count]⟩
  have hamount : Ranges (3 * 2 ^ 62 * m.unit.count) (3 * 2 ^ 62 * m.unit.count)
      (m.base.toFloat + (g.nextNormal m.stddev.toFloat).1) := by
    refine Between.packed (Between.add (ranges_toFloat hbase ?_) hnoise ⟨le_rfl, hb⟩ ?_ hgrid hgrid
      ?_ ?_) ?_ ?_
    case refine_2 => constructor <;> linarith
    all_goals linarith
  exact lasting_of_ranges hamount

/-- Without a deviation every draw is the base. -/
theorem sample_of_zero {m : DelayModel} (hstddev : m.stddev = ⟨0⟩) {s : UnpackedFloat.Sign} {n : ℕ}
    {e : ℤ} {h : 0 < n} (hbase : m.base.toFloat.toModel.unpack = .finite s n e h)
    (g : Random.Generator) :
    (m.sample g).1 = lasting m.unit (.ofModel (.pack (.finite s n e h))) := by
  have hzero : Ranges 0 0 m.stddev.toFloat := by
    have hunpack : (Binary64.toFloat ⟨0⟩).toModel.unpack = .zero .positive := rfl
    rw [Ranges, hstddev, hunpack]
    exact .zero
  have hnoise := Random.Generator.ranges_nextNormal hzero onGrid_zero (by norm_num) (by norm_num) g
  obtain ⟨t, ht⟩ := Between.eq_zero hnoise
  have hamount : m.base.toFloat + (g.nextNormal m.stddev.toFloat).1 =
      .ofModel (.pack (UnpackedFloat.add Format.binary64 m.base.toFloat.toModel.unpack
        (g.nextNormal m.stddev.toFloat).1.toModel.unpack)) := rfl
  rw [hbase, ht] at hamount
  exact congrArg (lasting m.unit) hamount

end DelayModel

end CigaretteSmokers
