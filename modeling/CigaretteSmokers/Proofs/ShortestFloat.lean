import CigaretteSmokers.Proofs.NearestFloat

/-!
The shortest decimal of a number rounds to the number: a point of a grid is taken only if it does,
and the finest grid that is tried has one, since its points lie closer than the numbers.
-/

namespace CigaretteSmokers.Binary64

variable {x : Binary64} {power : ℤ}

theorem rounds_of_gridPoint? {c : ℕ} (h : x.gridPoint? power = some c) :
    x.rounds c power = true := by
  unfold gridPoint? at h
  dsimp only at h
  split at h
  · split at h
    · cases h
      simp_all
    · cases h
      assumption
  · split at h
    · cases h
      assumption
    · cases h

/-- The upper neighbour of the number on a grid that is fine enough rounds to it. -/
theorem rounds_succ (h : (x.factors power).1 ≤ (x.factors power).2) :
    x.rounds (4 * x.mantissa * (x.factors power).2 / (x.factors power).1 + 1) power = true := by
  have hpos : 0 < (x.factors power).1 :=
    Nat.mul_pos (Nat.pow_pos (by decide)) (Nat.pow_pos (by decide))
  have hlower : x.lowerBound ≤ 4 * x.mantissa := by
    unfold lowerBound
    split <;> omega
  unfold rounds upperBound
  dsimp only
  generalize (x.factors power).1 = a at *
  generalize (x.factors power).2 = b at *
  have hquotient := Nat.div_mul_le_self (4 * x.mantissa * b) a
  have hnext : 4 * x.mantissa * b < (4 * x.mantissa * b / a + 1) * a := by
    have := Nat.lt_div_mul_add hpos (a := 4 * x.mantissa * b)
    linarith
  have hlow : x.lowerBound * b < (4 * x.mantissa * b / a + 1) * a :=
    (Nat.mul_le_mul_right b hlower).trans_lt hnext
  have hhigh : (4 * x.mantissa * b / a + 1) * a < (4 * x.mantissa + 2) * b := by
    nlinarith
  split
  · simp [hlow.le, hhigh.le]
  · simp [hlow, hhigh]

theorem gridPoint?_isSome (h : (x.factors power).1 ≤ (x.factors power).2) :
    (x.gridPoint? power).isSome = true := by
  have hsucc := rounds_succ h
  unfold gridPoint?
  dsimp only
  split
  · split <;> rfl
  · rfl

theorem factors_le (h : (10 : ℚ) ^ power ≤ 2 ^ (x.exponent - 2)) :
    (x.factors power).1 ≤ (x.factors power).2 := by
  obtain ⟨k, hk, ha, hb⟩ := x.factors_eq power
  rw [← Nat.cast_le (α := ℚ), ha, hb]
  exact mul_le_mul_of_nonneg_left h hk.le

/-- The finest grid of the search is fine enough. -/
theorem ten_zpow_le (hx : x.isFinite = true) :
    (10 : ℚ) ^ (x.topPower - 20) ≤ 2 ^ (x.exponent - 2) := by
  have hlog : x.mantissa.log2 ≤ 52 := by
    by_contra hlog
    have := Nat.pow_le_pow_right (n := 2) (by decide) (show 53 ≤ x.mantissa.log2 by omega)
    have := Nat.log2_self_le (n := x.mantissa) (by rintro h; simp [h] at hlog)
    have := x.mantissa_lt
    omega
  have hge := x.exponent_ge
  have hle := exponent_le hx
  obtain ⟨p, hp⟩ : ∃ p, p = x.topPower - 20 := ⟨_, rfl⟩
  rw [← hp]
  unfold topPower at hp
  rcases le_total 0 p with h | h
  · lift p to ℕ using h
    obtain ⟨j, hj⟩ : ∃ j : ℕ, x.exponent - 2 = j := ⟨(x.exponent - 2).toNat, by omega⟩
    rw [hj, zpow_natCast, zpow_natCast]
    exact_mod_cast ten_pow_le_two_pow (by omega)
  · obtain ⟨k, rfl⟩ : ∃ k : ℕ, p = -k := ⟨p.natAbs, by omega⟩
    rcases le_total 0 (x.exponent - 2) with he | he
    · calc (10 : ℚ) ^ (-(k : ℤ)) ≤ 1 := zpow_le_one_of_nonpos₀ (by norm_num) h
        _ ≤ 2 ^ (x.exponent - 2) := one_le_zpow₀ (by norm_num) he
    · obtain ⟨j, hj⟩ : ∃ j : ℕ, x.exponent - 2 = -j := ⟨(x.exponent - 2).natAbs, by omega⟩
      rw [hj, zpow_neg, zpow_neg, zpow_natCast, zpow_natCast]
      refine inv_anti₀ (by positivity) ?_
      exact_mod_cast two_pow_le_ten_pow (by omega)

theorem rounds_search {tries : ℕ} (h : (x.gridPoint? (power - tries)).isSome = true) :
    x.rounds (x.search tries power).digits (x.search tries power).power = true := by
  induction tries generalizing power with
  | zero =>
      rw [Nat.cast_zero, sub_zero] at h
      obtain ⟨c, hc⟩ := Option.isSome_iff_exists.1 h
      rw [search, hc]
      exact rounds_of_gridPoint? hc
  | succ tries ih =>
      unfold search
      split
      · rename_i c hc
        exact rounds_of_gridPoint? hc
      · refine ih ?_
        rwa [show power - 1 - tries = power - (tries + 1 : ℕ) by push_cast; ring]

theorem covers_shortest (hx : x.isFinite = true) (hm : x.mantissa ≠ 0) :
    x.Covers x.shortest.value := by
  unfold shortest
  rw [if_neg hm]
  exact rounds_iff.1 (rounds_search (gridPoint?_isSome (factors_le (ten_zpow_le hx))))

theorem shortest_power_eq_zero (hx : x.isFinite = true) (h : x.shortest.digits = 0) :
    x.shortest.power = 0 := by
  by_cases hm : x.mantissa = 0
  · rw [shortest, if_pos hm]
  · have hpos := (covers_shortest hx hm).pos hm
    have : (0 : ℚ) < 2 ^ (-1075 : ℤ) := by positivity
    simp only [Decimal.value, h, Nat.cast_zero, zero_mul] at hpos
    linarith

/-- However it is written, the shortest decimal reads back as the number. -/
theorem nearest?_of_shortest (hx : x.isFinite = true) {d : Decimal}
    (hd : d.value = x.shortest.value) : d.nearest? x.signed = some x := by
  by_cases hm : x.mantissa = 0
  · have hvalue : d.value = 0 := by
      rw [hd, shortest, if_pos hm]
      simp [Decimal.value]
    refine nearest?_of_zero ?_ hm
    simpa [Decimal.value, zpow_ne_zero] using hvalue
  · exact nearest?_of_covers hx hm (hd ▸ covers_shortest hx hm)

end CigaretteSmokers.Binary64
