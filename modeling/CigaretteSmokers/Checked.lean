namespace CigaretteSmokers.Checked

/-- The 64-bit signed number `n`, if it fits. -/
def signed (n : Int) : Option Int64 :=
  if Int64.minValue.toInt ≤ n ∧ n ≤ Int64.maxValue.toInt then some (Int64.ofInt n) else none

/-- The 64-bit unsigned number `n`, if it fits. -/
def unsigned (n : Nat) : Option UInt64 :=
  if n < UInt64.size then some (UInt64.ofNat n) else none

/-- `a - b`, if it is not negative. -/
def difference (a b : UInt64) : Option UInt64 := if b ≤ a then some (a - b) else none

theorem toInt_of_signed {n : Int} {a : Int64} (h : signed n = some a) : a.toInt = n := by
  unfold signed at h
  split at h
  · rename_i hn
    cases h
    have hlo : Int64.minValue.toInt = -9223372036854775808 := rfl
    have hhi : Int64.maxValue.toInt = 9223372036854775807 := rfl
    exact Int64.toInt_ofInt_of_le (by omega) (by omega)
  · cases h

theorem signed_toInt (a : Int64) : signed a.toInt = some a := by
  have h : Int64.minValue.toInt ≤ a.toInt ∧ a.toInt ≤ Int64.maxValue.toInt :=
    ⟨Int64.minValue_le_toInt a, Int64.toInt_le a⟩
  simp only [signed, if_pos h, Int64.ofInt_toInt]

theorem toNat_of_unsigned {n : Nat} {a : UInt64} (h : unsigned n = some a) : a.toNat = n := by
  unfold unsigned at h
  split at h
  · rename_i hn
    cases h
    exact UInt64.toNat_ofNat_of_lt' hn
  · cases h

theorem unsigned_toNat (a : UInt64) : unsigned a.toNat = some a := by
  simp only [unsigned, if_pos a.toNat_lt_size, UInt64.ofNat_toNat]

end CigaretteSmokers.Checked
