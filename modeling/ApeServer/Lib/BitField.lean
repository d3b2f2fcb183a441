/-
  Fields packed into a machine word.

  `x <<< k ||| y` with `y` below `2 ^ k` puts `y` under `x`: as integers it is
  `x * 2 ^ k + y`, as long as `x` fits into the bits above (`toInt_pack`).  A
  mask of `k` ones takes the lowest field out again (`toInt_mask`).
-/
import Mathlib.Tactic

namespace BitField

variable {w k : ℕ} {x y : BitVec w}

/-- The bits of `x` above, those of `y` below. -/
theorem toNat_pack (hk : k ≤ w) (hy : y.toNat < 2 ^ k) :
    (x <<< k ||| y).toNat = 2 ^ k * (x.toNat % 2 ^ (w - k)) + y.toNat := by
  have hw : 2 ^ w = 2 ^ k * 2 ^ (w - k) := by rw [← Nat.pow_add, Nat.add_sub_cancel' hk]
  rw [BitVec.toNat_or, BitVec.toNat_shiftLeft, Nat.shiftLeft_eq, Nat.mul_comm, hw,
    Nat.mul_mod_mul_left, Nat.two_pow_add_eq_or_of_lt hy]

theorem toInt_pack (hk : k < w) (hy : y.toNat < 2 ^ k) (hlo : -2 ^ (w - 1 - k) ≤ x.toInt)
    (hhi : x.toInt < 2 ^ (w - 1 - k)) : (x <<< k ||| y).toInt = x.toInt * 2 ^ k + y.toNat := by
  have hw : (2 : ℤ) ^ w = 2 ^ k * 2 ^ (w - k) := by rw [← pow_add, Nat.add_sub_cancel' hk.le]
  have hh : (2 : ℤ) ^ (w - 1) = 2 ^ k * 2 ^ (w - 1 - k) := by rw [← pow_add]; congr 1; omega
  have hy' : (y.toNat : ℤ) < 2 ^ k := by exact_mod_cast hy
  -- both sides agree modulo `2 ^ w`
  have hmod : ((x <<< k ||| y).toNat : ℤ).bmod (2 ^ w) = (x.toInt * 2 ^ k + y.toNat).bmod (2 ^ w) := by
    rw [toNat_pack hk.le hy]
    apply Int.bmod_eq_bmod_iff_bmod_sub_eq_zero.2
    apply Int.bmod_eq_zero_of_dvd
    obtain ⟨a, ha⟩ : (2 : ℤ) ^ w ∣ x.toNat - x.toInt := by
      rw [BitVec.toInt_eq_toNat_bmod]
      exact_mod_cast Int.dvd_self_sub_bmod
    have hdiv := Int.emod_add_mul_ediv (x.toNat : ℤ) (2 ^ (w - k))
    refine ⟨a * 2 ^ k - x.toNat / 2 ^ (w - k), ?_⟩
    push_cast
    rw [hw] at ha ⊢
    generalize (x.toNat : ℤ) / 2 ^ (w - k) = q at *
    generalize (x.toNat : ℤ) % 2 ^ (w - k) = r at *
    linear_combination 2 ^ k * ha + 2 ^ k * hdiv
  rw [BitVec.toInt_eq_toNat_bmod, hmod]
  have h2 : (2 : ℤ) ^ w = 2 * 2 ^ (w - 1) := by rw [← pow_succ']; congr 1; omega
  have hk0 : (0 : ℤ) < 2 ^ k := by positivity
  refine Int.bmod_eq_of_le_mul_two ?_ ?_
  · push_cast
    have := mul_le_mul_of_nonneg_right hlo hk0.le
    linarith
  · push_cast
    have := mul_le_mul_of_nonneg_right (Int.add_one_le_of_lt hhi) hk0.le
    linarith

theorem toNat_of_nonneg (hx : 0 ≤ x.toInt) : (x.toNat : ℤ) = x.toInt := by
  have hs : BitVec.sle 0#w x := BitVec.sle_iff_toInt_le.2 (by simpa using hx)
  rw [← BitVec.toNat_toInt_of_sle hs, Int.toNat_of_nonneg hx]

/-- A mask of `k` ones. -/
theorem toNat_mask (hy : y.toNat = 2 ^ k - 1) : (x &&& y).toNat = x.toNat % 2 ^ k := by
  rw [BitVec.toNat_and, hy, Nat.and_two_pow_sub_one_eq_mod]

theorem toInt_mask (hy : y.toNat = 2 ^ k - 1) (hx : 0 ≤ x.toInt) :
    (x &&& y).toInt = x.toInt % 2 ^ k := by
  have hle := Nat.mod_le x.toNat (2 ^ k)
  have hlt : 2 * x.toNat < 2 ^ w := by
    have h := BitVec.two_mul_toInt_lt (x := x)
    rw [← toNat_of_nonneg hx] at h
    exact_mod_cast h
  rw [BitVec.toInt_eq_toNat_of_lt (by rw [toNat_mask hy]; omega), toNat_mask hy, ← toNat_of_nonneg hx]
  push_cast
  rfl

end BitField
