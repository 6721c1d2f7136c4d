import Mathlib.Data.BitVec

/-!
# Address windows

A window of `2 ^ k` addresses at a multiple of its size can be told in two ways: by the bits from `k` on, and by
its range. A mask that keeps those bits splits an address into the base of its window and the offset in it.
-/

namespace AddrWindow

variable {w k : Nat} {addr base mask : BitVec w}

/-- The mask keeps the bits from `k` on. -/
def Keeps (mask : BitVec w) (k : Nat) : Prop := ∀ i < w, mask.getLsbD i = decide (k ≤ i)

instance : Decidable (Keeps mask k) := inferInstanceAs (Decidable (∀ i < w, _))

theorem and_mask (h : Keeps mask k) : addr &&& mask = addr >>> k <<< k := by
  refine BitVec.eq_of_getLsbD_eq fun i hi => ?_
  rw [BitVec.getLsbD_and, BitVec.getLsbD_shiftLeft, BitVec.getLsbD_ushiftRight, h i hi, decide_eq_true hi]
  by_cases hk : k ≤ i
  · rw [decide_eq_true hk, decide_eq_false (Nat.not_lt.2 hk), Nat.add_sub_cancel' hk]
    simp
  · rw [decide_eq_false hk, decide_eq_true (Nat.not_le.1 hk)]
    simp

theorem toNat_and_mask (h : Keeps mask k) : (addr &&& mask).toNat = addr.toNat / 2 ^ k * 2 ^ k := by
  have hle : addr.toNat / 2 ^ k * 2 ^ k ≤ addr.toNat := Nat.div_mul_le_self _ _
  have hlt := addr.isLt
  rw [and_mask h, BitVec.toNat_shiftLeft, BitVec.toNat_ushiftRight, Nat.shiftRight_eq_div_pow, Nat.shiftLeft_eq]
  exact Nat.mod_eq_of_lt (by omega)

/-- The masked bits of an address are the base of a window exactly if the address is in its range. -/
theorem and_mask_eq_iff (h : Keeps mask k) (haligned : 2 ^ k ∣ base.toNat) :
    addr &&& mask = base ↔ base.toNat ≤ addr.toNat ∧ addr.toNat < base.toNat + 2 ^ k := by
  obtain ⟨q, hq⟩ := haligned
  have hpos := Nat.two_pow_pos k
  rw [← BitVec.toNat_inj, toNat_and_mask h, hq, Nat.mul_comm (2 ^ k) q, Nat.mul_left_inj (by omega),
    Nat.div_eq_iff hpos]
  omega

/-- The offset in the window and its base make up the address. -/
theorem offset_add_base (hbase : addr &&& mask = base) : (addr &&& ~~~mask) + base = addr := by
  rw [← hbase, BitVec.add_eq_or_of_and_eq_zero]
  · refine BitVec.eq_of_getLsbD_eq fun i hi => ?_
    simp [hi, ← Bool.and_or_distrib_left]
  · refine BitVec.eq_of_getLsbD_eq fun i hi => ?_
    rw [BitVec.getLsbD_and, BitVec.getLsbD_and, BitVec.getLsbD_and, BitVec.getLsbD_not]
    cases mask.getLsbD i <;> simp

end AddrWindow
