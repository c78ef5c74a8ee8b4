import Mathlib.Data.BitVec
import Mathlib.Data.Nat.Size

/-!
# Blocks of numbers

A mask selects the numbers that agree with a given one on its bits.  When the mask is
ones followed by zeros, these are consecutive numbers.

## Main definitions

* `Contiguous` — ones followed by zeros.

## Main results

* `and_eq_and_iff_div` — what agrees on a contiguous mask has the same quotient.
* `toNat_add_not` — the last number of a block, without a carry out of the width.
* `forall_and_eq_and_iff` — **when the numbers of a mask are an interval**: the numbers that agree
  with `a` lie between `a` and `a + ~~~mask` exactly when `a` has no bits outside of the mask and
  the mask is contiguous.
-/

namespace RulesAnalyzer.Shared

variable {w : ℕ} {a x mask : BitVec w} {i k : ℕ}

/-- The mask is ones followed by zeros. -/
def Contiguous (mask : BitVec w) : Prop := ∃ k ≤ w, mask = BitVec.allOnes w <<< k

/-! ### The numbers of a contiguous mask -/

theorem getLsbD_allOnes_shiftLeft :
    (BitVec.allOnes w <<< k).getLsbD i = (decide (i < w) && decide (k ≤ i)) := by
  rw [BitVec.getLsbD_shiftLeft, BitVec.getLsbD_allOnes]
  by_cases hw : i < w
  · simp only [hw, (Nat.sub_le i k).trans_lt hw, decide_true, Bool.true_and, Bool.and_true]
    rw [← decide_not, decide_eq_decide, Nat.not_lt]
  · simp only [hw, decide_false, Bool.false_and]

theorem toNat_not_allOnes_shiftLeft (hk : k ≤ w) :
    (~~~(BitVec.allOnes w <<< k)).toNat = 2 ^ k - 1 := by
  apply Nat.eq_of_testBit_eq
  intro i
  rw [BitVec.testBit_toNat, BitVec.getLsbD_not, getLsbD_allOnes_shiftLeft,
    Nat.testBit_two_pow_sub_one, Bool.not_and, Bool.and_or_distrib_left, Bool.and_not_self,
    Bool.false_or, ← decide_not, ← Bool.decide_and, decide_eq_decide]
  omega

/-- The mask takes the bits below `k` away. -/
theorem toNat_and_allOnes_shiftLeft :
    (x &&& BitVec.allOnes w <<< k).toNat = x.toNat / 2 ^ k * 2 ^ k := by
  apply Nat.eq_of_testBit_eq
  intro i
  rw [BitVec.testBit_toNat, BitVec.getLsbD_and, getLsbD_allOnes_shiftLeft,
    Nat.testBit_mul_two_pow, Nat.testBit_div_two_pow, BitVec.testBit_toNat]
  by_cases hi : k ≤ i
  · rw [Nat.sub_add_cancel hi, decide_eq_true hi, Bool.true_and, Bool.and_true]
    by_cases hw : i < w
    · rw [decide_eq_true hw, Bool.and_true]
    · rw [BitVec.getLsbD_of_ge x i (Nat.not_lt.mp hw), Bool.false_and]
  · rw [decide_eq_false hi, Bool.and_false, Bool.and_false, Bool.false_and]

theorem and_eq_and_iff_div : x &&& BitVec.allOnes w <<< k = a &&& BitVec.allOnes w <<< k ↔
    x.toNat / 2 ^ k = a.toNat / 2 ^ k := by
  rw [← BitVec.toNat_inj, toNat_and_allOnes_shiftLeft, toNat_and_allOnes_shiftLeft,
    Nat.mul_left_inj (Nat.two_pow_pos k).ne']

theorem and_eq_self_iff_dvd : a &&& BitVec.allOnes w <<< k = a ↔ 2 ^ k ∣ a.toNat := by
  rw [← BitVec.toNat_inj, toNat_and_allOnes_shiftLeft]
  exact ⟨fun h => ⟨_, by rw [Nat.mul_comm, h]⟩, Nat.div_mul_cancel⟩

/-- The numbers with the quotient of a multiple. -/
theorem div_eq_div_iff_of_dvd {n m d : ℕ} (hd : 0 < d) (h : d ∣ n) :
    m / d = n / d ↔ n ≤ m ∧ m ≤ n + (d - 1) := by
  obtain ⟨q, rfl⟩ := h
  rw [Nat.mul_div_cancel_left q hd, Nat.div_eq_iff hd, Nat.mul_comm d q]
  omega

/-! ### The last number of a block -/

/-- A number without host bits and the complement of its mask have no bit in common. -/
theorem toNat_add_not (h : a &&& mask = a) :
    (a + ~~~mask).toNat = a.toNat + (~~~mask).toNat := by
  apply BitVec.toNat_add_of_and_eq_zero
  rw [← h, BitVec.and_assoc]
  simp

/-! ### When the numbers of a mask are an interval -/

/-- A contiguous mask and a number without host bits. -/
theorem and_eq_and_iff_of_contiguous (h : a &&& mask = a) (hmask : Contiguous mask) :
    x &&& mask = a &&& mask ↔ a.toNat ≤ x.toNat ∧ x.toNat ≤ (a + ~~~mask).toNat := by
  rw [toNat_add_not h]
  obtain ⟨k, hk, rfl⟩ := hmask
  rw [and_eq_and_iff_div, toNat_not_allOnes_shiftLeft hk]
  exact div_eq_div_iff_of_dvd (Nat.two_pow_pos k) (and_eq_self_iff_dvd.mp h)

/-- Adding a power of two to a number changes the bit of that power. -/
theorem getLsbD_add_twoPow (hi : i < w) : (a + BitVec.twoPow w i).getLsbD i = !a.getLsbD i := by
  rw [← BitVec.testBit_toNat, BitVec.toNat_add, BitVec.toNat_twoPow, Nat.testBit_mod_two_pow,
    Nat.mod_eq_of_lt (Nat.pow_lt_pow_right (by decide) hi), Nat.add_comm,
    Nat.testBit_two_pow_add_eq, BitVec.testBit_toNat, decide_eq_true hi, Bool.true_and]

/-- A bit of the mask has a power above the host bits: adding it would stay in the interval. -/
theorem not_mem_mask_of_le (h : a &&& mask = a)
    (hall : ∀ x : BitVec w, a.toNat ≤ x.toNat → x.toNat ≤ (a + ~~~mask).toNat →
      x &&& mask = a &&& mask)
    (hle : 2 ^ i ≤ (~~~mask).toNat) : mask.getLsbD i = false := by
  have hi : i < w := (Nat.pow_lt_pow_iff_right (by decide)).mp (hle.trans_lt (~~~mask).isLt)
  have hadd := toNat_add_not h
  have hlt := (a + ~~~mask).isLt
  have hpow : (BitVec.twoPow w i).toNat = 2 ^ i := by
    rw [BitVec.toNat_twoPow, Nat.mod_eq_of_lt (by omega)]
  have hsum : (a + BitVec.twoPow w i).toNat = a.toNat + 2 ^ i := by
    rw [BitVec.toNat_add, hpow, Nat.mod_eq_of_lt (by omega)]
  have hmem := hall (a + BitVec.twoPow w i) (by omega) (by omega)
  have hbit := congrArg (fun y : BitVec w => y.getLsbD i) hmem
  simp only [BitVec.getLsbD_and, getLsbD_add_twoPow hi] at hbit
  cases hm : mask.getLsbD i with
  | false => rfl
  | true =>
    rw [hm, Bool.and_true, Bool.and_true] at hbit
    exact absurd hbit (Bool.not_ne_self _)

/-- A mask whose ones all have powers above the host bits is contiguous. -/
theorem contiguous_of_forall (h : ∀ i, 2 ^ i ≤ (~~~mask).toNat → mask.getLsbD i = false) :
    Contiguous mask := by
  refine ⟨Nat.size (~~~mask).toNat, Nat.size_le.mpr (~~~mask).isLt, ?_⟩
  apply BitVec.eq_of_getLsbD_eq
  intro i hi
  rw [getLsbD_allOnes_shiftLeft, decide_eq_true hi, Bool.true_and]
  rcases Nat.lt_or_ge i (Nat.size (~~~mask).toNat) with hsize | hsize
  · rw [h i (Nat.lt_size.mp hsize), decide_eq_false (Nat.not_le.mpr hsize)]
  · have hbit : (~~~mask).getLsbD i = false := by
      rw [← BitVec.testBit_toNat]
      apply Nat.testBit_lt_two_pow
      exact Nat.size_le.mp hsize
    rw [BitVec.getLsbD_not, decide_eq_true hi, Bool.true_and, Bool.not_eq_false'] at hbit
    rw [hbit, decide_eq_true hsize]

/-- The numbers that agree with `a` on the mask are those from `a` to `a + ~~~mask` exactly when `a`
has no bits outside of the mask and the mask is contiguous. -/
theorem forall_and_eq_and_iff :
    (∀ x : BitVec w, a.toNat ≤ x.toNat ∧ x.toNat ≤ (a + ~~~mask).toNat ↔
      x &&& mask = a &&& mask) ↔ a &&& mask = a ∧ Contiguous mask := by
  constructor
  · intro hall
    have hself : a &&& mask = a := by
      -- the number without its host bits is in the set, and not above the number
      have hmem := (hall (a &&& mask)).mpr (by rw [BitVec.and_assoc, BitVec.and_self])
      have hle : (a &&& mask).toNat ≤ a.toNat := by
        rw [BitVec.toNat_and]
        exact Nat.and_le_left
      exact BitVec.eq_of_toNat_eq (Nat.le_antisymm hle hmem.1)
    refine ⟨hself, contiguous_of_forall fun i hi => ?_⟩
    exact not_mem_mask_of_le hself (fun x hlow hup => (hall x).mp ⟨hlow, hup⟩) hi
  · intro h x
    exact (and_eq_and_iff_of_contiguous h.1 h.2).symm

end RulesAnalyzer.Shared
