import RulesAnalyzer.PrintedAddress

/-!
# The size of a range in machine integers

`RangeImpl` computes with the unsigned integers of the library and of the
compiler: 16 bits, which are promoted to 32 bits before each operation, 32 bits,
and 128 bits in two halves.  The distance of the bounds fits, the distance plus
one may not.

## Main definitions

* `Uint128` — the integers of 128 bits, with the operators of the library.
* `UnsignedInteger` — what `RangeImpl` needs of its integers.
* `RangeImpl.isPowerOf2` — the test, on machine integers.

## Main results

* `RangeImpl.isPowerOf2_eq` — the test on machine integers is the test on numbers.
* `rangeImpl_isPowerOf2_iff` — **the test finds the sizes that are powers of two**, at every
  width.
-/

namespace RulesAnalyzer

/-! ### Integers of 128 bits -/

/-- An integer of 128 bits, in two halves. -/
structure Uint128 where
  upper : BitVec 64
  lower : BitVec 64
  deriving DecidableEq

namespace Uint128

/-- `operator&`. -/
def and (a b : Uint128) : Uint128 := ⟨a.upper &&& b.upper, a.lower &&& b.lower⟩

/-- `operator+`: the sum of the lower halves is smaller than one of them when there is a carry. -/
def add (a b : Uint128) : Uint128 :=
  ⟨a.upper + b.upper + (if a.lower + b.lower < a.lower then 1 else 0), a.lower + b.lower⟩

/-- `operator-`: the difference of the lower halves is larger when there is a borrow. -/
def sub (a b : Uint128) : Uint128 :=
  ⟨a.upper - b.upper - (if a.lower - b.lower > a.lower then 1 else 0), a.lower - b.lower⟩

/-- `operator==`. -/
def equ (a b : Uint128) : Bool := a.upper == b.upper && a.lower == b.lower

/-- The number. -/
def toNat (a : Uint128) : ℕ := a.upper.toNat * 2 ^ 64 + a.lower.toNat

/-- The integer of a number. -/
def ofNat (n : ℕ) : Uint128 := ⟨BitVec.ofNat 64 (n / 2 ^ 64), BitVec.ofNat 64 n⟩

theorem equ_iff {a b : Uint128} : a.equ b = true ↔ a = b := by
  rw [equ, Bool.and_eq_true, beq_iff_eq, beq_iff_eq, Uint128.mk.injEq]

theorem toNat_lt (a : Uint128) : a.toNat < 2 ^ 128 := by
  have hupper := a.upper.isLt
  have hlower := a.lower.isLt
  unfold toNat
  omega

theorem toNat_ofNat {n : ℕ} (h : n < 2 ^ 128) : (ofNat n).toNat = n := by
  simp only [toNat, ofNat, BitVec.toNat_ofNat]
  omega

theorem toNat_inj {a b : Uint128} : a.toNat = b.toNat ↔ a = b := by
  constructor
  · intro h
    have ha := a.lower.isLt
    have hb := b.lower.isLt
    unfold toNat at h
    obtain ⟨upper, lower⟩ := a
    obtain ⟨upper', lower'⟩ := b
    simp only at h ha hb
    have hupper : upper = upper' := BitVec.eq_of_toNat_eq (by omega)
    have hlower : lower = lower' := BitVec.eq_of_toNat_eq (by omega)
    rw [hupper, hlower]
  · exact congrArg toNat

theorem toNat_add {a b : Uint128} (h : a.toNat + b.toNat < 2 ^ 128) :
    (a.add b).toNat = a.toNat + b.toNat := by
  have hupper := a.upper.isLt
  have hlower := a.lower.isLt
  have hupper' := b.upper.isLt
  have hlower' := b.lower.isLt
  unfold toNat at h
  simp only [toNat, add, BitVec.lt_def, BitVec.toNat_add, apply_ite BitVec.toNat,
    BitVec.reduceToNat]
  split <;> omega

theorem toNat_sub {a b : Uint128} (h : b.toNat ≤ a.toNat) :
    (a.sub b).toNat = a.toNat - b.toNat := by
  have hupper := a.upper.isLt
  have hlower := a.lower.isLt
  have hupper' := b.upper.isLt
  have hlower' := b.lower.isLt
  unfold toNat at h
  simp only [toNat, sub, gt_iff_lt, BitVec.lt_def, BitVec.toNat_sub, apply_ite BitVec.toNat,
    BitVec.reduceToNat]
  split <;> omega

theorem toNat_eq_append (a : Uint128) : a.toNat = (a.upper ++ a.lower).toNat := by
  rw [BitVec.toNat_append, ← Nat.shiftLeft_add_eq_or_of_lt a.lower.isLt, Nat.shiftLeft_eq]
  rfl

theorem toNat_and (a b : Uint128) : (a.and b).toNat = a.toNat &&& b.toNat := by
  rw [toNat_eq_append, toNat_eq_append a, toNat_eq_append b, ← BitVec.toNat_and,
    BitVec.and_append]
  rfl

end Uint128

/-! ### The integers a range computes with -/

/-- The integers of the bounds, and those that the operators compute with. -/
class UnsignedInteger (T : Type) where
  Wide : Type
  promote : T → Wide
  narrow : Wide → T
  zero : T
  one : T
  max : T
  sub : Wide → Wide → Wide
  add : Wide → Wide → Wide
  and : Wide → Wide → Wide
  equ : Wide → Wide → Bool

/-- `uint16_t` is promoted to `int`, which has 32 bits. -/
instance : UnsignedInteger (BitVec 16) where
  Wide := BitVec 32
  promote := BitVec.setWidth 32
  narrow := BitVec.setWidth 16
  zero := 0
  one := 1
  max := BitVec.allOnes 16
  sub a b := a - b
  add a b := a + b
  and a b := a &&& b
  equ a b := a == b

/-- `uint32_t` is not promoted. -/
instance : UnsignedInteger (BitVec 32) where
  Wide := BitVec 32
  promote := id
  narrow := id
  zero := 0
  one := 1
  max := BitVec.allOnes 32
  sub a b := a - b
  add a b := a + b
  and a b := a &&& b
  equ a b := a == b

instance : UnsignedInteger Uint128 where
  Wide := Uint128
  promote := id
  narrow := id
  zero := ⟨0, 0⟩
  one := ⟨0, 1⟩
  max := ⟨BitVec.allOnes 64, BitVec.allOnes 64⟩
  sub := Uint128.sub
  add := Uint128.add
  and := Uint128.and
  equ := Uint128.equ

namespace RangeImpl

open UnsignedInteger

/-- `is_power_of_2`: one is not added to the largest distance. -/
def isPowerOf2 {T : Type} [UnsignedInteger T] (lbound ubound : T) : Bool :=
  let diff : T := narrow (sub (promote ubound) (promote lbound))
  if equ (promote diff) (promote zero) then true
  else if equ (promote diff) (promote max) then true
  else equ (UnsignedInteger.and (add (promote diff) (promote one)) (promote diff)) (promote zero)

end RangeImpl

/-- What the operators do to the numbers below `2 ^ nbits`. -/
class LawfulUnsigned (T : Type) (nbits : outParam ℕ) extends UnsignedInteger T where
  toNat : T → ℕ
  toNat_lt : ∀ a, toNat a < 2 ^ nbits
  equ_iff : ∀ a b, equ (promote a) (promote b) = true ↔ toNat a = toNat b
  toNat_zero : toNat zero = 0
  toNat_max : toNat max = 2 ^ nbits - 1
  toNat_diff : ∀ a b, toNat b ≤ toNat a →
    toNat (narrow (sub (promote a) (promote b))) = toNat a - toNat b
  and_succ_iff : ∀ a, toNat a + 1 < 2 ^ nbits →
    (equ (and (add (promote a) (promote one)) (promote a)) (promote zero) = true ↔
      (toNat a + 1) &&& toNat a = 0)

instance : LawfulUnsigned (BitVec 16) 16 where
  toNat := BitVec.toNat
  toNat_lt a := a.isLt
  equ_iff a b := by
    refine beq_iff_eq.trans ?_
    show a.setWidth 32 = b.setWidth 32 ↔ a.toNat = b.toNat
    rw [← BitVec.toNat_inj, BitVec.toNat_setWidth_of_le (by decide),
      BitVec.toNat_setWidth_of_le (by decide)]
  toNat_zero := rfl
  toNat_max := rfl
  toNat_diff a b h := by
    show (BitVec.setWidth 16 (a.setWidth 32 - b.setWidth 32)).toNat = a.toNat - b.toNat
    bv_omega
  and_succ_iff a h := by
    refine beq_iff_eq.trans ?_
    have hsucc : (a.setWidth 32 + 1).toNat = a.toNat + 1 := by bv_omega
    show (a.setWidth 32 + 1) &&& a.setWidth 32 = 0 ↔ (a.toNat + 1) &&& a.toNat = 0
    rw [← BitVec.toNat_inj, BitVec.toNat_and, hsucc, BitVec.toNat_setWidth_of_le (by decide)]
    rfl

instance : LawfulUnsigned (BitVec 32) 32 where
  toNat := BitVec.toNat
  toNat_lt a := a.isLt
  equ_iff a b := by
    refine beq_iff_eq.trans ?_
    exact BitVec.toNat_inj.symm
  toNat_zero := rfl
  toNat_max := rfl
  toNat_diff a b h := BitVec.toNat_sub_of_le h
  and_succ_iff a h := by
    refine beq_iff_eq.trans ?_
    have hsucc : (a + 1).toNat = a.toNat + 1 := by bv_omega
    show (a + 1) &&& a = 0 ↔ (a.toNat + 1) &&& a.toNat = 0
    rw [← BitVec.toNat_inj, BitVec.toNat_and, hsucc]
    rfl

instance : LawfulUnsigned Uint128 128 where
  toNat := Uint128.toNat
  toNat_lt := Uint128.toNat_lt
  equ_iff a b := Uint128.equ_iff.trans Uint128.toNat_inj.symm
  toNat_zero := rfl
  toNat_max := rfl
  toNat_diff a b h := Uint128.toNat_sub h
  and_succ_iff a h := by
    have hsucc : (a.add ⟨0, 1⟩).toNat = a.toNat + 1 := Uint128.toNat_add h
    refine Uint128.equ_iff.trans ?_
    show (a.add ⟨0, 1⟩).and a = ⟨0, 0⟩ ↔ (a.toNat + 1) &&& a.toNat = 0
    rw [← Uint128.toNat_inj, Uint128.toNat_and, hsucc]
    rfl

/-! ### The test -/

namespace RangeImpl

open LawfulUnsigned

variable {T : Type} {nbits : ℕ} [LawfulUnsigned T nbits] {lbound ubound : T}

/-- The bounds as a range of numbers. -/
def range (h : toNat lbound ≤ toNat ubound) : Range nbits :=
  ⟨toNat lbound, toNat ubound, h, toNat_lt ubound⟩

/-- **The test on machine integers is the test on numbers.** -/
theorem isPowerOf2_eq (h : toNat lbound ≤ toNat ubound) :
    isPowerOf2 lbound ubound = (range h).isPowerOf2 := by
  have hdiff := toNat_diff ubound lbound h
  have hlt := @toNat_lt T nbits _ ubound
  unfold isPowerOf2 Range.isPowerOf2
  simp only [equ_iff, toNat_zero, toNat_max, hdiff]
  show _ = if toNat ubound - toNat lbound = 0 then true
    else if toNat ubound - toNat lbound = 2 ^ nbits - 1 then true
    else (toNat ubound - toNat lbound + 1) &&& (toNat ubound - toNat lbound) == 0
  split
  · rfl
  split
  · rfl
  · next hmax =>
    rw [Bool.eq_iff_iff, and_succ_iff _ (by omega), hdiff, beq_iff_eq]

/-- The test finds the sizes that are powers of two. -/
theorem isPowerOf2_iff_two_pow (h : toNat lbound ≤ toNat ubound) :
    isPowerOf2 lbound ubound = true ↔ ∃ k, toNat ubound - toNat lbound + 1 = 2 ^ k := by
  rw [isPowerOf2_eq h, isPowerOf2_iff]
  constructor
  · intro hpow
    obtain ⟨k, -, hk⟩ := hpow
    exact ⟨k, hk⟩
  · intro hpow
    obtain ⟨k, hk⟩ := hpow
    refine ⟨k, ?_, hk⟩
    have hlt := @toNat_lt T nbits _ ubound
    have hle : 2 ^ k ≤ 2 ^ nbits := by
      rw [← hk]
      omega
    exact (Nat.pow_le_pow_iff_right (by decide)).mp hle

end RangeImpl

/-- **At every width the test finds the sizes that are powers of two**, the whole range
included: 16, 32 and 128 bits. -/
theorem rangeImpl_isPowerOf2_iff :
    (∀ lbound ubound : BitVec 16, lbound.toNat ≤ ubound.toNat →
      (RangeImpl.isPowerOf2 lbound ubound = true ↔
        ∃ k, ubound.toNat - lbound.toNat + 1 = 2 ^ k)) ∧
    (∀ lbound ubound : BitVec 32, lbound.toNat ≤ ubound.toNat →
      (RangeImpl.isPowerOf2 lbound ubound = true ↔
        ∃ k, ubound.toNat - lbound.toNat + 1 = 2 ^ k)) ∧
    ∀ lbound ubound : Uint128, lbound.toNat ≤ ubound.toNat →
      (RangeImpl.isPowerOf2 lbound ubound = true ↔
        ∃ k, ubound.toNat - lbound.toNat + 1 = 2 ^ k) :=
  ⟨fun _ _ h => RangeImpl.isPowerOf2_iff_two_pow h,
    fun _ _ h => RangeImpl.isPowerOf2_iff_two_pow h,
    fun _ _ h => RangeImpl.isPowerOf2_iff_two_pow h⟩

theorem rangeImpl_isPowerOf2_witness :
    (RangeImpl.isPowerOf2 (0 : BitVec 16) 65535 = true ↔ ∃ k, 65535 - 0 + 1 = 2 ^ k) ∧
      (RangeImpl.isPowerOf2 (1 : BitVec 32) 3 = true ↔ ∃ k, 3 - 1 + 1 = 2 ^ k) ∧
      (RangeImpl.isPowerOf2 (⟨0, 0⟩ : Uint128) ⟨BitVec.allOnes 64, BitVec.allOnes 64⟩ = true ↔
        ∃ k, 2 ^ 128 - 1 - 0 + 1 = 2 ^ k) :=
  ⟨rangeImpl_isPowerOf2_iff.1 0 65535 (by decide), rangeImpl_isPowerOf2_iff.2.1 1 3 (by decide),
    rangeImpl_isPowerOf2_iff.2.2 _ _ (by decide)⟩

end RulesAnalyzer
