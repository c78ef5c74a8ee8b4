import RulesAnalyzer.Buddy.Kernel
import Mathlib.Data.Nat.Bitwise
import Mathlib.FieldTheory.Finite.Basic
import Mathlib.NumberTheory.Bertrand

/-!
# The search for prime numbers

The sizes of the tables are prime numbers.  A number is tested by a few small
divisors and by Miller's and Rabin's test with random bases; the search goes over
the odd numbers.  Where the compiler has no 64 bit integers that the package knows,
products are computed in two halves, and reduced bit by bit.

The test may accept a number that is not prime, but never rejects one that is, so
the search ends at the next prime number at the latest.

## Main definitions

* `u64Mul`, `u64Mod` — 64 bit arithmetic on halves.
* `isWitness`, `isPrime` — the test.
* `bddPrimeGte`, `bddPrimeLte` — the search.
* `Environment.exact` — the environment in which the tests are right.

## Main results

* `toNat_u64Mul`, `toNat_u64Mod` — **the halves compute the same as 64 bit integers.**
* `isWitness_eq_false` — **no base is a witness against a prime number.**
* `bddPrimeGte_bound`, `bddPrimeLte_bound` — the search ends and skips no prime number.
-/

namespace RulesAnalyzer.Buddy

/-! ### 64 bit arithmetic -/

/-- A number in two halves. -/
structure U64 where
  hi : UInt32
  lo : UInt32
  deriving DecidableEq, Repr

/-- The number that the halves stand for. -/
def U64.toNat (a : U64) : ℕ := a.hi.toNat * 2 ^ 32 + a.lo.toNat

/-- The top bit, as the lowest one. -/
def topBit (a : UInt32) : UInt32 := if a &&& 0x80000000 = 0 then 0 else 1

/-- The carry of a sum: a sum that wrapped is smaller than the larger of its parts. -/
def getCarry (a b : UInt32) : UInt32 := if a + b < if a > b then a else b then 1 else 0

/-- The loop of `u64_mul`, with the rounds that are left. -/
def u64MulLoop : ℕ → UInt32 → UInt32 → UInt32 → U64 → U64
  | 0, _, _, _, res => res
  | n + 1, x, yh, yl, res =>
    u64MulLoop n (x >>> 1) (yh <<< 1 ||| topBit yl) (yl <<< 1)
      (if x &&& 1 ≠ 0 then ⟨res.hi + (yh + getCarry res.lo yl), res.lo + yl⟩ else res)

/-- The product of two words, bit by bit: `y` is shifted once a round, and added when the lowest bit
of what is left of `x` is set. -/
def u64Mul (x y : UInt32) : U64 := u64MulLoop 32 x 0 y ⟨0, 0⟩

/-- Shifts a number and a remainder behind it. -/
def u64Shl (a : U64) (carryOut : UInt32) : U64 × UInt32 :=
  (⟨a.hi <<< 1 ||| topBit a.lo, a.lo <<< 1⟩, carryOut <<< 1 ||| topBit a.hi)

/-- The loop of `u64_mod`. -/
def u64ModLoop (divisor : UInt32) : ℕ → U64 × UInt32 → U64 × UInt32
  | 0, state => state
  | n + 1, (dividend, remainder) =>
    u64ModLoop divisor n
      (u64Shl dividend (if divisor ≤ remainder then remainder - divisor else remainder))

/-- The remainder of a division, bit by bit.  The last round shifts once too often, so the result is
shifted back; the divisor must leave room for that. -/
def u64Mod (dividend : U64) (divisor : UInt32) : UInt32 :=
  (u64ModLoop divisor 64 (u64Shl dividend 0)).2 >>> 1

/-- A product modulo a number, with the 64 bit integers of the compiler, which are signed. -/
def mulmodBuiltin (a b c : UInt32) : UInt32 :=
  .ofInt (((a.toNat * b.toNat : ℤ).bmod (2 ^ 64)).tmod c.toNat)

/-- A product modulo a number, without them. -/
def mulmodHalves (a b c : UInt32) : UInt32 := u64Mod (u64Mul a b) c

/-! ### Halves -/

theorem U64.toNat_lt (a : U64) : a.toNat < 2 ^ 64 := by
  have hhi := a.hi.toNat_lt
  have hlo := a.lo.toNat_lt
  rw [U64.toNat]
  omega

theorem toNat_topBit (a : UInt32) : (topBit a).toNat = a.toNat / 2 ^ 31 := by
  have hlt := a.toNat_lt
  have hand : (a &&& 0x80000000).toNat = (a.toNat.testBit 31).toNat * 2 ^ 31 := by
    rw [UInt32.toNat_and]
    exact Nat.and_two_pow a.toNat 31
  have hiff : a &&& 0x80000000 = 0 ↔ a.toNat / 2 ^ 31 = 0 := by
    rw [← UInt32.toNat_inj, hand, Nat.testBit_eq_decide_div_mod_eq]
    simp
    omega
  rw [topBit, if_congr hiff rfl rfl]
  split
  · next h => exact h.symm
  · change 1 = _
    omega

/-- A shift by one that takes a bit in. -/
theorem toNat_shift_or (a b : UInt32) (hb : b.toNat < 2) :
    (a <<< 1 ||| b).toNat = (2 * a.toNat + b.toNat) % 2 ^ 32 := by
  have hlt := a.toNat_lt
  have hshift : (a <<< 1).toNat = 2 * (a.toNat % 2 ^ 31) := by
    rw [UInt32.toNat_shiftLeft, show (1 : UInt32).toNat % 32 = 1 from rfl, Nat.shiftLeft_eq]
    omega
  rw [UInt32.toNat_or, hshift, ← pow_one 2, ← Nat.two_pow_add_eq_or_of_lt (by omega)]
  omega

theorem toNat_getCarry (a b : UInt32) : (getCarry a b).toNat = (a.toNat + b.toNat) / 2 ^ 32 := by
  have ha := a.toNat_lt
  have hb := b.toNat_lt
  have hiff : a + b < (if a > b then a else b) ↔ 2 ^ 32 ≤ a.toNat + b.toNat := by
    rw [UInt32.lt_iff_toNat_lt, UInt32.toNat_add]
    split
    · next h =>
      have h := UInt32.lt_iff_toNat_lt.mp h
      omega
    · next h =>
      have h := mt UInt32.lt_iff_toNat_lt.mpr h
      omega
  rw [getCarry, if_congr hiff rfl rfl]
  split
  · rw [show (1 : UInt32).toNat = 1 from rfl]
    omega
  · rw [show (0 : UInt32).toNat = 0 from rfl]
    omega

/-- A round of the addition of `y` to the result, in halves. -/
theorem toNat_add_halves (res : U64) (yh yl : UInt32) :
    U64.toNat ⟨res.hi + (yh + getCarry res.lo yl), res.lo + yl⟩ =
      (res.toNat + U64.toNat ⟨yh, yl⟩) % 2 ^ 64 := by
  have h₁ := res.hi.toNat_lt
  have h₂ := res.lo.toNat_lt
  have h₃ := yh.toNat_lt
  have h₄ := yl.toNat_lt
  simp only [U64.toNat, UInt32.toNat_add, toNat_getCarry]
  omega

theorem toNat_double (yh yl : UInt32) :
    U64.toNat ⟨yh <<< 1 ||| topBit yl, yl <<< 1⟩ = 2 * U64.toNat ⟨yh, yl⟩ % 2 ^ 64 := by
  have h₁ := yh.toNat_lt
  have h₂ := yl.toNat_lt
  have hzero : yl <<< 1 = yl <<< 1 ||| 0 := by
    rw [← UInt32.toNat_inj, UInt32.toNat_or]
    exact (Nat.or_zero _).symm
  have htop := toNat_topBit yl
  simp only [U64.toNat]
  rw [toNat_shift_or _ _ (by omega), htop, hzero, toNat_shift_or _ _ (by decide)]
  change _ * 2 ^ 32 + (2 * yl.toNat + 0) % 2 ^ 32 = _
  omega

/-- The loop adds the other factor for each bit that is set and doubles it from bit to bit; what
does not fit into 64 bits is lost. -/
theorem u64MulLoop_spec (n : ℕ) {x yh yl : UInt32} {res : U64} (hx : x.toNat < 2 ^ n) :
    (u64MulLoop n x yh yl res).toNat = (res.toNat + x.toNat * U64.toNat ⟨yh, yl⟩) % 2 ^ 64 := by
  induction n generalizing x yh yl res with
  | zero =>
    rw [u64MulLoop, show x.toNat = 0 by omega, zero_mul, add_zero,
      Nat.mod_eq_of_lt res.toNat_lt]
  | succ n ih =>
    have hhalf : (x >>> 1).toNat = x.toNat / 2 := by
      rw [UInt32.toNat_shiftRight, show (1 : UInt32).toNat % 32 = 1 from rfl,
        Nat.shiftRight_eq_div_pow, pow_one]
    have hbit : x &&& 1 ≠ 0 ↔ x.toNat % 2 = 1 := by
      rw [ne_eq, ← UInt32.toNat_inj, UInt32.toNat_and, show (1 : UInt32).toNat = 1 from rfl,
        Nat.and_one_is_mod]
      change ¬_ = 0 ↔ _
      omega
    have hlt : (x >>> 1).toNat < 2 ^ n := by
      rw [pow_succ] at hx
      omega
    rw [u64MulLoop, ih hlt, hhalf, toNat_double]
    generalize hy : U64.toNat ⟨yh, yl⟩ = y
    -- the factor is its half, doubled, and its lowest bit
    have hmul : x.toNat / 2 * (2 * y) + x.toNat % 2 * y = x.toNat * y := by
      conv_rhs => rw [← Nat.div_add_mod x.toNat 2]
      ring
    rw [← hmul]
    split
    · next hone =>
      rw [toNat_add_halves, hy, hbit.mp hone, one_mul, add_left_comm, add_comm (_ * _)]
      exact (Nat.mod_modEq _ _).add ((Nat.mod_modEq _ _).mul_left _)
    · next hzero =>
      have hzero : x.toNat % 2 = 0 := by
        have := mt hbit.mpr hzero
        omega
      rw [hzero, zero_mul, add_zero]
      exact ((Nat.mod_modEq _ _).mul_left _).add_left _

/-- **The product in halves is the product.** -/
theorem toNat_u64Mul (x y : UInt32) : (u64Mul x y).toNat = x.toNat * y.toNat := by
  have hx := x.toNat_lt
  have hy := y.toNat_lt
  have hzero : U64.toNat ⟨0, 0⟩ = 0 := rfl
  have hvalue : U64.toNat ⟨0, y⟩ = y.toNat := by simp [U64.toNat]
  rw [u64Mul, u64MulLoop_spec 32 hx, hzero, hvalue, zero_add, Nat.mod_eq_of_lt]
  have hlt := Nat.mul_lt_mul'' hx hy
  rwa [← pow_add] at hlt

/-! ### Remainders -/

/-- A number behind a remainder. -/
def U64.behind (a : U64) (remainder : UInt32) : ℕ := remainder.toNat * 2 ^ 64 + a.toNat

theorem behind_u64Shl (a : U64) {r : UInt32} (hr : r.toNat < 2 ^ 31) :
    (u64Shl a r).1.behind (u64Shl a r).2 = 2 * a.behind r ∧
      (u64Shl a r).1.toNat = 2 * a.toNat % 2 ^ 64 := by
  have hhi := a.hi.toNat_lt
  have hlo := a.lo.toNat_lt
  have hshl : (u64Shl a r).1.toNat = 2 * a.toNat % 2 ^ 64 := by
    rw [u64Shl, toNat_double]
  refine ⟨?_, hshl⟩
  rw [U64.behind, hshl, u64Shl, toNat_shift_or _ _ (by rw [toNat_topBit]; omega), toNat_topBit,
    U64.behind, U64.toNat]
  omega

/-- The loop keeps twice the remainder of what it has seen.  A round subtracts the divisor if it
fits and then shifts, so the upper part stays below twice the divisor. -/
theorem u64ModLoop_spec {divisor : UInt32} (hpos : 0 < divisor.toNat)
    (hdivisor : divisor.toNat ≤ 2 ^ 31) (n : ℕ) {s : U64 × UInt32}
    (hs : s.2.toNat < 2 * divisor.toNat) :
    (u64ModLoop divisor n s).2.toNat < 2 * divisor.toNat ∧
      (u64ModLoop divisor n s).1.toNat = s.1.toNat * 2 ^ n % 2 ^ 64 ∧
      (u64ModLoop divisor n s).1.behind (u64ModLoop divisor n s).2 ≡ s.1.behind s.2 * 2 ^ n
        [MOD 2 * divisor.toNat * 2 ^ 64] := by
  induction n generalizing s with
  | zero =>
    refine ⟨hs, ?_, ?_⟩
    · rw [pow_zero, mul_one, Nat.mod_eq_of_lt s.1.toNat_lt, u64ModLoop]
    · rw [pow_zero, mul_one]
      exact Nat.ModEq.refl _
  | succ n ih =>
    obtain ⟨a, r⟩ := s
    have hs : r.toNat < 2 * divisor.toNat := hs
    -- one round: the divisor is subtracted if it fits, then everything is shifted
    set r' := if divisor ≤ r then r - divisor else r with hr'
    have hreduce : r'.toNat < divisor.toNat ∧ ∃ c, r.toNat = r'.toNat + c * divisor.toNat := by
      rw [hr']
      split
      · next hle =>
        have hle' := UInt32.le_iff_toNat_le.mp hle
        rw [UInt32.toNat_sub_of_le _ _ hle]
        exact ⟨by omega, 1, by omega⟩
      · next hlt =>
        have hlt := mt UInt32.le_iff_toNat_le.mpr hlt
        exact ⟨by omega, 0, by omega⟩
    obtain ⟨hlt, c, hc⟩ := hreduce
    obtain ⟨hbehind, hshl⟩ := behind_u64Shl a (r := r') (by omega)
    have hnext : (u64Shl a r').2.toNat < 2 * divisor.toNat := by
      have hhi := a.hi.toNat_lt
      rw [u64Shl, toNat_shift_or _ _ (by rw [toNat_topBit]; omega), toNat_topBit]
      omega
    obtain ⟨h₁, h₂, h₃⟩ := ih hnext
    rw [u64ModLoop, ← hr']
    refine ⟨h₁, ?_, h₃.trans ?_⟩
    · rw [h₂, hshl, Nat.mod_mul_mod, pow_succ' 2 n, mul_comm 2 a.toNat, mul_assoc]
    · -- what is subtracted is a multiple of the modulus
      have hdouble : 2 * a.behind r = 2 * a.behind r' + 2 * divisor.toNat * 2 ^ 64 * c := by
        rw [U64.behind, U64.behind, hc]
        ring
      have hdouble : 2 * a.behind r' ≡ 2 * a.behind r [MOD 2 * divisor.toNat * 2 ^ 64] := by
        rw [hdouble]
        exact (Nat.add_mul_mod_self_left _ _ _).symm
      rw [hbehind, pow_succ' 2 n, mul_left_comm, ← mul_assoc]
      exact hdouble.mul_right _

/-- **The remainder in halves is the remainder.** -/
theorem toNat_u64Mod (a : U64) {divisor : UInt32} (hpos : 0 < divisor.toNat)
    (hdivisor : divisor.toNat ≤ 2 ^ 31) :
    (u64Mod a divisor).toNat = a.toNat % divisor.toNat := by
  obtain ⟨hbehind, hshl⟩ := behind_u64Shl a (r := 0) (by decide)
  have hstart : (u64Shl a 0).2.toNat < 2 * divisor.toNat := by
    have hhi := a.hi.toNat_lt
    rw [u64Shl, toNat_shift_or _ _ (by rw [toNat_topBit]; omega), toNat_topBit]
    change (0 + _) % _ < _
    omega
  obtain ⟨h₁, h₂, h₃⟩ := u64ModLoop_spec hpos hdivisor 64 hstart
  rw [u64Mod]
  generalize u64ModLoop divisor 64 (u64Shl a 0) = s at h₁ h₂ h₃ ⊢
  -- all bits were shifted out
  have hzero : s.1.toNat = 0 := by
    rw [h₂]
    exact Nat.mul_mod_left _ _
  have hnothing : a.behind 0 = a.toNat := by simp [U64.behind]
  rw [hbehind, hnothing, U64.behind, hzero, add_zero] at h₃
  have hmod : s.2.toNat ≡ 2 * a.toNat [MOD 2 * divisor.toNat] :=
    Nat.ModEq.mul_right_cancel' (by norm_num) h₃
  have htwice : s.2.toNat = 2 * (a.toNat % divisor.toNat) := by
    rw [← Nat.mul_mod_mul_left, ← hmod, Nat.mod_eq_of_lt h₁]
  rw [UInt32.toNat_shiftRight, htwice, show (1 : UInt32).toNat % 32 = 1 from rfl,
    Nat.shiftRight_eq_div_pow, pow_one]
  omega

/-- The product of factors that fits is a number without a sign. -/
theorem toNat_mulmodBuiltin {a b c : UInt32} (hfits : a.toNat * b.toNat < 2 ^ 63)
    (hpos : 0 < c.toNat) : (mulmodBuiltin a b c).toNat = a.toNat * b.toNat % c.toNat := by
  have hproduct : (a.toNat * b.toNat : ℤ).bmod (2 ^ 64) = (a.toNat * b.toNat : ℕ) := by
    rw [← Nat.cast_mul]
    exact Int.bmod_eq_of_le (by omega) (by omega)
  have hlt : a.toNat * b.toNat % c.toNat < 2 ^ 32 :=
    (Nat.mod_lt _ hpos).trans c.toNat_lt
  have hcut : (((a.toNat * b.toNat % c.toNat : ℕ) : ℤ) % 2 ^ 32).toNat =
      a.toNat * b.toNat % c.toNat := by omega
  rw [mulmodBuiltin, hproduct, ← Int.ofNat_tmod, UInt32.ofInt, hcut,
    UInt32.toNat_ofNat_of_lt' hlt]

/-- **Both products modulo a number are the same**, up to the largest table, as long as the
product fits in a signed integer of 64 bits. -/
theorem mulmodHalves_eq {a b c : UInt32} (hfits : a.toNat * b.toNat < 2 ^ 63)
    (hpos : 0 < c.toNat) (hc : c.toNat ≤ 2 ^ 31) : mulmodHalves a b c = mulmodBuiltin a b c := by
  rw [← UInt32.toNat_inj, mulmodHalves, toNat_u64Mod _ hpos hc, toNat_u64Mul,
    toNat_mulmodBuiltin hfits hpos]

theorem mulmodHalves_eq_largest : mulmodHalves 0x7FFFFFFE 0x7FFFFFFD 0x7FFFFFFF =
    mulmodBuiltin 0x7FFFFFFE 0x7FFFFFFD 0x7FFFFFFF :=
  mulmodHalves_eq (by decide) (by decide) (by decide)

/-- A product that does not fit has a sign, and the remainder is another one. -/
example : mulmodHalves 0xFFFFFFFF 0xFFFFFFFF 0x80000000 = 1 ∧
    mulmodBuiltin 0xFFFFFFFF 0xFFFFFFFF 0x80000000 = 0x80000001 := by decide +kernel

/-! ### The test -/

/-- Whether a bit of a word is set. -/
def bitIsSet (src : UInt32) (b : ℕ) : Bool := src &&& 1 <<< UInt32.ofNat b != 0

/-- The loop of `numberOfBits`, from a bit down. -/
def highestBit (src : UInt32) : ℕ → ℕ
  | 0 => 1
  | b + 1 => if bitIsSet src (b + 1) then b + 2 else highestBit src b

/-- The place of the highest bit that is set; the rounds of the test count down from it. -/
def numberOfBits (src : UInt32) : ℕ := if src = 0 then 0 else highestBit src 31

/-- The loop of `isWitness`, with the bits that are left; `none` when a root of `1` was found. -/
def witnessLoop (mulmod : UInt32 → UInt32 → UInt32 → UInt32) (witness src : UInt32) :
    ℕ → UInt32 → Option UInt32
  | 0, d => some d
  | i + 1, d =>
    let squared := mulmod d d src
    if squared = 1 ∧ d ≠ 1 ∧ d ≠ src - 1 then none
    else witnessLoop mulmod witness src i
      (if bitIsSet (src - 1) i then mulmod squared witness src else squared)

/-- Whether a base shows that a number is not prime: its power is not 1, or the powers meet a root
of 1 that is neither 1 nor -1. -/
def isWitness (mulmod : UInt32 → UInt32 → UInt32 → UInt32) (witness src : UInt32) : Bool :=
  match witnessLoop mulmod witness src (numberOfBits (src - 1)) 1 with
  | none => true
  | some d => d != 1

/-- A base for the test, from a random number. -/
def random (rand i : UInt32) : UInt32 := rand % i + 1

/-- How many random bases are tried. -/
def checktimes : ℕ := 20

/-- The loop of `isMillerRabinPrime`, with the next random number. -/
def millerRabinLoop (mulmod : UInt32 → UInt32 → UInt32 → UInt32) (rand : ℕ → UInt32)
    (src : UInt32) : ℕ → ℕ → Bool × ℕ
  | 0, pos => (true, pos)
  | n + 1, pos =>
    if isWitness mulmod (random (rand pos) (src - 1)) src then (false, pos + 1)
    else millerRabinLoop mulmod rand src n (pos + 1)

/-- Whether a number has another number as a proper factor. -/
def hasFactor (src n : UInt32) : Bool := src != n && src % n == 0

/-- Whether a number has one of the odd primes up to 13 as a proper factor. -/
def hasEasyFactors (src : UInt32) : Bool :=
  hasFactor src 3 || hasFactor src 5 || hasFactor src 7 || hasFactor src 11 || hasFactor src 13

/-- The test: small factors first, then `checktimes` random bases.  `rand` lists the random numbers
and `pos` says how many have been used. -/
def isPrime (mulmod : UInt32 → UInt32 → UInt32 → UInt32) (rand : ℕ → UInt32) (pos : ℕ)
    (src : UInt32) : Bool × ℕ :=
  if hasEasyFactors src then (false, pos) else millerRabinLoop mulmod rand src checktimes pos

/-! ### The search -/

/-- The loop of the search, of a bounded number of rounds. -/
def primeSearch (mulmod : UInt32 → UInt32 → UInt32 → UInt32) (rand : ℕ → UInt32)
    (next : UInt32 → UInt32) : ℕ → ℕ → UInt32 → Option (UInt32 × ℕ)
  | 0, _, _ => none
  | fuel + 1, pos, src =>
    let test := isPrime mulmod rand pos src
    if test.1 then some (src, test.2) else primeSearch mulmod rand next fuel test.2 (next src)

/-- Goes up over the odd numbers, from `src` or the number behind it, to the first that passes the
test.  An even prime is gone over. -/
def bddPrimeGte (mulmod : UInt32 → UInt32 → UInt32 → UInt32) (rand : ℕ → UInt32)
    (fuel pos : ℕ) (src : UInt32) : Option (UInt32 × ℕ) :=
  primeSearch mulmod rand (· + 2) fuel pos (if src &&& 1 = 0 then src + 1 else src)

/-- Goes down over the odd numbers, from `src` or the number before it, to the first that passes the
test. -/
def bddPrimeLte (mulmod : UInt32 → UInt32 → UInt32 → UInt32) (rand : ℕ → UInt32)
    (fuel pos : ℕ) (src : UInt32) : Option (UInt32 × ℕ) :=
  primeSearch mulmod rand (· - 2) fuel pos (if src &&& 1 = 0 then src - 1 else src)

/-! ### Prime numbers pass the test -/

theorem bitIsSet_eq (src : UInt32) {b : ℕ} (hb : b < 32) :
    bitIsSet src b = src.toNat.testBit b := by
  have hshift : ((1 : UInt32) <<< UInt32.ofNat b).toNat = 2 ^ b := by
    rw [UInt32.toNat_shiftLeft, UInt32.toNat_ofNat_of_lt' (hb.trans (by norm_num)),
      Nat.mod_eq_of_lt hb, show (1 : UInt32).toNat = 1 from rfl, Nat.one_shiftLeft,
      Nat.mod_eq_of_lt (Nat.pow_lt_pow_right (by norm_num) hb)]
  have hand : (src &&& 1 <<< UInt32.ofNat b).toNat = (src.toNat.testBit b).toNat * 2 ^ b := by
    rw [UInt32.toNat_and, hshift, Nat.and_two_pow]
  rw [bitIsSet, Bool.eq_iff_iff, bne_iff_ne, ne_eq, ← UInt32.toNat_inj, hand]
  cases src.toNat.testBit b <;> simp

theorem lt_two_pow_highestBit (src : UInt32) {b : ℕ} (hb : b < 32) (h : src.toNat < 2 ^ (b + 1)) :
    src.toNat < 2 ^ highestBit src b := by
  induction b with
  | zero => exact h
  | succ b ih =>
    rw [highestBit, bitIsSet_eq src hb]
    split
    · exact h
    · next hbit =>
      refine ih (by omega) ?_
      rw [Nat.testBit_eq_decide_div_mod_eq, decide_eq_true_iff] at hbit
      have hdiv : src.toNat / 2 ^ (b + 1) < 2 := by
        rw [Nat.div_lt_iff_lt_mul (Nat.two_pow_pos _), ← pow_succ']
        exact h
      by_contra hge
      have hone : 1 ≤ src.toNat / 2 ^ (b + 1) :=
        (Nat.one_le_div_iff (Nat.two_pow_pos _)).mpr (not_lt.mp hge)
      omega

theorem highestBit_le (src : UInt32) (b : ℕ) : highestBit src b ≤ b + 1 := by
  induction b with
  | zero => exact le_rfl
  | succ b ih =>
    rw [highestBit]
    split <;> omega

/-- All bits of a number are below `numberOfBits`. -/
theorem lt_two_pow_numberOfBits (src : UInt32) :
    src.toNat < 2 ^ numberOfBits src ∧ numberOfBits src ≤ 32 := by
  rw [numberOfBits]
  split
  · next h => simp [h]
  · exact ⟨lt_two_pow_highestBit src (by omega) src.toNat_lt, highestBit_le src 31⟩

/-- A number modulo a prime number is a root of `1` only when it is `1` or `-1`. -/
theorem eq_one_or_of_mul_self {p d : ℕ} (hp : p.Prime) (hd : d < p) (h : d * d % p = 1) :
    d = 1 ∨ d = p - 1 := by
  have hfact : Fact p.Prime := ⟨hp⟩
  have hpos := hp.one_lt
  have hsquare : (d : ZMod p) * d = 1 := by
    have hcast := congrArg (Nat.cast (R := ZMod p)) h
    rwa [ZMod.natCast_mod, Nat.cast_mul, Nat.cast_one] at hcast
  rcases mul_self_eq_one_iff.mp hsquare with h | h
  · left
    rw [← Nat.cast_one, ZMod.natCast_eq_natCast_iff'] at h
    rwa [Nat.mod_eq_of_lt hd, Nat.mod_eq_of_lt hpos] at h
  · right
    have hzero : ((d + 1 : ℕ) : ZMod p) = 0 := by
      rw [Nat.cast_add, h, Nat.cast_one, neg_add_cancel]
    rw [ZMod.natCast_eq_zero_iff] at hzero
    have hle := Nat.le_of_dvd (Nat.succ_pos d) hzero
    omega

section Witness

variable {mulmod : UInt32 → UInt32 → UInt32 → UInt32} {rand : ℕ → UInt32} {src : UInt32}

/-- A product modulo numbers up to the largest table, of factors whose product fits. -/
def Multiplies (mulmod : UInt32 → UInt32 → UInt32 → UInt32) : Prop :=
  ∀ a b c : UInt32, a.toNat * b.toNat < 2 ^ 63 → 0 < c.toNat → c.toNat ≤ 2 ^ 31 →
    (mulmod a b c).toNat = a.toNat * b.toNat % c.toNat

/-- The loop computes a power of the base, and finds no root of `1`.  Modulo a prime there are
only the two roots that the source allows. -/
theorem witnessLoop_eq (hmul : Multiplies mulmod) (hsrc : src.toNat.Prime)
    (hle : src.toNat ≤ 2 ^ 31) (witness : UInt32) {n : ℕ} (hn : n ≤ 32) {d : UInt32}
    (hd : d.toNat = witness.toNat ^ ((src.toNat - 1) / 2 ^ n) % src.toNat) :
    ∃ res, witnessLoop mulmod witness src n d = some res ∧
      res.toNat = witness.toNat ^ (src.toNat - 1) % src.toNat := by
  have hpos := hsrc.pos
  have hpred : (src - 1).toNat = src.toNat - 1 :=
    UInt32.toNat_sub_of_le _ _ (UInt32.le_iff_toNat_le.mpr hpos)
  induction n generalizing d with
  | zero =>
    rw [pow_zero, Nat.div_one] at hd
    exact ⟨d, rfl, hd⟩
  | succ n ih =>
    -- a reduced factor and any other one have a product that fits
    have hfits {a b : UInt32} (ha : a.toNat < src.toNat) : a.toNat * b.toNat < 2 ^ 63 :=
      (Nat.mul_lt_mul'' (ha.trans_le hle) b.toNat_lt).trans_le (by norm_num)
    have hlt : d.toNat < src.toNat := hd ▸ Nat.mod_lt _ hpos
    have hsquare := hmul d d src (hfits hlt) hpos hle
    have hsquared : (mulmod d d src).toNat =
        witness.toNat ^ ((src.toNat - 1) / 2 ^ (n + 1) * 2) % src.toNat := by
      rw [hsquare, hd, ← Nat.mul_mod, ← pow_two, ← pow_mul]
    have hroot : ¬(mulmod d d src = 1 ∧ d ≠ 1 ∧ d ≠ src - 1) := by
      rintro ⟨hone, hne, hne'⟩
      have hone := congrArg UInt32.toNat hone
      rw [hsquare] at hone
      rcases eq_one_or_of_mul_self hsrc hlt hone with h | h
      · exact hne (UInt32.toNat_inj.mp h)
      · exact hne' (UInt32.toNat_inj.mp (h.trans hpred.symm))
    rw [witnessLoop, if_neg hroot]
    refine ih (by omega) ?_
    -- the next bit of the exponent
    have hdiv : (src.toNat - 1) / 2 ^ n =
        (src.toNat - 1) / 2 ^ (n + 1) * 2 + (src.toNat - 1) / 2 ^ n % 2 := by
      rw [pow_succ, ← Nat.div_div_eq_div_mul, Nat.div_add_mod']
    rw [bitIsSet_eq _ (by omega), hpred, Nat.testBit_eq_decide_div_mod_eq, hdiv]
    rcases Nat.mod_two_eq_zero_or_one ((src.toNat - 1) / 2 ^ n) with hbit | hbit
    · rw [if_neg (by simp [hbit]), hbit, add_zero, hsquared]
    · have hnext := hmul (mulmod d d src) witness src
        (hfits (hsquared ▸ Nat.mod_lt _ hpos)) hpos hle
      rw [if_pos (by simp [hbit]), hbit, pow_succ, hnext, hsquared, Nat.mod_mul_mod]

/-- **No base is a witness against a prime number.** -/
theorem isWitness_eq_false (hmul : Multiplies mulmod) (hsrc : src.toNat.Prime)
    (hle : src.toNat ≤ 2 ^ 31) {witness : UInt32} (hpos : 0 < witness.toNat)
    (hlt : witness.toNat < src.toNat) : isWitness mulmod witness src = false := by
  have hfact : Fact src.toNat.Prime := ⟨hsrc⟩
  have hpred : (src - 1).toNat = src.toNat - 1 :=
    UInt32.toNat_sub_of_le _ _ (UInt32.le_iff_toNat_le.mpr hsrc.pos)
  obtain ⟨hbits, hn⟩ := lt_two_pow_numberOfBits (src - 1)
  have hstart : (1 : UInt32).toNat =
      witness.toNat ^ ((src.toNat - 1) / 2 ^ numberOfBits (src - 1)) % src.toNat := by
    rw [Nat.div_eq_of_lt (hpred ▸ hbits), pow_zero, Nat.mod_eq_of_lt hsrc.one_lt]
    rfl
  obtain ⟨res, hres, hpow⟩ := witnessLoop_eq hmul hsrc hle witness hn hstart
  -- Fermat's little theorem
  have hne : (witness.toNat : ZMod src.toNat) ≠ 0 := by
    rw [ne_eq, ZMod.natCast_eq_zero_iff]
    exact Nat.not_dvd_of_pos_of_lt hpos hlt
  have hone : witness.toNat ^ (src.toNat - 1) % src.toNat = 1 := by
    have hfermat : ((witness.toNat ^ (src.toNat - 1) : ℕ) : ZMod src.toNat) = (1 : ℕ) := by
      rw [Nat.cast_pow, ZMod.pow_card_sub_one_eq_one hne, Nat.cast_one]
    rwa [ZMod.natCast_eq_natCast_iff', Nat.mod_eq_of_lt hsrc.one_lt] at hfermat
  rw [isWitness, hres, show res = 1 from UInt32.toNat_inj.mp (hpow.trans hone)]
  rfl

theorem hasFactor_eq_false (hsrc : src.toNat.Prime) {n : UInt32} (hn : 1 < n.toNat) :
    hasFactor src n = false := by
  rw [hasFactor, Bool.and_eq_false_iff, or_iff_not_imp_left]
  intro hne
  have hne : src ≠ n := by simpa using hne
  rw [beq_eq_false_iff_ne, ne_eq, ← UInt32.toNat_inj, UInt32.toNat_mod]
  intro hzero
  rcases hsrc.eq_one_or_self_of_dvd _ (Nat.dvd_of_mod_eq_zero hzero) with h | h
  · omega
  · exact hne (UInt32.toNat_inj.mp h.symm)

theorem millerRabinLoop_of_prime (hmul : Multiplies mulmod) (hsrc : src.toNat.Prime)
    (hle : src.toNat ≤ 2 ^ 31) (hthree : 3 ≤ src.toNat) (n pos : ℕ) :
    millerRabinLoop mulmod rand src n pos = (true, pos + n) := by
  have hpred : (src - 1).toNat = src.toNat - 1 :=
    UInt32.toNat_sub_of_le _ _ (UInt32.le_iff_toNat_le.mpr hsrc.pos)
  induction n generalizing pos with
  | zero => rfl
  | succ n ih =>
    have hmod : (rand pos % (src - 1)).toNat < src.toNat - 1 := by
      rw [UInt32.toNat_mod, hpred]
      exact Nat.mod_lt _ (by omega)
    have hbase : (random (rand pos) (src - 1)).toNat = (rand pos % (src - 1)).toNat + 1 := by
      rw [random, UInt32.toNat_add]
      change (_ + 1) % _ = _
      omega
    rw [millerRabinLoop, isWitness_eq_false hmul hsrc hle (by omega) (by omega),
      if_neg Bool.false_ne_true, ih, Nat.add_assoc, Nat.add_comm 1]

/-- **A prime number passes the test**, with any random numbers. -/
theorem isPrime_of_prime (hmul : Multiplies mulmod) (hsrc : src.toNat.Prime)
    (hle : src.toNat ≤ 2 ^ 31) (hthree : 3 ≤ src.toNat) (pos : ℕ) :
    isPrime mulmod rand pos src = (true, pos + checktimes) := by
  have heasy : hasEasyFactors src = false := by
    have hfactor (n : UInt32) (hn : 1 < n.toNat) := hasFactor_eq_false hsrc hn
    rw [hasEasyFactors, hfactor 3 (by decide), hfactor 5 (by decide), hfactor 7 (by decide),
      hfactor 11 (by decide), hfactor 13 (by decide)]
    rfl
  rw [isPrime, heasy, if_neg Bool.false_ne_true,
    millerRabinLoop_of_prime hmul hsrc hle hthree]

/-! ### The search ends and skips no prime number -/

/-- The search upwards stops at a prime number ahead, when it did not stop before. -/
theorem primeSearch_up (hmul : Multiplies mulmod) {q : ℕ} (hq : q.Prime) (hle : q ≤ 2 ^ 31)
    (fuel pos : ℕ) {src : UInt32} (hsrc : src.toNat ≤ q) (hthree : 3 ≤ src.toNat)
    (hodd : src.toNat % 2 = q % 2) (hfuel : q - src.toNat < fuel) :
    ∃ r pos', primeSearch mulmod rand (· + 2) fuel pos src = some (r, pos') ∧
      src.toNat ≤ r.toNat ∧ r.toNat ≤ q := by
  induction fuel generalizing pos src with
  | zero => omega
  | succ fuel ih =>
    rw [primeSearch]
    split
    · exact ⟨src, _, rfl, le_rfl, hsrc⟩
    · next hreject =>
      have hne : src.toNat ≠ q := by
        intro heq
        rw [isPrime_of_prime hmul (heq ▸ hq) (heq ▸ hle) hthree] at hreject
        exact hreject rfl
      have hnext : (src + 2).toNat = src.toNat + 2 := by
        rw [UInt32.toNat_add]
        change (_ + 2) % _ = _
        omega
      obtain ⟨r, pos', hr, hge, hrq⟩ :=
        ih (isPrime mulmod rand pos src).2 (show (src + 2).toNat ≤ q by omega) (by omega) (by omega)
          (by omega)
      exact ⟨r, pos', hr, by omega, hrq⟩

theorem primeSearch_down (hmul : Multiplies mulmod) {q : ℕ} (hq : q.Prime) (hthree : 3 ≤ q)
    (fuel pos : ℕ) {src : UInt32} (hsrc : q ≤ src.toNat) (hle : src.toNat ≤ 2 ^ 31)
    (hodd : src.toNat % 2 = q % 2) (hfuel : src.toNat - q < fuel) :
    ∃ r pos', primeSearch mulmod rand (· - 2) fuel pos src = some (r, pos') ∧
      q ≤ r.toNat ∧ r.toNat ≤ src.toNat := by
  induction fuel generalizing pos src with
  | zero => omega
  | succ fuel ih =>
    rw [primeSearch]
    split
    · exact ⟨src, _, rfl, hsrc, le_rfl⟩
    · next hreject =>
      have hne : src.toNat ≠ q := by
        intro heq
        rw [isPrime_of_prime hmul (heq ▸ hq) hle (heq ▸ hthree)] at hreject
        exact hreject rfl
      have htwo : (2 : UInt32) ≤ src := UInt32.le_iff_toNat_le.mpr (by change 2 ≤ _; omega)
      have hnext : (src - 2).toNat = src.toNat - 2 := UInt32.toNat_sub_of_le _ _ htwo
      obtain ⟨r, pos', hr, hge, hrq⟩ :=
        ih (isPrime mulmod rand pos src).2 (show q ≤ (src - 2).toNat by omega) (by omega) (by omega)
          (by omega)
      exact ⟨r, pos', hr, hge, by omega⟩

theorem isEven_iff (src : UInt32) : src &&& 1 = 0 ↔ src.toNat % 2 = 0 := by
  rw [← UInt32.toNat_inj, UInt32.toNat_and, show (1 : UInt32).toNat = 1 from rfl,
    Nat.and_one_is_mod]
  rfl

variable (rand)

/-- **The search upwards** ends at a number of at most twice the size, and skips no odd prime. -/
theorem bddPrimeGte_bound (hmul : Multiplies mulmod) (pos : ℕ) {fuel : ℕ} (hfuel : src.toNat < fuel)
    (htwo : 2 ≤ src.toNat) (hle : src.toNat ≤ 2 ^ 30) :
    ∃ r pos', bddPrimeGte mulmod rand fuel pos src = some (r, pos') ∧
      src.toNat ≤ r.toNat ∧ 3 ≤ r.toNat ∧ r.toNat ≤ 2 * src.toNat ∧
      ∀ q, q.Prime → 3 ≤ q → src.toNat ≤ q → r.toNat ≤ q := by
  set start := if src &&& 1 = 0 then src + 1 else src with hstart
  have hvalue : start.toNat = src.toNat + (src.toNat + 1) % 2 := by
    rw [hstart, if_congr (isEven_iff src) rfl rfl]
    split
    · rw [UInt32.toNat_add]
      change (_ + 1) % _ = _
      omega
    · omega
  have hsearch (q : ℕ) (hq : q.Prime) (hthree : 3 ≤ q) (hge : src.toNat ≤ q)
      (hbound : q ≤ 2 * src.toNat) :
      ∃ r pos', primeSearch mulmod rand (· + 2) fuel pos start = some (r, pos') ∧
        start.toNat ≤ r.toNat ∧ r.toNat ≤ q := by
    have hodd := hq.eq_two_or_odd
    exact primeSearch_up hmul hq (by omega) fuel pos (by omega) (by omega) (by omega) (by omega)
  -- there is a prime up to twice the size, where the search ends at the latest
  obtain ⟨q, hq, hgt, hbound⟩ := Nat.exists_prime_lt_and_le_two_mul src.toNat (by omega)
  obtain ⟨r, pos', hr, hge, hrq⟩ := hsearch q hq (by omega) hgt.le hbound
  refine ⟨r, pos', hr, by omega, by omega, by omega, ?_⟩
  intro q' hq' hthree hge'
  rcases le_or_gt q' (2 * src.toNat) with hsmall | hlarge
  · obtain ⟨r', pos'', hr', -, hle'⟩ := hsearch q' hq' hthree hge' hsmall
    rw [hr, Option.some_inj, Prod.mk.injEq] at hr'
    exact hr'.1 ▸ hle'
  · omega

/-- **The search downwards** ends at `3` at the latest, and skips no prime. -/
theorem bddPrimeLte_bound (hmul : Multiplies mulmod) (pos : ℕ) {fuel : ℕ} (hfuel : src.toNat < fuel)
    (hthree : 3 ≤ src.toNat) (hle : src.toNat ≤ 2 ^ 31) :
    ∃ r pos', bddPrimeLte mulmod rand fuel pos src = some (r, pos') ∧
      r.toNat ≤ src.toNat ∧ 3 ≤ r.toNat ∧ ∀ q, q.Prime → q ≤ src.toNat → q ≤ r.toNat := by
  set start := if src &&& 1 = 0 then src - 1 else src with hstart
  have hvalue : start.toNat = src.toNat - (src.toNat + 1) % 2 := by
    rw [hstart, if_congr (isEven_iff src) rfl rfl]
    split
    · rw [UInt32.toNat_sub_of_le _ _ (UInt32.le_iff_toNat_le.mpr (by change 1 ≤ _; omega))]
      change _ - 1 = _
      omega
    · omega
  have hsearch (q : ℕ) (hq : q.Prime) (hq3 : 3 ≤ q) (hqle : q ≤ src.toNat) :
      ∃ r pos', primeSearch mulmod rand (· - 2) fuel pos start = some (r, pos') ∧
        q ≤ r.toNat ∧ r.toNat ≤ start.toNat := by
    have hodd := hq.eq_two_or_odd
    exact primeSearch_down hmul hq hq3 fuel pos (by omega) (by omega) (by omega) (by omega)
  obtain ⟨r, pos', hr, hge, hrs⟩ := hsearch 3 Nat.prime_three le_rfl hthree
  refine ⟨r, pos', hr, by omega, hge, ?_⟩
  intro q hq hqle
  rcases Nat.lt_or_ge q 3 with hsmall | hq3
  · omega
  · obtain ⟨r', pos'', hr', hle', -⟩ := hsearch q hq hq3 hqle
    rw [hr, Option.some_inj, Prod.mk.injEq] at hr'
    exact hr'.1 ▸ hle'

end Witness

/-! ### The environment in which the tests are right -/

theorem exists_prime_ge (n : ℕ) : ∃ p, p.Prime ∧ 3 ≤ p ∧ n ≤ p := by
  obtain ⟨p, hle, hp⟩ := Nat.exists_infinite_primes (max n 3)
  exact ⟨p, hp, (le_max_right _ _).trans hle, (le_max_left _ _).trans hle⟩

/-- The searches stop at prime numbers only. -/
def Environment.exact (malloc : ℕ → Bool) : Environment where
  primeGte n := Nat.find (exists_prime_ge n)
  primeLte n := Nat.findGreatest Nat.Prime n
  malloc := malloc
  prime_primeGte n _ := (Nat.find_spec (exists_prime_ge n)).1
  three_le_primeGte n _ := (Nat.find_spec (exists_prime_ge n)).2.1
  prime_primeLte _ hn := Nat.findGreatest_spec hn Nat.prime_three
  le_primeLte _ _ _ hp hpn := Nat.le_findGreatest hpn hp
  primeLte_le n _ := Nat.findGreatest_le n

section Exact

variable {mulmod : UInt32 → UInt32 → UInt32 → UInt32} {fuel : ℕ} {src : UInt32}

/-- Both products are right. -/
theorem multiplies_of_eq (hmul : mulmod = mulmodBuiltin ∨ mulmod = mulmodHalves) :
    Multiplies mulmod := by
  rcases hmul with rfl | rfl
  · exact fun a b c hfits hpos _ => toNat_mulmodBuiltin hfits hpos
  · intro a b c _ hpos hle
    rw [mulmodHalves, toNat_u64Mod _ hpos hle, toNat_u64Mul]

/-- **The search for a prime number upwards always ends**, with either product and any random
numbers, after less than `src` rounds and below twice the number; it never goes over an odd prime
number, and is exact whenever the number that it ends at is prime. -/
theorem bddPrimeGte_exact (hmul : mulmod = mulmodBuiltin ∨ mulmod = mulmodHalves)
    (rand : ℕ → UInt32) (pos : ℕ) (malloc : ℕ → Bool) (hfuel : src.toNat < fuel)
    (htwo : 2 ≤ src.toNat) (hle : src.toNat ≤ 2 ^ 30) :
    ∃ r pos', bddPrimeGte mulmod rand fuel pos src = some (r, pos') ∧
      src.toNat ≤ r.toNat ∧ r.toNat ≤ 2 * src.toNat ∧
      r.toNat ≤ (Environment.exact malloc).primeGte src.toNat ∧
      (r.toNat.Prime ↔ r.toNat = (Environment.exact malloc).primeGte src.toNat) := by
  obtain ⟨r, pos', hr, hge, hthree, hdouble, hskip⟩ :=
    bddPrimeGte_bound rand (multiplies_of_eq hmul) pos hfuel htwo hle
  obtain ⟨hprime, hthree', hge'⟩ := Nat.find_spec (exists_prime_ge src.toNat)
  have hbelow := hskip _ hprime hthree' hge'
  refine ⟨r, pos', hr, hge, hdouble, hbelow, fun hr => ?_, fun heq => ?_⟩
  · exact hbelow.antisymm (Nat.find_min' (exists_prime_ge src.toNat) ⟨hr, hthree, hge⟩)
  · rw [heq]
    exact hprime

theorem bddPrimeGte_exact_hundred :
    ∃ r pos', bddPrimeGte mulmodHalves (fun n => .ofNat (n * 7)) 101 0 100 = some (r, pos') ∧
      100 ≤ r.toNat ∧ r.toNat ≤ 2 * 100 ∧
      r.toNat ≤ (Environment.exact fun _ => true).primeGte 100 ∧
      (r.toNat.Prime ↔ r.toNat = (Environment.exact fun _ => true).primeGte 100) :=
  bddPrimeGte_exact (.inr rfl) _ 0 _ (by decide) (by decide) (by decide)

/-- **The search downwards always ends**, at `3` at the latest; it never goes over a prime
number, and is exact whenever the number that it ends at is prime. -/
theorem bddPrimeLte_exact (hmul : mulmod = mulmodBuiltin ∨ mulmod = mulmodHalves)
    (rand : ℕ → UInt32) (pos : ℕ) (malloc : ℕ → Bool) (hfuel : src.toNat < fuel)
    (hthree : 3 ≤ src.toNat) (hle : src.toNat ≤ 2 ^ 31) :
    ∃ r pos', bddPrimeLte mulmod rand fuel pos src = some (r, pos') ∧
      3 ≤ r.toNat ∧ r.toNat ≤ src.toNat ∧
      (Environment.exact malloc).primeLte src.toNat ≤ r.toNat ∧
      (r.toNat.Prime ↔ r.toNat = (Environment.exact malloc).primeLte src.toNat) := by
  obtain ⟨r, pos', hr, hrs, hr3, hskip⟩ :=
    bddPrimeLte_bound rand (multiplies_of_eq hmul) pos hfuel hthree hle
  have hprime : (Nat.findGreatest Nat.Prime src.toNat).Prime :=
    Nat.findGreatest_spec hthree Nat.prime_three
  have habove := hskip _ hprime (Nat.findGreatest_le _)
  refine ⟨r, pos', hr, hr3, hrs, habove, fun hr => ?_, fun heq => ?_⟩
  · exact (Nat.le_findGreatest hrs hr).antisymm habove
  · rw [heq]
    exact hprime

theorem bddPrimeLte_exact_hundred :
    ∃ r pos', bddPrimeLte mulmodBuiltin (fun n => .ofNat (n * 7)) 101 0 100 = some (r, pos') ∧
      3 ≤ r.toNat ∧ r.toNat ≤ 100 ∧
      (Environment.exact fun _ => true).primeLte 100 ≤ r.toNat ∧
      (r.toNat.Prime ↔ r.toNat = (Environment.exact fun _ => true).primeLte 100) :=
  bddPrimeLte_exact (.inl rfl) _ 0 _ (by decide) (by decide) (by decide)

end Exact

end RulesAnalyzer.Buddy
