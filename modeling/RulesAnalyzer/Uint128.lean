import RulesAnalyzer.RangeImpl
import Mathlib.Tactic.LinearCombination

/-!
# The library of 128 bit integers

The operators that work on two halves, the product over four 32 bit parts with its
carries, and the division bit by bit.  Each operator computes what one integer of
128 bits would compute, so the parser and the printer of IPv6 addresses may count on
ordinary arithmetic.

## Main definitions

* `Uint128.shl`, `Uint128.shr`, `Uint128.mul`, `Uint128.divmod` — the operators.
* `Uint128.ofSegments`, `Uint128.segments` — the 32 bit parts of an address in network order.
* `Uint128.decodeNetworkAddress`, `Uint128.toText` — the parser and the printer over halves.

## Main results

* `operators_exact`, `shifts_exact`, `divmod_exact` — **the operators are those of `BitVec 128`.**
* `decodeNetworkAddress_exact`, `toText_exact` — **the parser and the printer over halves are
  those over integers of 128 bits.**
-/

namespace RulesAnalyzer

namespace Uint128

/-! ### The operators -/

/-- `uint128_0`. -/
def zero : Uint128 := ⟨0, 0⟩

/-- `uint128_1`. -/
def one : Uint128 := ⟨0, 1⟩

/-- `operator|`. -/
def or (a b : Uint128) : Uint128 := ⟨a.upper ||| b.upper, a.lower ||| b.lower⟩

/-- `operator^`. -/
def xor (a b : Uint128) : Uint128 := ⟨a.upper ^^^ b.upper, a.lower ^^^ b.lower⟩

/-- `operator~`. -/
def not (a : Uint128) : Uint128 := ⟨~~~a.upper, ~~~a.lower⟩

/-- The unary `operator-`. -/
def neg (a : Uint128) : Uint128 := a.not.add one

/-- `operator<<`. -/
def shl (a b : Uint128) : Uint128 :=
  let shift := b.lower
  if b.upper ≠ 0 ∨ shift ≥ 128 then zero
  else if shift = 64 then ⟨a.lower, 0⟩
  else if shift = 0 then a
  else if shift < 64 then ⟨(a.upper <<< shift) + (a.lower >>> (64 - shift)), a.lower <<< shift⟩
  else if 128 > shift ∧ shift > 64 then ⟨a.lower <<< (shift - 64), 0⟩
  else zero

/-- `operator>>`. -/
def shr (a b : Uint128) : Uint128 :=
  let shift := b.lower
  if b.upper ≠ 0 ∨ shift ≥ 128 then zero
  else if shift = 64 then ⟨0, a.upper⟩
  else if shift = 0 then a
  else if shift < 64 then ⟨a.upper >>> shift, (a.upper <<< (64 - shift)) + (a.lower >>> shift)⟩
  else if 128 > shift ∧ shift > 64 then ⟨0, a.upper >>> (shift - 64)⟩
  else zero

/-- `operator>`. -/
def gt (a b : Uint128) : Bool :=
  if a.upper = b.upper then a.lower > b.lower else a.upper > b.upper

/-- `operator<`. -/
def lt (a b : Uint128) : Bool :=
  if a.upper = b.upper then a.lower < b.lower else a.upper < b.upper

/-- `operator>=`. -/
def ge (a b : Uint128) : Bool := a.gt b || a.equ b

/-- `operator<=`. -/
def le (a b : Uint128) : Bool := a.lt b || a.equ b

/-- The low 32 bits of a word. -/
def low32 (x : BitVec 64) : BitVec 64 := x &&& 0xffffffff

/-- `operator*`: the rows of the product of four 32 bit parts each, then the carries. -/
def mul (a b : Uint128) : Uint128 :=
  let product (x y : BitVec 64) := x * y
  let t0 := a.upper >>> 32
  let t1 := low32 a.upper
  let t2 := a.lower >>> 32
  let t3 := low32 a.lower
  let b0 := b.upper >>> 32
  let b1 := low32 b.upper
  let b2 := b.lower >>> 32
  let b3 := low32 b.lower
  let fourth32 := low32 (product t3 b3)
  let third32 := low32 (product t3 b2) + (product t3 b3 >>> 32)
  let second32 := low32 (product t3 b1) + (product t3 b2 >>> 32)
  let first32 := low32 (product t3 b0) + (product t3 b1 >>> 32)
  let third32 := third32 + low32 (product t2 b3)
  let second32 := second32 + (low32 (product t2 b2) + (product t2 b3 >>> 32))
  let first32 := first32 + (low32 (product t2 b1) + (product t2 b2 >>> 32))
  let second32 := second32 + low32 (product t1 b3)
  let first32 := first32 + (low32 (product t1 b2) + (product t1 b3 >>> 32))
  let first32 := first32 + low32 (product t0 b3)
  let third32 := third32 + (fourth32 >>> 32)
  let second32 := second32 + (third32 >>> 32)
  let first32 := first32 + (second32 >>> 32)
  ⟨(low32 first32 <<< 32) ||| low32 second32, (low32 third32 <<< 32) ||| low32 fourth32⟩

/-- The loop of `bits`, over a word. -/
def wordBits : ℕ → BitVec 64 → ℕ
  | 0, _ => 0
  | fuel + 1, word => if word = 0 then 0 else wordBits fuel (word >>> 1) + 1

/-- The number of bits up to the highest one that is set. -/
def bits (a : Uint128) : ℕ := if a.upper ≠ 0 then 64 + wordBits 64 a.upper else wordBits 64 a.lower

/-- One round of `divmod`: the next bit of the dividend comes down, and the divisor is taken
off where it fits. -/
def divmodRound (lhs rhs : Uint128) (x : ℕ) : Uint128 × Uint128 → Uint128 × Uint128
  | (quotient, remainder) =>
    let quotient := quotient.shl one
    let remainder := remainder.shl one
    let remainder :=
      if (lhs.shr (ofNat x)).lower &&& 1 ≠ 0 then remainder.add one else remainder
    if remainder.ge rhs then (quotient.add one, remainder.sub rhs) else (quotient, remainder)

/-- The loop of `divmod`, with the bits that are left. -/
def divmodLoop (lhs rhs : Uint128) : ℕ → Uint128 × Uint128 → Uint128 × Uint128
  | 0, qr => qr
  | x + 1, qr => divmodLoop lhs rhs x (divmodRound lhs rhs x qr)

/-- The division: the special cases first, then the loop over the bits of the dividend. -/
def divmod (lhs rhs : Uint128) : Except String (Uint128 × Uint128) :=
  if rhs = zero then throw "Error: division or modulus by 0"
  else if rhs = one then return (lhs, zero)
  else if lhs = rhs then return (one, zero)
  else if lhs = zero ∨ lhs.lt rhs then return (zero, lhs)
  else return divmodLoop lhs rhs lhs.bits (zero, zero)

/-! ### Addresses in network order -/

/-- `decode_ipv6_address`, from the 32 bit segments that `inet_pton` returns. -/
def ofSegments (segments : List (BitVec 32)) : Uint128 :=
  segments.foldl (fun address segment => (address.shl (ofNat 32)).or ⟨0, segment.setWidth 64⟩) zero

/-- The loop of `encode_ipv6_address`, from the last segment to the first. -/
def segmentsLoop : ℕ → Uint128 → List (BitVec 32) → List (BitVec 32)
  | 0, _, segments => segments
  | n + 1, address, segments =>
    segmentsLoop n (address.shr (ofNat 32)) (address.lower.setWidth 32 :: segments)

/-- The segments that `encode_ipv6_address` gives to `inet_ntop`. -/
def segments (address : Uint128) : List (BitVec 32) := segmentsLoop 4 address []

/-- `Address6Domain::max`. -/
def allOnes : Uint128 := ⟨BitVec.allOnes 64, BitVec.allOnes 64⟩

/-- The mask of `decode_network_address`. -/
def mask (nbits : ℕ) : Uint128 :=
  if nbits < 128 then (allOnes.shr (ofNat nbits)).not else allOnes

section

variable (pton : String → Option (List (BitVec 32))) (ntop : List (BitVec 32) → Option String)

/-- `decode_ipv6_address`, from the segments that `inet_pton` writes. -/
def decodeIpv6Address (text : String) : Option Uint128 := (pton text).map ofSegments

/-- `decode_ipv6_network_address`. -/
def decodeNetworkAddress (addr : String) (strict : Bool) :
    Except Fault (IPAddressType × Uint128 × Uint128) :=
  if '/' ∈ addr.toList then
    match split addr '/' with
    | [first, second] =>
      match decodeIpv6Address pton first, str2num second 0 128 with
      | some network, some nbits =>
        let mask := mask nbits.toNat
        if strict && !(network.and mask).equ network then
          .error (.ipAddressError addr "host bits set")
        else
          let upper := network.add mask.not
          if upper.lt network then .error (.ipAddressError addr "invalid address")
          else .ok (if upper.gt network then .subnet else .address, network, upper)
      | _, _ => .error (.ipAddressError addr "invalid format")
    | _ => .error (.ipAddressError addr "format error, multiple /")
  else if '-' ∈ addr.toList then
    match split addr '-' with
    | [first, second] =>
      match decodeIpv6Address pton first, decodeIpv6Address pton second with
      | some lower, some upper =>
        if lower.gt upper then .error (.ipAddressError addr "invalid range")
        else .ok (.range, lower, upper)
      | _, _ => .error (.ipAddressError addr "invalid format")
    | _ => .error (.ipAddressError addr "format error, multiple -")
  else
    match decodeIpv6Address pton addr with
    | some lower => .ok (.address, lower, lower)
    | none => .error (.ipAddressError addr "invalid format")

/-- The loop of `bit_count`. -/
def bitCountLoop : ℕ → Uint128 → ℕ → ℕ
  | 0, _, count => count
  | fuel + 1, value, count =>
    if value = zero then count
    else
      bitCountLoop fuel (value.shr one) (if value.lower &&& 1 ≠ 0 then count + 1 else count)

/-- `Ipv6Range::to_string`, where the addresses are not printed as IPv4 addresses. -/
def toText (lbound ubound : Uint128) : Except Fault String :=
  let diff := ubound.sub lbound
  match ntop (segments lbound) with
  | none => .error (.runtimeError "error in encode_ipv6_address")
  | some lowAddress =>
    if lbound.equ ubound then .ok lowAddress
    else if RangeImpl.isPowerOf2 lbound ubound then
      .ok (lowAddress ++ "/" ++ toString (128 - bitCountLoop 128 diff 0))
    else if diff.lt (ofNat 1024) then .ok (lowAddress ++ "+" ++ toString diff.lower.toNat)
    else
      match ntop (segments ubound) with
      | none => .error (.runtimeError "error in encode_ipv6_address")
      | some highAddress => .ok (lowAddress ++ "-" ++ highAddress)

end

/-! ### Sums, complements and comparisons -/

/-- The number as one vector of bits. -/
def toBitVec (a : Uint128) : BitVec 128 := a.upper ++ a.lower

theorem toNat_toBitVec (a : Uint128) : a.toBitVec.toNat = a.toNat := (toNat_eq_append a).symm

@[simp] theorem toNat_zero : zero.toNat = 0 := rfl

@[simp] theorem toNat_one : one.toNat = 1 := rfl

section

variable (a b : Uint128)

theorem toNat_add_mod : (a.add b).toNat = (a.toNat + b.toNat) % 2 ^ 128 := by
  have hupper := a.upper.isLt
  have hlower := a.lower.isLt
  have hupper' := b.upper.isLt
  have hlower' := b.lower.isLt
  simp only [toNat, add, BitVec.lt_def, BitVec.toNat_add, apply_ite BitVec.toNat,
    BitVec.reduceToNat]
  split <;> omega

theorem toNat_sub_mod : (a.sub b).toNat = (2 ^ 128 - b.toNat + a.toNat) % 2 ^ 128 := by
  have hupper := a.upper.isLt
  have hlower := a.lower.isLt
  have hupper' := b.upper.isLt
  have hlower' := b.lower.isLt
  simp only [toNat, sub, gt_iff_lt, BitVec.lt_def, BitVec.toNat_sub, apply_ite BitVec.toNat,
    BitVec.reduceToNat]
  split <;> omega

theorem toNat_not : a.not.toNat = 2 ^ 128 - 1 - a.toNat := by
  have hupper := a.upper.isLt
  have hlower := a.lower.isLt
  simp only [toNat, not, BitVec.toNat_not]
  omega

theorem toNat_neg : a.neg.toNat = (2 ^ 128 - a.toNat) % 2 ^ 128 := by
  have hlt := a.toNat_lt
  rw [neg, toNat_add_mod, toNat_not, toNat_one]
  omega

theorem lt_iff : a.lt b = true ↔ a.toNat < b.toNat := by
  have hlower := a.lower.isLt
  have hlower' := b.lower.isLt
  rw [lt, toNat, toNat]
  split
  · next h =>
    rw [decide_eq_true_iff, BitVec.lt_def, h]
    omega
  · next h =>
    have hne : a.upper.toNat ≠ b.upper.toNat := mt BitVec.eq_of_toNat_eq h
    rw [decide_eq_true_iff, BitVec.lt_def]
    omega

theorem gt_eq : a.gt b = b.lt a := by
  rw [gt, lt]
  by_cases h : a.upper = b.upper
  · rw [if_pos h, if_pos h.symm]
  · rw [if_neg h, if_neg (Ne.symm h)]

theorem le_iff : a.le b = true ↔ a.toNat ≤ b.toNat := by
  rw [le, Bool.or_eq_true, lt_iff, equ_iff, ← toNat_inj]
  omega

theorem ge_iff : a.ge b = true ↔ b.toNat ≤ a.toNat := by
  rw [ge, Bool.or_eq_true, gt_eq, lt_iff, equ_iff, ← toNat_inj]
  omega

end

/-! ### Shifts -/

theorem lower_lt {a : Uint128} (h : a.toNat < 2 ^ 64) : a.upper = 0 ∧ a.lower.toNat = a.toNat := by
  rw [toNat] at h ⊢
  have hupper : a.upper.toNat = 0 := by omega
  exact ⟨BitVec.eq_of_toNat_eq hupper, by omega⟩

/-- A product with a divisor of the size of a half, in quotient and remainder. -/
theorem mul_split {p q : ℕ} (hpq : p * q = 2 ^ 64) (x : ℕ) :
    ∃ r, x * p = x / q * 2 ^ 64 + r ∧ r + p ≤ 2 ^ 64 := by
  have hq : 0 < q := Nat.pos_of_ne_zero fun h => by simp [h] at hpq
  refine ⟨x % q * p, ?_, ?_⟩
  · conv_lhs => rw [← Nat.div_add_mod x q]
    rw [add_mul, ← hpq]
    ring
  · calc x % q * p + p = (x % q + 1) * p := (Nat.succ_mul _ _).symm
      _ ≤ q * p := Nat.mul_le_mul_right p (Nat.mod_lt x hq)
      _ = 2 ^ 64 := by rw [mul_comm, hpq]

/-- A shift to the left over the boundary of the halves. -/
theorem shl_halves {u l p q : ℕ} (hpq : p * q = 2 ^ 64) (hp : 0 < p) (hl : l < 2 ^ 64) :
    (u * p % 2 ^ 64 + l / q) % 2 ^ 64 * 2 ^ 64 + l * p % 2 ^ 64 =
      (u * 2 ^ 64 + l) * p % 2 ^ 128 := by
  have hq : 0 < q := Nat.pos_of_ne_zero fun h => by simp [h] at hpq
  have hdiv : l / q < p := by rwa [Nat.div_lt_iff_lt_mul hq, hpq]
  obtain ⟨r, hr, hrp⟩ := mul_split hpq u
  obtain ⟨t, ht, htp⟩ := mul_split hpq l
  rw [add_mul, mul_right_comm, hr, ht]
  omega

/-- A shift to the right over the boundary of the halves. -/
theorem shr_halves {u l p q : ℕ} (hpq : p * q = 2 ^ 64) (hp : 0 < p)
    (hl : l < 2 ^ 64) :
    u / p * 2 ^ 64 + (u * q % 2 ^ 64 + l / p) % 2 ^ 64 = (u * 2 ^ 64 + l) / p := by
  have hdiv : l / p < q := by rwa [Nat.div_lt_iff_lt_mul hp, mul_comm, hpq]
  obtain ⟨r, hr, hrq⟩ := mul_split (mul_comm p q ▸ hpq) u
  have hmul : u * 2 ^ 64 + l = l + p * (u * q) := by
    rw [← hpq]
    ring
  rw [hmul, Nat.add_mul_div_left _ _ hp, hr]
  generalize u / p = t
  generalize l / p = s at hdiv ⊢
  clear hmul hpq hr
  omega

/-- A distance below 128 is in the lower half. -/
theorem toNat_eq_lower {b : Uint128} (h : ¬(b.upper ≠ 0 ∨ b.lower ≥ 128)) :
    b.toNat = b.lower.toNat ∧ b.lower.toNat < 128 := by
  obtain ⟨hupper, hlower⟩ := not_or.mp h
  have hlower : b.lower.toNat < 128 := by simpa [BitVec.le_def] using hlower
  rw [toNat, not_not.mp hupper]
  exact ⟨by simp, hlower⟩

theorem le_toNat {b : Uint128} (h : b.upper ≠ 0 ∨ b.lower ≥ 128) : 128 ≤ b.toNat := by
  rw [toNat]
  rcases h with hupper | hlower
  · have hpos : b.upper.toNat ≠ 0 := fun h => hupper (BitVec.eq_of_toNat_eq h)
    omega
  · have hlower : 128 ≤ b.lower.toNat := by simpa [BitVec.le_def] using hlower
    omega

/-- A distance that is not one of the special ones. -/
theorem toNat_ne {b : BitVec 64} {n : ℕ} (h : ¬b = BitVec.ofNat 64 n) (hn : n < 2 ^ 64) :
    b.toNat ≠ n := by
  intro heq
  refine h (BitVec.eq_of_toNat_eq ?_)
  rw [heq, BitVec.toNat_ofNat, Nat.mod_eq_of_lt hn]

theorem two_pow_mul_sub {n w : ℕ} (h : n ≤ w) : 2 ^ n * 2 ^ (w - n) = 2 ^ w := by
  rw [← pow_add, Nat.add_sub_cancel' h]

/-- A shift to the left multiplies by a power of two.  The bits that leave the upper half are
lost. -/
theorem toNat_shl (a b : Uint128) : (a.shl b).toNat = a.toNat * 2 ^ b.toNat % 2 ^ 128 := by
  have hlower := a.lower.isLt
  rw [shl]
  -- the five branches of the operator, in its order; far away, nothing is left
  by_cases hfar : b.upper ≠ 0 ∨ b.lower ≥ 128
  · have hdvd : 2 ^ 128 ∣ a.toNat * 2 ^ b.toNat :=
      (pow_dvd_pow 2 (le_toNat hfar)).mul_left a.toNat
    rw [if_pos hfar, Nat.mod_eq_zero_of_dvd hdvd, toNat_zero]
  rw [if_neg hfar]
  obtain ⟨hb, hlt⟩ := toNat_eq_lower hfar
  rw [hb]
  -- by one half: the lower half becomes the upper one
  by_cases h64 : b.lower = 64
  · rw [if_pos h64, h64, toNat, toNat]
    simp only [BitVec.reduceToNat]
    omega
  by_cases h0 : b.lower = 0
  · rw [if_neg h64, if_pos h0, h0]
    simp only [BitVec.reduceToNat, pow_zero, mul_one]
    rw [Nat.mod_eq_of_lt a.toNat_lt]
  have h64' : b.lower.toNat ≠ 64 := toNat_ne h64 (by decide)
  have h0' : b.lower.toNat ≠ 0 := toNat_ne h0 (by decide)
  rw [if_neg h64, if_neg h0]
  -- within a half: bits of the lower half go over into the upper one
  by_cases hnear : b.lower < 64
  · have hnear' : b.lower.toNat < 64 := by simpa [BitVec.lt_def] using hnear
    have hsub : (64 - b.lower).toNat = 64 - b.lower.toNat := by
      rw [BitVec.toNat_sub]
      simp only [BitVec.reduceToNat]
      omega
    rw [if_pos hnear, toNat, toNat, BitVec.toNat_add, BitVec.shiftLeft_eq', BitVec.shiftLeft_eq',
      BitVec.ushiftRight_eq', hsub, BitVec.toNat_shiftLeft, BitVec.toNat_shiftLeft,
      BitVec.toNat_ushiftRight, Nat.shiftLeft_eq, Nat.shiftLeft_eq, Nat.shiftRight_eq_div_pow]
    exact shl_halves (two_pow_mul_sub hnear'.le) (Nat.two_pow_pos _) hlower
  · -- more than a half: what was in the upper half is lost
    have hnear' : ¬b.lower.toNat < 64 := by simpa [BitVec.lt_def] using hnear
    have hbetween : 128 > b.lower ∧ b.lower > 64 := by
      simp only [gt_iff_lt, BitVec.lt_def, BitVec.reduceToNat]
      omega
    have hsub : (b.lower - 64).toNat = b.lower.toNat - 64 := by
      rw [BitVec.toNat_sub]
      simp only [BitVec.reduceToNat]
      omega
    have hpow : 2 ^ b.lower.toNat = 2 ^ (b.lower.toNat - 64) * 2 ^ 64 := by
      rw [← pow_add, Nat.sub_add_cancel (by omega)]
    rw [if_neg hnear, if_pos hbetween, toNat, toNat, BitVec.shiftLeft_eq', hsub,
      BitVec.toNat_shiftLeft, Nat.shiftLeft_eq, hpow]
    generalize 2 ^ (b.lower.toNat - 64) = p
    have hsplit : (a.upper.toNat * 2 ^ 64 + a.lower.toNat) * (p * 2 ^ 64) =
        a.lower.toNat * p * 2 ^ 64 + 2 ^ 128 * (a.upper.toNat * p) := by ring
    rw [hsplit, Nat.add_mul_mod_self_left]
    simp only [BitVec.reduceToNat]
    omega

/-- A shift to the right divides by a power of two. -/
theorem toNat_shr (a b : Uint128) : (a.shr b).toNat = a.toNat / 2 ^ b.toNat := by
  have hupper := a.upper.isLt
  have hlower := a.lower.isLt
  rw [shr]
  -- the branches are those of the other shift
  by_cases hfar : b.upper ≠ 0 ∨ b.lower ≥ 128
  · have hlt : a.toNat < 2 ^ b.toNat :=
      a.toNat_lt.trans_le (Nat.pow_le_pow_right (by decide) (le_toNat hfar))
    rw [if_pos hfar, Nat.div_eq_of_lt hlt, toNat_zero]
  rw [if_neg hfar]
  obtain ⟨hb, hlt⟩ := toNat_eq_lower hfar
  rw [hb]
  by_cases h64 : b.lower = 64
  · rw [if_pos h64, h64, toNat, toNat]
    simp only [BitVec.reduceToNat]
    omega
  by_cases h0 : b.lower = 0
  · rw [if_neg h64, if_pos h0, h0]
    simp only [BitVec.reduceToNat, pow_zero, Nat.div_one]
  have h64' : b.lower.toNat ≠ 64 := toNat_ne h64 (by decide)
  have h0' : b.lower.toNat ≠ 0 := toNat_ne h0 (by decide)
  rw [if_neg h64, if_neg h0]
  -- within a half: bits of the upper half go over into the lower one
  by_cases hnear : b.lower < 64
  · have hnear' : b.lower.toNat < 64 := by simpa [BitVec.lt_def] using hnear
    have hsub : (64 - b.lower).toNat = 64 - b.lower.toNat := by
      rw [BitVec.toNat_sub]
      simp only [BitVec.reduceToNat]
      omega
    rw [if_pos hnear, toNat, toNat, BitVec.toNat_add, BitVec.shiftLeft_eq',
      BitVec.ushiftRight_eq', BitVec.ushiftRight_eq', hsub, BitVec.toNat_shiftLeft,
      BitVec.toNat_ushiftRight, BitVec.toNat_ushiftRight, Nat.shiftLeft_eq,
      Nat.shiftRight_eq_div_pow, Nat.shiftRight_eq_div_pow]
    exact shr_halves (two_pow_mul_sub hnear'.le) (Nat.two_pow_pos _) hlower
  · -- more than a half: what was in the lower half is lost
    have hnear' : ¬b.lower.toNat < 64 := by simpa [BitVec.lt_def] using hnear
    have hbetween : 128 > b.lower ∧ b.lower > 64 := by
      simp only [gt_iff_lt, BitVec.lt_def, BitVec.reduceToNat]
      omega
    have hsub : (b.lower - 64).toNat = b.lower.toNat - 64 := by
      rw [BitVec.toNat_sub]
      simp only [BitVec.reduceToNat]
      omega
    have hpow : 2 ^ b.lower.toNat = 2 ^ 64 * 2 ^ (b.lower.toNat - 64) := by
      rw [← pow_add, Nat.add_sub_cancel' (by omega)]
    rw [if_neg hnear, if_pos hbetween, toNat, toNat, BitVec.ushiftRight_eq', hsub,
      BitVec.toNat_ushiftRight, Nat.shiftRight_eq_div_pow, hpow, ← Nat.div_div_eq_div_mul]
    have hhalf : (a.upper.toNat * 2 ^ 64 + a.lower.toNat) / 2 ^ 64 = a.upper.toNat := by omega
    rw [hhalf]
    simp only [BitVec.reduceToNat]
    omega

/-! ### Products -/

theorem toNat_low32 (x : BitVec 64) : (low32 x).toNat = x.toNat % 2 ^ 32 := by
  rw [low32, BitVec.toNat_and]
  exact Nat.and_two_pow_sub_one_eq_mod x.toNat 32

theorem toNat_ushiftRight_32 (x : BitVec 64) : (x >>> 32).toNat = x.toNat / 2 ^ 32 := by
  rw [BitVec.toNat_ushiftRight, Nat.shiftRight_eq_div_pow]

/-- A word of two parts. -/
theorem toNat_parts (x y : BitVec 64) :
    ((low32 x <<< 32) ||| low32 y).toNat = x.toNat % 2 ^ 32 * 2 ^ 32 + y.toNat % 2 ^ 32 := by
  have hlt : y.toNat % 2 ^ 32 < 2 ^ 32 := Nat.mod_lt _ (by decide)
  have hshift : (low32 x <<< 32).toNat = (x.toNat % 2 ^ 32) <<< 32 := by
    rw [BitVec.toNat_shiftLeft, toNat_low32, Nat.shiftLeft_eq]
    omega
  rw [BitVec.toNat_or, hshift, toNat_low32, ← Nat.shiftLeft_add_eq_or_of_lt hlt,
    Nat.shiftLeft_eq]

/-- A product of parts fits in a word. -/
theorem toNat_product {x y : BitVec 64} (hx : x.toNat < 2 ^ 32) (hy : y.toNat < 2 ^ 32) :
    (x * y).toNat = x.toNat * y.toNat := by
  have hlt : x.toNat * y.toNat < 2 ^ 32 * 2 ^ 32 := Nat.mul_lt_mul'' hx hy
  rw [BitVec.toNat_mul, Nat.mod_eq_of_lt (by omega)]

/-- The columns of the products, with the carries moved to the next one. -/
theorem carry_columns (p33 p32 p31 p30 p23 p22 p21 p13 p12 p03 : ℕ) :
    let fourth := p33 % 2 ^ 32
    let third := p32 % 2 ^ 32 + p33 / 2 ^ 32 + p23 % 2 ^ 32
    let second := p31 % 2 ^ 32 + p32 / 2 ^ 32 + (p22 % 2 ^ 32 + p23 / 2 ^ 32) + p13 % 2 ^ 32 +
      third / 2 ^ 32
    let first := p30 % 2 ^ 32 + p31 / 2 ^ 32 + (p21 % 2 ^ 32 + p22 / 2 ^ 32) +
      (p12 % 2 ^ 32 + p13 / 2 ^ 32) + p03 % 2 ^ 32 + second / 2 ^ 32
    (first % 2 ^ 32 * 2 ^ 32 + second % 2 ^ 32) * 2 ^ 64 + (third % 2 ^ 32 * 2 ^ 32 + fourth) =
      (p33 + (p32 + p23) * 2 ^ 32 + (p31 + p22 + p13) * 2 ^ 64 +
        (p30 + p21 + p12 + p03) * 2 ^ 96) % 2 ^ 128 := by
  intro fourth third second first
  have hthird := Nat.div_add_mod third (2 ^ 32)
  have hsecond := Nat.div_add_mod second (2 ^ 32)
  have hfirst := Nat.div_add_mod first (2 ^ 32)
  omega

/-- The parts of a word. -/
theorem parts_lt (x : BitVec 64) : (x >>> 32).toNat < 2 ^ 32 ∧ (low32 x).toNat < 2 ^ 32 := by
  have hlt := x.isLt
  rw [toNat_ushiftRight_32, toNat_low32]
  omega

theorem parts_eq (x : BitVec 64) :
    x.toNat = (x >>> 32).toNat * 2 ^ 32 + (low32 x).toNat := by
  rw [toNat_ushiftRight_32, toNat_low32]
  omega

/-- The number over its four parts. -/
theorem toNat_eq_parts (a : Uint128) :
    a.toNat = ((a.upper >>> 32).toNat * 2 ^ 32 + (low32 a.upper).toNat) * 2 ^ 64 +
      ((a.lower >>> 32).toNat * 2 ^ 32 + (low32 a.lower).toNat) := by
  rw [toNat, ← parts_eq, ← parts_eq]

/-- The product of four parts with four parts.  The columns are added with their carries, and
what is above the upper half is dropped. -/
theorem toNat_mul (a b : Uint128) : (a.mul b).toNat = a.toNat * b.toNat % 2 ^ 128 := by
  obtain ⟨ht0, ht1⟩ := parts_lt a.upper
  obtain ⟨ht2, ht3⟩ := parts_lt a.lower
  obtain ⟨hb0, hb1⟩ := parts_lt b.upper
  obtain ⟨hb2, hb3⟩ := parts_lt b.lower
  rw [toNat_eq_parts a, toNat_eq_parts b, mul]
  generalize a.upper >>> 32 = t0 at *
  generalize low32 a.upper = t1 at *
  generalize a.lower >>> 32 = t2 at *
  generalize low32 a.lower = t3 at *
  generalize b.upper >>> 32 = b0 at *
  generalize low32 b.upper = b1 at *
  generalize b.lower >>> 32 = b2 at *
  generalize low32 b.lower = b3 at *
  -- the products of the parts, by their weight; from 2 ^ 128 on they are dropped
  have hproducts : ((t0.toNat * 2 ^ 32 + t1.toNat) * 2 ^ 64 + (t2.toNat * 2 ^ 32 + t3.toNat)) *
      ((b0.toNat * 2 ^ 32 + b1.toNat) * 2 ^ 64 + (b2.toNat * 2 ^ 32 + b3.toNat)) =
      (t3.toNat * b3.toNat + (t3.toNat * b2.toNat + t2.toNat * b3.toNat) * 2 ^ 32 +
        (t3.toNat * b1.toNat + t2.toNat * b2.toNat + t1.toNat * b3.toNat) * 2 ^ 64 +
        (t3.toNat * b0.toNat + t2.toNat * b1.toNat + t1.toNat * b2.toNat +
          t0.toNat * b3.toNat) * 2 ^ 96) +
      2 ^ 128 * (t0.toNat * b2.toNat + t1.toNat * b1.toNat + t2.toNat * b0.toNat +
        (t0.toNat * b1.toNat + t1.toNat * b0.toNat) * 2 ^ 32 +
        t0.toNat * b0.toNat * 2 ^ 64) := by ring
  rw [hproducts, Nat.add_mul_mod_self_left, ← carry_columns]
  simp only [toNat, toNat_parts, BitVec.toNat_add, toNat_low32, toNat_ushiftRight_32,
    toNat_product ht3 hb3, toNat_product ht3 hb2, toNat_product ht3 hb1, toNat_product ht3 hb0,
    toNat_product ht2 hb3, toNat_product ht2 hb2, toNat_product ht2 hb1, toNat_product ht1 hb3,
    toNat_product ht1 hb2, toNat_product ht0 hb3]
  -- no product of two parts overflows, so that each can be taken as one number
  have hlt {x y : ℕ} (hx : x < 2 ^ 32) (hy : y < 2 ^ 32) : x * y < 2 ^ 64 :=
    (Nat.mul_lt_mul'' hx hy).trans_eq (by decide)
  have h33 := hlt ht3 hb3
  have h32 := hlt ht3 hb2
  have h31 := hlt ht3 hb1
  have h23 := hlt ht2 hb3
  have h22 := hlt ht2 hb2
  have h13 := hlt ht1 hb3
  clear hproducts
  generalize t3.toNat * b3.toNat = p33 at *
  generalize t3.toNat * b2.toNat = p32 at *
  generalize t3.toNat * b1.toNat = p31 at *
  generalize t3.toNat * b0.toNat = p30 at *
  generalize t2.toNat * b3.toNat = p23 at *
  generalize t2.toNat * b2.toNat = p22 at *
  generalize t2.toNat * b1.toNat = p21 at *
  generalize t1.toNat * b3.toNat = p13 at *
  generalize t1.toNat * b2.toNat = p12 at *
  generalize t0.toNat * b3.toNat = p03 at *
  omega

/-! ### Division -/

theorem lt_two_pow_wordBits (fuel : ℕ) (word : BitVec 64) (h : word.toNat < 2 ^ fuel) :
    word.toNat < 2 ^ wordBits fuel word := by
  induction fuel generalizing word with
  | zero => exact h
  | succ fuel ih =>
    rw [wordBits]
    split
    · next h0 =>
      rw [h0]
      decide
    · have hshift : (word >>> 1).toNat = word.toNat / 2 := by
        rw [BitVec.toNat_ushiftRight, Nat.shiftRight_eq_div_pow, pow_one]
      rw [pow_succ] at h
      have ih := ih (word >>> 1) (by omega)
      rw [pow_succ]
      omega

theorem wordBits_le (fuel : ℕ) (word : BitVec 64) : wordBits fuel word ≤ fuel := by
  induction fuel generalizing word with
  | zero => exact Nat.le_refl 0
  | succ fuel ih =>
    rw [wordBits]
    split
    · exact Nat.zero_le _
    · exact Nat.succ_le_succ (ih _)

theorem lt_two_pow_bits (a : Uint128) : a.toNat < 2 ^ a.bits := by
  have hlower := a.lower.isLt
  rw [bits, toNat]
  split
  · have hlt := lt_two_pow_wordBits 64 a.upper a.upper.isLt
    rw [pow_add]
    omega
  · next h =>
    have hlt := lt_two_pow_wordBits 64 a.lower hlower
    rw [not_not.mp h]
    simpa using hlt

theorem bits_le (a : Uint128) : a.bits ≤ 128 := by
  rw [bits]
  split
  · exact Nat.add_le_add_left (wordBits_le 64 a.upper) 64
  · exact (wordBits_le 64 a.lower).trans (by decide)

/-- The bit that a round of the division brings down. -/
theorem shr_bit (lhs : Uint128) {x : ℕ} (hx : x < 128) :
    ((lhs.shr (ofNat x)).lower &&& 1 ≠ 0) ↔ lhs.toNat / 2 ^ x % 2 = 1 := by
  have hshr := toNat_shr lhs (ofNat x)
  rw [toNat_ofNat (hx.trans (by decide))] at hshr
  have hand : ((lhs.shr (ofNat x)).lower &&& 1).toNat = (lhs.shr (ofNat x)).lower.toNat % 2 := by
    rw [BitVec.toNat_and]
    exact Nat.and_one_is_mod _
  rw [← hshr, toNat, Ne, BitVec.toNat_eq, hand]
  simp only [BitVec.reduceToNat]
  omega

/-- The state of the loop with `x` bits left: the prefix of the dividend is divided. -/
def Divided (lhs rhs : Uint128) (x : ℕ) (qr : Uint128 × Uint128) : Prop :=
  qr.1.toNat * rhs.toNat + qr.2.toNat = lhs.toNat / 2 ^ x ∧ qr.2.toNat < rhs.toNat

/-- No round of the loop from `x` bits on overflows: the quotient and the remainder have room
for the bit that the round shifts in. -/
def RoundsFit (lhs rhs : Uint128) : ℕ → Uint128 × Uint128 → Prop
  | 0, _ => True
  | x + 1, qr => qr.1.toNat * 2 + 1 < 2 ^ 128 ∧ qr.2.toNat * 2 + 1 < 2 ^ 128 ∧
      RoundsFit lhs rhs x (divmodRound lhs rhs x qr)

/-- While a bit is left, the prefix is below `2 ^ 127`, and so are quotient and remainder. -/
theorem Divided.fits {lhs rhs : Uint128} {x : ℕ} {qr : Uint128 × Uint128}
    (h : Divided lhs rhs (x + 1) qr) :
    qr.1.toNat * 2 + 1 < 2 ^ 128 ∧ qr.2.toNat * 2 + 1 < 2 ^ 128 := by
  obtain ⟨hsum, hlt⟩ := h
  have hprefix_lt : lhs.toNat / 2 ^ x < 2 ^ 128 := (Nat.div_le_self _ _).trans_lt lhs.toNat_lt
  rw [pow_succ, ← Nat.div_div_eq_div_mul] at hsum
  have hle : qr.1.toNat ≤ qr.1.toNat * rhs.toNat := Nat.le_mul_of_pos_right _ (by omega)
  omega

/-- One round: the prefix gets one more bit, and stays divided.  The remainder is below the
divisor, so the shifted one is below twice the divisor, and one subtraction is enough. -/
theorem Divided.round {lhs rhs : Uint128} {x : ℕ} (hx : x < 128) {qr : Uint128 × Uint128}
    (h : Divided lhs rhs (x + 1) qr) : Divided lhs rhs x (divmodRound lhs rhs x qr) := by
  obtain ⟨hquotientFits, hremainderFits⟩ := h.fits
  obtain ⟨hsum, hlt⟩ := h
  obtain ⟨quotient, remainder⟩ := qr
  dsimp only at hquotientFits hremainderFits hsum hlt
  set prefixed := lhs.toNat / 2 ^ x with hprefixed
  have hhalf : lhs.toNat / 2 ^ (x + 1) = prefixed / 2 := by
    rw [pow_succ, Nat.div_div_eq_div_mul]
  rw [hhalf] at hsum
  have hquotient : (quotient.shl one).toNat = quotient.toNat * 2 := by
    rw [toNat_shl, toNat_one, pow_one, Nat.mod_eq_of_lt (by omega)]
  have hremainder : (remainder.shl one).toNat = remainder.toNat * 2 := by
    rw [toNat_shl, toNat_one, pow_one, Nat.mod_eq_of_lt (by omega)]
  set brought := if (lhs.shr (ofNat x)).lower &&& 1 ≠ 0 then (remainder.shl one).add one
    else remainder.shl one with hbrought
  -- the bit that comes down is the last one of the longer prefix
  have hbrought' : brought.toNat = remainder.toNat * 2 + prefixed % 2 := by
    rw [hbrought]
    split
    · next hbit =>
      have hbit := (shr_bit lhs hx).mp hbit
      rw [toNat_add (by rw [hremainder, toNat_one]; omega), hremainder, toNat_one]
      omega
    · next hbit =>
      have hbit := mt (shr_bit lhs hx).mpr hbit
      rw [hremainder]
      omega
  have hmul : quotient.toNat * 2 * rhs.toNat = quotient.toNat * rhs.toNat * 2 := by ring
  rw [Divided, divmodRound]
  by_cases hge : brought.ge rhs = true
  · have hge' := (ge_iff brought rhs).mp hge
    have hnext : ((quotient.shl one).add one).toNat = quotient.toNat * 2 + 1 := by
      rw [toNat_add (by rw [hquotient, toNat_one]; omega), hquotient, toNat_one]
    simp only [← hbrought, hge, if_true]
    constructor
    · rw [hnext, toNat_sub hge', hbrought', Nat.add_mul, hmul, Nat.one_mul]
      omega
    · rw [toNat_sub hge', hbrought']
      omega
  · have hge' := mt (ge_iff brought rhs).mpr hge
    simp only [← hbrought, hge]
    constructor
    · simp only [Bool.false_eq_true, if_false]
      rw [hquotient, hbrought', hmul]
      omega
    · simp only [Bool.false_eq_true, if_false]
      omega

/-- The run of the loop: quotient and remainder of the whole dividend, with room in every
round. -/
theorem Divided.run {lhs rhs : Uint128} {x : ℕ} (hx : x ≤ 128) {qr : Uint128 × Uint128}
    (h : Divided lhs rhs x qr) :
    Divided lhs rhs 0 (divmodLoop lhs rhs x qr) ∧ RoundsFit lhs rhs x qr := by
  induction x generalizing qr with
  | zero => exact ⟨h, trivial⟩
  | succ x ih =>
    obtain ⟨hdivided, hfits⟩ := ih (Nat.le_of_succ_le hx) (h.round hx)
    exact ⟨hdivided, h.fits.1, h.fits.2, hfits⟩

/-- A dividend with no bit left is divided. -/
theorem Divided.eq {lhs rhs : Uint128} {qr : Uint128 × Uint128} (h : Divided lhs rhs 0 qr) :
    qr.1.toNat = lhs.toNat / rhs.toNat ∧ qr.2.toNat = lhs.toNat % rhs.toNat := by
  obtain ⟨hsum, hlt⟩ := h
  rw [pow_zero, Nat.div_one] at hsum
  rw [← hsum, Nat.add_comm, Nat.add_mul_div_right _ _ (by omega), Nat.add_mul_mod_self_right,
    Nat.div_eq_of_lt hlt, Nat.mod_eq_of_lt hlt]
  exact ⟨(Nat.zero_add _).symm, rfl⟩

/-- Before the first round nothing of the dividend is divided. -/
theorem divided_start (lhs : Uint128) {rhs : Uint128} (hpos : 0 < rhs.toNat) :
    Divided lhs rhs lhs.bits (zero, zero) := by
  rw [Divided, Nat.div_eq_of_lt (lt_two_pow_bits lhs), toNat_zero, Nat.zero_mul]
  exact ⟨rfl, hpos⟩

/-- The division finds quotient and remainder, except for a divisor of zero.  The shortcuts of
the source agree with what its loop computes. -/
theorem divmod_eq (lhs rhs : Uint128) :
    (rhs.toNat = 0 → divmod lhs rhs = .error "Error: division or modulus by 0") ∧
      (rhs.toNat ≠ 0 → ∃ quotient remainder, divmod lhs rhs = .ok (quotient, remainder) ∧
        quotient.toNat = lhs.toNat / rhs.toNat ∧ remainder.toNat = lhs.toNat % rhs.toNat) := by
  have hzero : rhs = zero ↔ rhs.toNat = 0 := by rw [← toNat_inj, toNat_zero]
  constructor
  · intro h
    rw [divmod, if_pos (hzero.mpr h)]
    rfl
  intro h
  have hpos : 0 < rhs.toNat := Nat.pos_of_ne_zero h
  rw [divmod, if_neg (mt hzero.mp h)]
  -- the shortcuts of the source: a divisor of one, equal numbers, a smaller number
  by_cases hone : rhs = one
  · refine ⟨lhs, zero, if_pos hone, ?_⟩
    rw [hone, toNat_one, Nat.div_one, Nat.mod_one]
    exact ⟨rfl, rfl⟩
  by_cases heq : lhs = rhs
  · refine ⟨one, zero, (if_neg hone).trans (if_pos heq), ?_⟩
    rw [heq, Nat.div_self hpos, Nat.mod_self]
    exact ⟨rfl, rfl⟩
  by_cases hsmall : lhs = zero ∨ lhs.lt rhs
  · have hlt : lhs.toNat < rhs.toNat := by
      rcases hsmall with h0 | hlt
      · rwa [h0]
      · exact (lt_iff lhs rhs).mp hlt
    refine ⟨zero, lhs, ((if_neg hone).trans (if_neg heq)).trans (if_pos hsmall), ?_⟩
    rw [Nat.div_eq_of_lt hlt, Nat.mod_eq_of_lt hlt]
    exact ⟨rfl, rfl⟩
  · -- and else the loop
    refine ⟨_, _, ((if_neg hone).trans (if_neg heq)).trans (if_neg hsmall), ?_⟩
    exact ((divided_start lhs hpos).run (bits_le lhs)).1.eq

/-! ### One integer of 128 bits -/

theorem toBitVec_inj {a b : Uint128} : a.toBitVec = b.toBitVec ↔ a = b := by
  rw [← BitVec.toNat_inj, toNat_toBitVec, toNat_toBitVec, toNat_inj]

section

variable (a b : Uint128)

theorem toBitVec_add : (a.add b).toBitVec = a.toBitVec + b.toBitVec := by
  apply BitVec.eq_of_toNat_eq
  rw [BitVec.toNat_add, toNat_toBitVec, toNat_toBitVec, toNat_toBitVec, toNat_add_mod]

theorem toBitVec_sub : (a.sub b).toBitVec = a.toBitVec - b.toBitVec := by
  apply BitVec.eq_of_toNat_eq
  rw [BitVec.toNat_sub, toNat_toBitVec, toNat_toBitVec, toNat_toBitVec, toNat_sub_mod]

theorem toBitVec_and : (a.and b).toBitVec = a.toBitVec &&& b.toBitVec := BitVec.and_append.symm

theorem toBitVec_or : (a.or b).toBitVec = a.toBitVec ||| b.toBitVec := BitVec.or_append.symm

theorem toBitVec_xor : (a.xor b).toBitVec = a.toBitVec ^^^ b.toBitVec := BitVec.xor_append.symm

theorem toBitVec_not : a.not.toBitVec = ~~~a.toBitVec := BitVec.not_append.symm

theorem lt_iff_toBitVec : a.lt b = true ↔ a.toBitVec < b.toBitVec := by
  rw [lt_iff, BitVec.lt_def, toNat_toBitVec, toNat_toBitVec]

theorem toBitVec_shr : (a.shr b).toBitVec = a.toBitVec >>> b.toNat := by
  apply BitVec.eq_of_toNat_eq
  rw [BitVec.toNat_ushiftRight, toNat_toBitVec, toNat_toBitVec, toNat_shr,
    Nat.shiftRight_eq_div_pow]

theorem toBitVec_shl : (a.shl b).toBitVec = a.toBitVec <<< b.toNat := by
  apply BitVec.eq_of_toNat_eq
  rw [BitVec.toNat_shiftLeft, toNat_toBitVec, toNat_toBitVec, toNat_shl, Nat.shiftLeft_eq]

/-- **The operators over halves are those over one integer of 128 bits**, at every distance
of a shift and through every carry and borrow. -/
theorem operators_exact :
    ((a.add b).toBitVec = a.toBitVec + b.toBitVec ∧
      (a.sub b).toBitVec = a.toBitVec - b.toBitVec ∧
      (a.mul b).toBitVec = a.toBitVec * b.toBitVec ∧ a.neg.toBitVec = -a.toBitVec) ∧
    ((a.and b).toBitVec = a.toBitVec &&& b.toBitVec ∧
      (a.or b).toBitVec = a.toBitVec ||| b.toBitVec ∧
      (a.xor b).toBitVec = a.toBitVec ^^^ b.toBitVec ∧ a.not.toBitVec = ~~~a.toBitVec) ∧
    ((a.shl b).toBitVec = a.toBitVec <<< b.toBitVec ∧
      (a.shr b).toBitVec = a.toBitVec >>> b.toBitVec) ∧
    ((a.equ b = true ↔ a.toBitVec = b.toBitVec) ∧ (a.lt b = true ↔ a.toBitVec < b.toBitVec) ∧
      (a.gt b = true ↔ a.toBitVec > b.toBitVec) ∧ (a.le b = true ↔ a.toBitVec ≤ b.toBitVec) ∧
      (a.ge b = true ↔ a.toBitVec ≥ b.toBitVec)) := by
  -- product, negation and the orders are compared as numbers, the rest bit by bit
  have hmul : (a.mul b).toBitVec = a.toBitVec * b.toBitVec := by
    apply BitVec.eq_of_toNat_eq
    rw [BitVec.toNat_mul, toNat_toBitVec, toNat_toBitVec, toNat_toBitVec, toNat_mul]
  have hneg : a.neg.toBitVec = -a.toBitVec := by
    apply BitVec.eq_of_toNat_eq
    rw [BitVec.toNat_neg, toNat_toBitVec, toNat_toBitVec, toNat_neg]
  have hshifts : (a.shl b).toBitVec = a.toBitVec <<< b.toBitVec ∧
      (a.shr b).toBitVec = a.toBitVec >>> b.toBitVec := by
    rw [toBitVec_shl, toBitVec_shr, BitVec.shiftLeft_eq', BitVec.ushiftRight_eq', toNat_toBitVec]
    exact ⟨rfl, rfl⟩
  have hle : a.le b = true ↔ a.toBitVec ≤ b.toBitVec := by
    rw [le_iff, BitVec.le_def, toNat_toBitVec, toNat_toBitVec]
  have hge : a.ge b = true ↔ a.toBitVec ≥ b.toBitVec := by
    rw [ge_iff, ge_iff_le, BitVec.le_def, toNat_toBitVec, toNat_toBitVec]
  have hgt : a.gt b = true ↔ a.toBitVec > b.toBitVec := by
    rw [gt_eq]
    exact lt_iff_toBitVec b a
  exact ⟨⟨toBitVec_add a b, toBitVec_sub a b, hmul, hneg⟩,
    ⟨toBitVec_and a b, toBitVec_or a b, toBitVec_xor a b, toBitVec_not a⟩, hshifts,
    equ_iff.trans toBitVec_inj.symm, lt_iff_toBitVec a b, hgt, hle, hge⟩

end

/-- **The division over halves is the one over integers of 128 bits**, and fails for a divisor
of zero. For every other divisor the shifted quotient and the shifted remainder fit in each
round of the loop. -/
theorem divmod_exact (lhs rhs : Uint128) :
    (divmod lhs rhs).map (fun qr => (qr.1.toBitVec, qr.2.toBitVec)) =
      (if rhs.toBitVec = 0 then .error "Error: division or modulus by 0"
      else .ok (lhs.toBitVec / rhs.toBitVec, lhs.toBitVec % rhs.toBitVec)) ∧
    (rhs.toBitVec ≠ 0 → RoundsFit lhs rhs lhs.bits (zero, zero)) := by
  have hzero : rhs.toBitVec = 0 ↔ rhs.toNat = 0 := by
    rw [← BitVec.toNat_inj, toNat_toBitVec]
    rfl
  constructor
  · obtain ⟨hfail, hok⟩ := divmod_eq lhs rhs
    by_cases h : rhs.toNat = 0
    · rw [if_pos (hzero.mpr h), hfail h]
      rfl
    · obtain ⟨quotient, remainder, heq, hquotient, hremainder⟩ := hok h
      have hdiv : quotient.toBitVec = lhs.toBitVec / rhs.toBitVec := by
        apply BitVec.eq_of_toNat_eq
        rw [BitVec.toNat_udiv, toNat_toBitVec, toNat_toBitVec, toNat_toBitVec, hquotient]
      have hmod : remainder.toBitVec = lhs.toBitVec % rhs.toBitVec := by
        apply BitVec.eq_of_toNat_eq
        rw [BitVec.toNat_umod, toNat_toBitVec, toNat_toBitVec, toNat_toBitVec, hremainder]
      rw [if_neg (mt hzero.mp h), heq, ← hdiv, ← hmod]
      rfl
  · intro h
    have hpos : 0 < rhs.toNat := Nat.pos_of_ne_zero (mt hzero.mpr h)
    exact ((divided_start lhs hpos).run (bits_le lhs)).2

/-! ### Addresses -/

/-- The number of an address in network order, the first segment first. -/
def addressOf (segments : List (BitVec 32)) : ℕ :=
  segments.foldl (fun address segment => address * 2 ^ 32 + segment.toNat) 0

/-- One more segment: the low part of the shifted address is empty. -/
theorem toNat_shl_or (address : Uint128) (segment : BitVec 32) :
    ((address.shl (ofNat 32)).or ⟨0, segment.setWidth 64⟩).toNat =
      (address.toNat * 2 ^ 32 + segment.toNat) % 2 ^ 128 := by
  have hsegment : (⟨0, segment.setWidth 64⟩ : Uint128).toNat = segment.toNat := by
    have hlt := segment.isLt
    simp only [toNat, BitVec.toNat_setWidth, BitVec.reduceToNat]
    omega
  have hshift : address.toNat * 2 ^ 32 % 2 ^ 128 = (address.toNat % 2 ^ 96) <<< 32 := by
    rw [Nat.shiftLeft_eq]
    omega
  have hor := BitVec.toNat_or (address.shl (ofNat 32)).toBitVec
    (⟨0, segment.setWidth 64⟩ : Uint128).toBitVec
  rw [← toBitVec_or, toNat_toBitVec, toNat_toBitVec, toNat_toBitVec, toNat_shl,
    toNat_ofNat (by decide), hsegment, hshift,
    ← Nat.shiftLeft_add_eq_or_of_lt segment.isLt, Nat.shiftLeft_eq] at hor
  have hlt := segment.isLt
  rw [hor]
  omega

theorem toNat_ofSegments (segments : List (BitVec 32)) :
    (ofSegments segments).toNat = addressOf segments % 2 ^ 128 := by
  have hloop (address : Uint128) (n : ℕ) (h : address.toNat = n % 2 ^ 128) :
      (segments.foldl (fun address segment =>
        (address.shl (ofNat 32)).or ⟨0, segment.setWidth 64⟩) address).toNat =
      segments.foldl (fun address segment => address * 2 ^ 32 + segment.toNat) n % 2 ^ 128 := by
    induction segments generalizing address n with
    | nil => exact h
    | cons segment segments ih =>
      apply ih
      rw [toNat_shl_or, h]
      show _ = (n * 2 ^ 32 + segment.toNat) % 2 ^ 128
      omega
  exact hloop zero 0 rfl

theorem toBitVec_ofSegments (segments : List (BitVec 32)) :
    (ofSegments segments).toBitVec = BitVec.ofNat 128 (addressOf segments) := by
  apply BitVec.eq_of_toNat_eq
  rw [BitVec.toNat_ofNat, toNat_toBitVec, toNat_ofSegments]

/-- The segments of an address, the first one first. -/
def networkOrder (address : BitVec 128) : List (BitVec 32) :=
  [(address >>> 96).setWidth 32, (address >>> 64).setWidth 32, (address >>> 32).setWidth 32,
    address.setWidth 32]

theorem setWidth_lower (address : Uint128) :
    address.lower.setWidth 32 = address.toBitVec.setWidth 32 := by
  apply BitVec.eq_of_toNat_eq
  rw [BitVec.toNat_setWidth, BitVec.toNat_setWidth, toNat_toBitVec, toNat]
  omega

theorem segments_eq (address : Uint128) : segments address = networkOrder address.toBitVec := by
  have hshift (n : ℕ) (b : BitVec 128) : b >>> n >>> (ofNat 32).toNat = b >>> (n + 32) :=
    (BitVec.shiftRight_add b n 32).symm
  simp only [segments, segmentsLoop, setWidth_lower, toBitVec_shr]
  rw [networkOrder, ← BitVec.shiftRight_add, ← BitVec.shiftRight_add]
  rfl

theorem addressOf_networkOrder (address : BitVec 128) :
    addressOf (networkOrder address) = address.toNat := by
  have hlt := address.isLt
  simp only [addressOf, networkOrder, List.foldl_cons, List.foldl_nil, BitVec.toNat_setWidth,
    BitVec.toNat_ushiftRight, Nat.shiftRight_eq_div_pow]
  omega

theorem networkOrder_addressOf (s₀ s₁ s₂ s₃ : BitVec 32) :
    networkOrder (BitVec.ofNat 128 (addressOf [s₀, s₁, s₂, s₃])) = [s₀, s₁, s₂, s₃] := by
  have h₀ := s₀.isLt
  have h₁ := s₁.isLt
  have h₂ := s₂.isLt
  have h₃ := s₃.isLt
  simp only [addressOf, networkOrder, List.foldl_cons, List.foldl_nil, List.cons.injEq, and_true,
    ← BitVec.toNat_inj, BitVec.toNat_setWidth, BitVec.toNat_ushiftRight,
    Nat.shiftRight_eq_div_pow, BitVec.toNat_ofNat]
  omega

/-- **An address is encoded as it was decoded**: no segment is lost, swapped or mixed with
another. -/
theorem segments_ofSegments :
    (∀ s₀ s₁ s₂ s₃ : BitVec 32, segments (ofSegments [s₀, s₁, s₂, s₃]) = [s₀, s₁, s₂, s₃]) ∧
      ∀ address, ofSegments (segments address) = address := by
  constructor
  · intro s₀ s₁ s₂ s₃
    rw [segments_eq, toBitVec_ofSegments, networkOrder_addressOf]
  · intro address
    rw [← toBitVec_inj, toBitVec_ofSegments, segments_eq, addressOf_networkOrder,
      BitVec.ofNat_toNat, BitVec.setWidth_eq]

/-- The system library on the segments, as one on integers of 128 bits. -/
def inetPton (decodeIpv4Address : String → Option (BitVec 32))
    (pton : String → Option (List (BitVec 32))) : InetPton where
  decodeIpv4Address := decodeIpv4Address
  decodeIpv6Address text := (pton text).map fun segments => BitVec.ofNat 128 (addressOf segments)

/-- The functions of the system that print addresses.  That of IPv6 is given four words in the order
of the network. -/
def inetNtop (encodeIpv4Address : BitVec 32 → Option String)
    (ntop : List (BitVec 32) → Option String) : InetNtop where
  encodeIpv4Address := encodeIpv4Address
  encodeIpv6Address address := ntop (networkOrder address)

section

variable (ipv4 : String → Option (BitVec 32)) (pton : String → Option (List (BitVec 32)))

theorem decodeIpv6Address_eq (text : String) :
    (inetPton ipv4 pton).decodeIpv6Address text = (decodeIpv6Address pton text).map toBitVec := by
  simp only [inetPton, decodeIpv6Address, Option.map_map, ← toBitVec_ofSegments]
  rfl

theorem toBitVec_mask (nbits : ℕ) : (mask nbits).toBitVec = prefixMask 128 nbits := by
  have hones : allOnes.toBitVec = BitVec.allOnes 128 := by decide
  rw [mask, prefixMask]
  split
  · next h => rw [toBitVec_not, toBitVec_shr, toNat_ofNat (h.trans (by decide)), hones]
  · exact hones

/-- **The parser over halves is the parser over integers of 128 bits**: the same texts are
refused with the same errors, and the same bounds are found. -/
theorem decodeNetworkAddress_exact (addr : String) (strict : Bool) :
    (decodeNetworkAddress pton addr strict).map
        (fun address => (address.1, address.2.1.toBitVec, address.2.2.toBitVec)) =
      (decodeIpv6NetworkAddress (inetPton ipv4 pton) addr strict).map
        fun address => (address.type, address.lower, address.upper) := by
  have hgt (a b : Uint128) : a.gt b = true ↔ a.toBitVec > b.toBitVec := by
    rw [gt_eq]
    exact lt_iff_toBitVec b a
  rw [decodeNetworkAddress, decodeIpv6NetworkAddress, RulesAnalyzer.decodeNetworkAddress]
  generalize split addr '/' = blocks
  generalize split addr '-' = bounds
  -- a block: an address, a slash and a number of bits
  split
  · rcases blocks with _ | ⟨first, _ | ⟨second, _ | ⟨third, rest⟩⟩⟩
    · rfl
    · rfl
    · simp only [decodeIpv6Address_eq, decodeIpv6Mask]
      rcases decodeIpv6Address pton first with _ | network
      · rfl
      rcases str2num second 0 128 with _ | nbits
      · rfl
      have hstrict : (strict && !(network.and (mask nbits.toNat)).equ network) = true ↔
          strict = true ∧ network.toBitVec &&& prefixMask 128 nbits.toNat ≠ network.toBitVec := by
        rw [Bool.and_eq_true, Bool.not_eq_true', ← Bool.not_eq_true, equ_iff, ← toBitVec_inj,
          toBitVec_and, toBitVec_mask]
      have hupper : (network.add (mask nbits.toNat).not).toBitVec =
          network.toBitVec + ~~~prefixMask 128 nbits.toNat := by
        rw [toBitVec_add, toBitVec_not, toBitVec_mask]
      simp only [Option.map_some, hstrict, lt_iff_toBitVec, hgt, hupper]
      by_cases hbits : strict = true ∧
          network.toBitVec &&& prefixMask 128 nbits.toNat ≠ network.toBitVec
      · rw [if_pos hbits, if_pos hbits]
        rfl
      rw [if_neg hbits, if_neg hbits]
      by_cases horder :
          network.toBitVec + ~~~prefixMask 128 nbits.toNat < network.toBitVec
      · rw [if_pos horder, dif_pos horder]
        rfl
      · rw [if_neg horder, dif_neg horder]
        simp only [Except.map, hupper]
    · rfl
  -- a range: two addresses
  split
  · rcases bounds with _ | ⟨first, _ | ⟨second, _ | ⟨third, rest⟩⟩⟩
    · rfl
    · rfl
    · simp only [decodeIpv6Address_eq]
      rcases decodeIpv6Address pton first with _ | lower
      · rfl
      rcases decodeIpv6Address pton second with _ | upper
      · rfl
      simp only [Option.map_some, hgt]
      by_cases horder : lower.toBitVec > upper.toBitVec
      · rw [if_pos horder, dif_pos horder]
        rfl
      · rw [if_neg horder, dif_neg horder]
        rfl
    · rfl
  · -- a single address
    rw [decodeIpv6Address_eq]
    cases decodeIpv6Address pton addr <;> rfl

end

theorem bitCountLoop_eq (fuel : ℕ) (value : Uint128) (count : ℕ) :
    bitCountLoop fuel value count = RulesAnalyzer.bitCountLoop fuel value.toNat count := by
  induction fuel generalizing value count with
  | zero => rfl
  | succ fuel ih =>
    have hzero : value = zero ↔ value.toNat = 0 := by rw [← toNat_inj, toNat_zero]
    have hbit : (value.lower &&& 1 ≠ 0) ↔ value.toNat &&& 1 = 1 := by
      have hand : (value.lower &&& 1).toNat = value.lower.toNat % 2 := by
        rw [BitVec.toNat_and]
        exact Nat.and_one_is_mod _
      rw [Nat.and_one_is_mod, Ne, BitVec.toNat_eq, hand, toNat]
      simp only [BitVec.reduceToNat]
      omega
    have hshift : (value.shr one).toNat = value.toNat >>> 1 := by
      rw [toNat_shr, toNat_one, Nat.shiftRight_eq_div_pow]
    simp only [bitCountLoop, RulesAnalyzer.bitCountLoop, hzero, hbit, ih, hshift]

/-- **The printer over halves is the printer over integers of 128 bits.**  Every test that it
makes and every part that it prints is the same. -/
theorem toText_exact (ipv4 : BitVec 32 → Option String) (ntop : List (BitVec 32) → Option String)
    (lbound ubound : Uint128) (h : lbound.toNat ≤ ubound.toNat) :
    toText ntop lbound ubound =
      Ipv6Range.toText (inetNtop ipv4 ntop)
        ⟨⟨lbound.toNat, ubound.toNat, h, ubound.toNat_lt⟩, false, nofun⟩ := by
  set range : Range 128 := ⟨lbound.toNat, ubound.toNat, h, ubound.toNat_lt⟩ with hrange
  have hnumber (a : Uint128) : BitVec.ofNat 128 a.toNat = a.toBitVec := by
    rw [← toNat_toBitVec, BitVec.ofNat_toNat, BitVec.setWidth_eq]
  have hlower : ntop (segments lbound) = ntop (networkOrder range.lower) := by
    rw [segments_eq, Range.lower, hnumber]
  have hupper : ntop (segments ubound) = ntop (networkOrder range.upper) := by
    rw [segments_eq, Range.upper, hnumber]
  have hdiff : (ubound.sub lbound).toNat = range.diff := toNat_sub h
  have hsingleton : lbound.equ ubound = range.isSingleton := by
    rw [Bool.eq_iff_iff, equ_iff, ← toNat_inj, Range.isSingleton, beq_iff_eq]
  have hpower : RangeImpl.isPowerOf2 lbound ubound = range.isPowerOf2 :=
    RangeImpl.isPowerOf2_eq (T := Uint128) h
  have hbits : 128 - bitCountLoop 128 (ubound.sub lbound) 0 = range.prefixLength := by
    rw [bitCountLoop_eq, hdiff]
    rfl
  have hsmall : (ubound.sub lbound).lt (ofNat 1024) = true ↔ range.diff < 1024 := by
    rw [lt_iff, hdiff, toNat_ofNat (by decide)]
  -- every test and every part of the text is the same on both sides
  rw [Ipv6Range.toText, dif_neg Bool.false_ne_true, Range.toText, toText]
  simp only [hlower, hupper, hsingleton, hpower, hbits, hsmall]
  show _ = match ntop (networkOrder range.lower) with
    | none => _
    | some lowAddress => _
  rcases ntop (networkOrder range.lower) with _ | lowAddress
  · rfl
  simp only
  split
  · rfl
  split
  · rfl
  split
  · next hlt =>
    rw [(lower_lt (by omega)).2, hdiff]
  · rfl

theorem toText_exact_block :
    zero.toNat ≤ (ofNat 3).toNat ∧
      toText (fun _ => some "::") zero (ofNat 3) =
        Ipv6Range.toText (inetNtop (fun _ => none) fun _ => some "::")
          ⟨⟨0, (ofNat 3).toNat, Nat.zero_le _, (ofNat 3).toNat_lt⟩, false, nofun⟩ :=
  ⟨by decide, toText_exact _ _ zero (ofNat 3) (by decide)⟩

end Uint128

end RulesAnalyzer
