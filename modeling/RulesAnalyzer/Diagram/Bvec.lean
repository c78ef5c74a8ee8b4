import RulesAnalyzer.Diagram.Apply
import Mathlib.Data.List.Forall2
import Mathlib.Order.Fin.Basic
import Mathlib.Tactic.Ring
import Mathlib.Tactic.NormNum

/-!
# Vectors of decision diagrams

A vector of diagrams, least significant bit first, is a natural number that
depends on the assignment.  Constants, blocks of consecutive variables and the
two comparisons of such vectors are loops over their bits; the loops run from
the least significant bit up, so that the last bit compared decides first.

## Main definitions

* `Bvec`, `Bvec.value` — vectors, and the number they denote at an assignment.
* `bvecCon`, `bvecCon128`, `bvecVar` — constants and blocks of variables.
* `bvecEqu`, `bvecLte` — the comparisons.

## Main results

* `Bvec.value_bvecCon`, `Bvec.value_bvecCon128` — constants denote themselves.
* `mem_bvecEqu`, `mem_bvecLte` — the comparisons compare the denoted numbers.
* `Bvec.value_eq_iff` — the number determines the bits.
-/

namespace Diagram

/-- A vector of diagrams, least significant bit first. -/
abbrev Bvec (V : Type*) [LinearOrder V] := List (Bdd V)

variable {V : Type*} [LinearOrder V]

/-- A constant bit. -/
def bddConst (b : Bool) : Bdd V := if b then bddTrue else bddFalse

/-- The `bitnum` low bits of `val`. -/
def bvecCon : ℕ → ℕ → Bvec V
  | 0, _ => []
  | bitnum + 1, val => bddConst (val % 2 = 1) :: bvecCon bitnum (val / 2)

/-- The `bitnum` low bits of a number given by its two 64 bit halves. -/
def bvecCon128 (bitnum low64 high64 : ℕ) : Bvec V :=
  bvecCon (min 64 bitnum) low64 ++ bvecCon (bitnum - 64) high64

/-- The diagram of the variable numbered `var`; constant false when there is no such variable. -/
def bddIthvar {n : ℕ} (var : ℕ) : Bdd (Fin n) := if h : var < n then ithVar ⟨var, h⟩ else bddFalse

/-- The variables numbered `offset`, `offset + step`, … -/
def bvecVar {n : ℕ} (bitnum offset step : ℕ) : Bvec (Fin n) :=
  (List.range bitnum).map fun i => bddIthvar (offset + i * step)

/-- One round of the equality loop. -/
def equStep (p : Bdd V) (bits : Bdd V × Bdd V) : Bdd V := bddAnd (bddBiimp bits.1 bits.2) p

/-- One round of the order loop. -/
def lteStep (p : Bdd V) (bits : Bdd V × Bdd V) : Bdd V :=
  bddOr (bddLess bits.1 bits.2) (bddAnd (bddBiimp bits.1 bits.2) p)

/-- `l = r`.  Vectors of different sizes are an error, after which the initial value is
returned. -/
def bvecEqu (l r : Bvec V) : Bdd V :=
  if l.length = 0 ∨ r.length = 0 then bddFalse
  else if l.length ≠ r.length then bddTrue
  else (l.zip r).foldl equStep bddTrue

/-- `l ≤ r`, with the same treatment of sizes. -/
def bvecLte (l r : Bvec V) : Bdd V :=
  if l.length = 0 ∨ r.length = 0 then bddFalse
  else if l.length ≠ r.length then bddTrue
  else (l.zip r).foldl lteStep bddTrue

/-- The number a vector denotes at an assignment. -/
def Bvec.value (σ : V → Bool) : Bvec V → ℕ
  | [] => 0
  | b :: bs => (decide (σ ∈ b)).toNat + 2 * Bvec.value σ bs

namespace Bvec

variable {σ τ : V → Bool}

@[simp] theorem value_nil : value σ ([] : Bvec V) = 0 := rfl

@[simp] theorem value_cons (b : Bdd V) (bs : Bvec V) :
    value σ (b :: bs) = (decide (σ ∈ b)).toNat + 2 * value σ bs := rfl

theorem value_lt (l : Bvec V) : value σ l < 2 ^ l.length := by
  induction l with
  | nil => simp
  | cons b bs ih =>
    have hb := Bool.toNat_le (decide (σ ∈ b))
    rw [value_cons, List.length_cons, pow_succ]
    omega

theorem value_append (l r : Bvec V) :
    value σ (l ++ r) = value σ l + 2 ^ l.length * value σ r := by
  induction l with
  | nil => simp
  | cons b bs ih =>
    rw [List.cons_append, value_cons, value_cons, ih, List.length_cons, pow_succ]
    ring

/-- Vectors whose bits agree denote the same number. -/
theorem value_congr {l r : Bvec V} (h : List.Forall₂ (fun a b => (σ ∈ a ↔ τ ∈ b)) l r) :
    value σ l = value τ r := by
  induction h with
  | nil => rfl
  | cons hab _ ih => simp only [value_cons, ih, hab]

/-- **The number determines the bits.** -/
theorem value_eq_iff {l : Bvec V} : value σ l = value τ l ↔ ∀ b ∈ l, (σ ∈ b ↔ τ ∈ b) := by
  constructor
  · intro h
    induction l with
    | nil => simp
    | cons b bs ih =>
      rw [value_cons, value_cons] at h
      have hσ := Bool.toNat_le (decide (σ ∈ b))
      have hτ := Bool.toNat_le (decide (τ ∈ b))
      have hb : (decide (σ ∈ b)).toNat = (decide (τ ∈ b)).toNat := by omega
      intro c hc
      rcases List.mem_cons.mp hc with rfl | hc
      · by_cases h1 : σ ∈ c <;> by_cases h2 : τ ∈ c <;> simp_all
      · exact ih (by omega) c hc
  · exact fun h => value_congr (List.forall₂_same.mpr h)

/-! ### Constants -/

theorem mem_bddConst {b : Bool} : σ ∈ bddConst b ↔ b = true := by
  cases b <;> simp [bddConst]

@[simp] theorem length_bvecCon (bitnum val : ℕ) :
    (bvecCon bitnum val : Bvec V).length = bitnum := by
  induction bitnum generalizing val with
  | zero => rfl
  | succ bitnum ih => simp [bvecCon, ih]

theorem value_bvecCon_mod (bitnum val : ℕ) : value σ (bvecCon bitnum val) = val % 2 ^ bitnum := by
  induction bitnum generalizing val with
  | zero => simp [bvecCon, Nat.mod_one]
  | succ bitnum ih =>
    rw [bvecCon, value_cons, ih, pow_succ', Nat.mod_mul]
    congr 1
    rw [show decide (σ ∈ bddConst (decide (val % 2 = 1))) = decide (val % 2 = 1) by
      rw [decide_eq_decide, mem_bddConst, decide_eq_true_eq]]
    rcases Nat.mod_two_eq_zero_or_one val with h | h <;> simp [h]

theorem value_bvecCon {bitnum val : ℕ} (h : val < 2 ^ bitnum) :
    value σ (bvecCon bitnum val) = val := by
  rw [value_bvecCon_mod, Nat.mod_eq_of_lt h]

@[simp] theorem length_bvecCon128 (bitnum low64 high64 : ℕ) :
    (bvecCon128 bitnum low64 high64 : Bvec V).length = bitnum := by
  simp only [bvecCon128, List.length_append, length_bvecCon]
  omega

/-- Two halves denote the number they are the halves of. -/
theorem value_bvecCon128 {val : ℕ} (h : val < 2 ^ 128) :
    value σ (bvecCon128 128 (val % 2 ^ 64) (val / 2 ^ 64)) = val := by
  have hlo : val % 2 ^ 64 < 2 ^ 64 := Nat.mod_lt _ (by norm_num)
  have hhi : val / 2 ^ 64 < 2 ^ (128 - 64) := by
    rw [Nat.div_lt_iff_lt_mul (by norm_num)]
    exact h
  rw [bvecCon128, value_append, length_bvecCon, value_bvecCon hhi,
    value_bvecCon (by simpa using hlo)]
  exact Nat.mod_add_div val (2 ^ 64)

/-! ### Blocks of variables -/

@[simp] theorem length_bvecVar {n : ℕ} (bitnum offset step : ℕ) :
    (bvecVar bitnum offset step : Bvec (Fin n)).length = bitnum := by simp [bvecVar]

theorem mem_bddIthvar {n : ℕ} {σ : Fin n → Bool} {var : ℕ} (h : var < n) :
    σ ∈ bddIthvar var ↔ σ ⟨var, h⟩ = true := by
  rw [bddIthvar, dif_pos h, mem_ithVar]

theorem bvecVar_succ {n : ℕ} (bitnum offset step : ℕ) :
    (bvecVar (bitnum + 1) offset step : Bvec (Fin n)) =
      bddIthvar offset :: bvecVar bitnum (offset + step) step := by
  rw [bvecVar, List.range_succ_eq_map, List.map_cons, List.map_map, bvecVar]
  congr 1
  · simp
  · refine List.map_congr_left fun i _ => ?_
    rw [Function.comp_apply, Nat.succ_mul, Nat.add_right_comm, Nat.add_assoc]

/-- A block of variables that hold the bits of `val` denotes `val`. -/
theorem value_bvecVar {n : ℕ} {σ : Fin n → Bool} {bitnum offset val : ℕ}
    (hn : offset + bitnum ≤ n)
    (h : ∀ i (hi : i < bitnum), σ ⟨offset + i, by omega⟩ = val.testBit i) :
    value σ (bvecVar bitnum offset 1) = val % 2 ^ bitnum := by
  rw [← @value_bvecCon_mod _ _ σ]
  refine value_congr ?_
  induction bitnum generalizing offset val with
  | zero => exact List.Forall₂.nil
  | succ bitnum ih =>
    rw [bvecVar_succ, bvecCon]
    refine List.Forall₂.cons ?_ (ih (by omega) fun i hi => ?_)
    · have h0 := h 0 (by omega)
      rw [mem_bddIthvar (by omega), mem_bddConst, decide_eq_true_eq]
      simp only [Nat.add_zero] at h0
      rw [h0, Nat.testBit_zero, decide_eq_true_eq]
    · have hs := h (i + 1) (by omega)
      rw [Nat.testBit_succ] at hs
      rw [← hs]
      congr 2
      omega

/-- A block of variables denotes the same number at two assignments exactly when they
agree on the block. -/
theorem value_bvecVar_eq_iff {n : ℕ} {σ τ : Fin n → Bool} {bitnum offset : ℕ}
    (hn : offset + bitnum ≤ n) :
    value σ (bvecVar bitnum offset 1) = value τ (bvecVar bitnum offset 1) ↔
      ∀ i (hi : i < bitnum), σ ⟨offset + i, by omega⟩ = τ ⟨offset + i, by omega⟩ := by
  rw [value_eq_iff]
  simp only [bvecVar, List.mem_map, List.mem_range, forall_exists_index, and_imp,
    forall_apply_eq_imp_iff₂, mul_one]
  refine forall₂_congr fun i hi => ?_
  rw [mem_bddIthvar (by omega), mem_bddIthvar (by omega)]
  exact Bool.eq_iff_iff.symm

end Bvec

/-! ### Comparisons -/

variable {σ : V → Bool}

/-- The equality loop from an initial value `p`. -/
theorem mem_foldl_equStep {l r : Bvec V} (h : l.length = r.length) (p : Bdd V) :
    σ ∈ (l.zip r).foldl equStep p ↔ Bvec.value σ l = Bvec.value σ r ∧ σ ∈ p := by
  induction l generalizing r p with
  | nil =>
    obtain rfl : r = [] := List.length_eq_zero_iff.mp h.symm
    simp
  | cons a l ih =>
    cases r with
    | nil => simp at h
    | cons b r =>
      rw [List.zip_cons_cons, List.foldl_cons, ih (by simpa using h)]
      simp only [equStep, mem_bddAnd, mem_bddBiimp, Bvec.value_cons]
      by_cases ha : σ ∈ a <;> by_cases hb : σ ∈ b <;> simp [ha, hb] <;> omega

/-- The order loop from an initial value `p`: a higher bit overrules the lower ones. -/
theorem mem_foldl_lteStep {l r : Bvec V} (h : l.length = r.length) (p : Bdd V) :
    σ ∈ (l.zip r).foldl lteStep p ↔
      Bvec.value σ l < Bvec.value σ r ∨ Bvec.value σ l = Bvec.value σ r ∧ σ ∈ p := by
  induction l generalizing r p with
  | nil =>
    obtain rfl : r = [] := List.length_eq_zero_iff.mp h.symm
    simp
  | cons a l ih =>
    cases r with
    | nil => simp at h
    | cons b r =>
      rw [List.zip_cons_cons, List.foldl_cons, ih (by simpa using h)]
      simp only [lteStep, mem_bddOr, mem_bddLess, mem_bddAnd, mem_bddBiimp, Bvec.value_cons]
      by_cases ha : σ ∈ a <;> by_cases hb : σ ∈ b <;> simp [ha, hb] <;> omega

/-- **The equality test compares the denoted numbers.** -/
theorem mem_bvecEqu {l r : Bvec V} (h : l.length = r.length) (hpos : 0 < l.length) :
    σ ∈ bvecEqu l r ↔ Bvec.value σ l = Bvec.value σ r := by
  rw [bvecEqu, if_neg (by omega), if_neg (by simpa using h), mem_foldl_equStep h]
  simp

/-- **The order test compares the denoted numbers.** -/
theorem mem_bvecLte {l r : Bvec V} (h : l.length = r.length) (hpos : 0 < l.length) :
    σ ∈ bvecLte l r ↔ Bvec.value σ l ≤ Bvec.value σ r := by
  rw [bvecLte, if_neg (by omega), if_neg (by simpa using h), mem_foldl_lteStep h]
  simp [le_iff_lt_or_eq]

end Diagram
