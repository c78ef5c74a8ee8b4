import RulesAnalyzer.Buddy.Initial
import RulesAnalyzer.Diagram.Bvec
import Mathlib.Algebra.Order.Pi
import Mathlib.Tactic.Abel

/-!
# Bit vectors

A vector is an array of roots that owns a reference to each of them.  The
comparisons are loops over the bits; every temporary is referred to while the next
one is computed, since any operator may collect garbage, and released at the end of
the round.  The result has no reference yet when it is returned.

Constants and the nodes of variables need no references, so the constructors from
them count none.

## Main definitions

* `bvecCon`, `bvecCon128`, `bvecVar` — constants and variables.
* `bvecCopy`, `bvecDelref`, `bvecFree` — the references of a vector.
* `bvecEqu`, `bvecLte` — the comparisons.

## Main results

* `wp_bvecCopy`, `wp_bvecFree` — a copy owns its references, and gives them back.
* `wp_bvecEqu`, `wp_bvecLte` — **the comparisons refine the ones on diagrams**, and leave
  no reference behind.
-/

namespace RulesAnalyzer.Buddy

open Effect Diagram

/-! ### Constructors -/

/-- Allocates a vector whose bits are all the same constant. -/
def bvecBuild (env : Environment) (bitnum : ℕ) (isTrue : Bool) : KernelM Kernel (List ℕ) :=
  if env.malloc bitnum = false then throw .memory
  else pure (List.replicate bitnum isTrue.toNat)

/-- The low bits of a number, as constants. -/
def conBits : ℕ → ℕ → List ℕ
  | 0, _ => []
  | bitnum + 1, val => val % 2 :: conBits bitnum (val / 2)

/-- The vector of a constant.  Bits above the vector's width are dropped, without an error. -/
def bvecCon (env : Environment) (bitnum val : ℕ) : KernelM Kernel (List ℕ) := do
  let v ← bvecBuild env bitnum false
  return if val ≠ 0 then conBits bitnum val else v

/-- A number that is given by its two halves. -/
def bvecCon128 (env : Environment) (bitnum low64 high64 : ℕ) : KernelM Kernel (List ℕ) := do
  let v ← bvecBuild env bitnum false
  let v := if low64 ≠ 0 then conBits (min 64 bitnum) low64 ++ v.drop 64 else v
  return if high64 ≠ 0 then v.take 64 ++ conBits (bitnum - 64) high64 else v

/-- A vector of variables, `step` apart from each other, from the variable `offset` on. -/
def bvecVar (env : Environment) (bitnum offset step : ℕ) : KernelM Kernel (List ℕ) := do
  let _ ← bvecBuild env bitnum false
  (List.range bitnum).mapM fun n => bddIthvar (offset + n * step)

/-! ### References -/

/-- Releases every bit of a vector. -/
def bvecDelref (v : List ℕ) : KernelM Kernel PUnit := v.forM fun root => do
  let _ ← bddDelref root
  return ⟨⟩

/-- A copy of a vector, whose bits are referenced once more.  An empty vector is copied without an
allocation. -/
def bvecCopy (env : Environment) (src : List ℕ) : KernelM Kernel (List ℕ) :=
  if src.length = 0 then pure []
  else do
    let _ ← bvecBuild env src.length false
    src.mapM bddAddref

/-- Ends the life of a vector: its bits lose the reference that the vector held. -/
def bvecFree (v : List ℕ) : KernelM Kernel PUnit := bvecDelref v

/-! ### Comparisons -/

/-- A round of the loop of `bvec_equ`. -/
def equRound (env : Environment) (p : ℕ) (bits : ℕ × ℕ) : KernelM Kernel ℕ := do
  let tmp1 ← bddAddref (← bddApply env bits.1 bits.2 .biimp)
  let tmp2 ← bddAddref (← bddApply env tmp1 p .and)
  let _ ← bddDelref tmp1
  let _ ← bddDelref p
  return tmp2

/-- A round of the loop of `bvec_lte`. -/
def lteRound (env : Environment) (p : ℕ) (bits : ℕ × ℕ) : KernelM Kernel ℕ := do
  let tmp1 ← bddAddref (← bddApply env bits.1 bits.2 .less)
  let tmp2 ← bddAddref (← bddApply env bits.1 bits.2 .biimp)
  let tmp3 ← bddAddref (← bddApply env tmp2 p .and)
  let tmp4 ← bddAddref (← bddApply env tmp1 tmp3 .or)
  let _ ← bddDelref tmp1
  let _ ← bddDelref tmp2
  let _ ← bddDelref tmp3
  let _ ← bddDelref p
  return tmp4

/-- A comparison of two vectors, from the least significant bit up. -/
def bvecCompare (round : ℕ → ℕ × ℕ → KernelM Kernel ℕ) (l r : List ℕ) : KernelM Kernel ℕ :=
  if l.length = 0 ∨ r.length = 0 then pure 0
  else if l.length ≠ r.length then throw .bvecSize
  else do
    let p ← (l.zip r).foldlM round 1
    bddDelref p

/-- The diagram of "both vectors are equal". -/
def bvecEqu (env : Environment) : List ℕ → List ℕ → KernelM Kernel ℕ := bvecCompare (equRound env)

/-- The diagram of "the left vector is at most the right one", as unsigned numbers. -/
def bvecLte (env : Environment) : List ℕ → List ℕ → KernelM Kernel ℕ := bvecCompare (lteRound env)

variable {N : ℕ} {k k' : Kernel} {env : Environment} {c : ℕ → ℕ} {E : BddError → Kernel → Prop}

/-! ### The references of a vector -/

/-- The number of bits with a root. -/
def bitReferences (v : List ℕ) (n : ℕ) : ℕ := v.count n

theorem bitReferences_cons (root : ℕ) (v : List ℕ) :
    bitReferences (root :: v) = bitReferences v + Pi.single root 1 := by
  funext n
  rw [bitReferences, List.count_cons, Pi.add_apply, Pi.single_apply, bitReferences]
  simp only [beq_iff_eq, @eq_comm _ n]

/-- The bits are the nodes of the diagrams. -/
def Bits (N : ℕ) (k : Kernel) (v : List ℕ) (bits : Bvec (Fin N)) : Prop :=
  List.Forall₂ (fun n a => Denotes k.nodes n (a : Bdd (Fin N)).tree) v bits

theorem Bits.spared {v : List ℕ} {bits : Bvec (Fin N)} (h : Bits N k v bits)
    (hspares : Spares N c k k') (hv : ∀ n ∈ v, 0 < c n) : Bits N k' v bits := by
  refine ((List.forall₂_and_left _ _).mpr ⟨hv, h⟩).imp ?_
  rintro n a ⟨hn, hden⟩
  exact hspares.denotes hn hden

theorem Bits.recounted {v : List ℕ} {bits : Bvec (Fin N)} (h : Bits N k v bits)
    (hsame : Recounted k k') : Bits N k' v bits :=
  h.imp fun _ _ hden => hsame.denotes hden

/-- The references of all bits are given back. -/
theorem wp_bvecDelref {v : List ℕ} {bits : Bvec (Fin N)} (h : Owned N (c + bitReferences v) k)
    (hv : Bits N k v bits) :
    Wp (bvecDelref v) (fun _ k' => Owned N c k' ∧ Recounted k k') E k := by
  induction v generalizing bits k c with
  | nil => exact ⟨h, .refl k⟩
  | cons root v ih =>
    obtain ⟨a, bits, hroot, hrest, rfl⟩ := List.forall₂_cons_left_iff.mp hv
    rw [bvecDelref, List.forM, wp_bind, wp_bind]
    rw [bitReferences_cons, ← add_assoc] at h
    refine (wp_bddDelref h hroot).imp ?_
    rintro _ k₁ ⟨-, h₁, hsame₁⟩
    rw [wp_pure]
    refine (ih h₁ (Bits.recounted hrest hsame₁)).imp ?_
    rintro _ k₂ ⟨h₂, hsame₂⟩
    exact ⟨h₂, hsame₁.trans hsame₂⟩

theorem wp_bvecFree {v : List ℕ} {bits : Bvec (Fin N)} (h : Owned N (c + bitReferences v) k)
    (hv : Bits N k v bits) :
    Wp (bvecFree v) (fun _ k' => Owned N c k' ∧ Recounted k k') E k :=
  wp_bvecDelref h hv

/-- A copy is a vector of the same roots. -/
theorem wp_mapM_bddAddref {v : List ℕ} {bits : Bvec (Fin N)} (h : Owned N c k)
    (hv : Bits N k v bits) :
    Wp (v.mapM bddAddref) (fun res k' => res = v ∧ Owned N (c + bitReferences v) k' ∧
      Recounted k k') E k := by
  induction v generalizing bits k c with
  | nil => exact ⟨rfl, h, .refl k⟩
  | cons root v ih =>
    obtain ⟨a, bits, hroot, hrest, rfl⟩ := List.forall₂_cons_left_iff.mp hv
    rw [List.mapM_cons, wp_bind]
    refine (wp_bddAddref h hroot).imp ?_
    rintro _ k₁ ⟨rfl, h₁, hsame₁⟩
    rw [wp_bind]
    refine (ih h₁ (Bits.recounted hrest hsame₁)).imp ?_
    rintro _ k₂ ⟨rfl, h₂, hsame₂⟩
    rw [wp_pure, bitReferences_cons, add_comm (bitReferences _), ← add_assoc]
    exact ⟨rfl, h₂, hsame₁.trans hsame₂⟩

theorem wp_bvecBuild {bitnum : ℕ} {b : Bool} {Q : List ℕ → Kernel → Prop}
    (hQ : Q (List.replicate bitnum b.toNat) k) : Wp (bvecBuild env bitnum b) Q Stops k :=
  wp_ite (fun _ => .inl rfl) fun _ => hQ

/-- **A copy owns its references.** -/
theorem wp_bvecCopy {v : List ℕ} {bits : Bvec (Fin N)} (h : Owned N c k) (hv : Bits N k v bits) :
    Wp (bvecCopy env v) (fun res k' => res = v ∧ Owned N (c + bitReferences v) k' ∧
      Recounted k k') Stops k := by
  refine wp_ite (fun hnil => ?_) fun _ => ?_
  · obtain rfl := List.length_eq_zero_iff.mp hnil
    exact ⟨rfl, h, .refl k⟩
  · rw [wp_bind]
    exact wp_bvecBuild (wp_mapM_bddAddref h hv)

/-! ### Constants and variables -/

/-- Bits that need no reference. -/
theorem Owned.free {v : List ℕ} (h : Owned N c k)
    (hv : ∀ n ∈ v, n < 2 ∨ (k.nodes n).refcou = maxref) : Owned N (c + bitReferences v) k := by
  refine ⟨h.toIdle, fun n hn => ?_⟩
  by_cases hmem : n ∈ v
  · exact .inl ((hv n hmem).resolve_left (by omega))
  · rw [Pi.add_apply, bitReferences, List.count_eq_zero.mpr hmem, add_zero]
    exact h.counted n hn

theorem tree_bddConst (b : Bool) : (bddConst b : Bdd (Fin N)).tree = .leaf b := by cases b <;> rfl

theorem bits_conBits (bitnum val : ℕ) :
    Bits N k (conBits bitnum val) (Diagram.bvecCon bitnum val) := by
  induction bitnum generalizing val with
  | zero => exact .nil
  | succ bitnum ih =>
    refine .cons ?_ (ih _)
    have hbit : val % 2 = (decide (val % 2 = 1)).toNat := by
      rcases Nat.mod_two_eq_zero_or_one val with h | h <;> simp [h]
    have hden := denotes_toNat (N := N) k.nodes (decide (val % 2 = 1))
    rwa [← hbit, ← tree_bddConst] at hden

theorem conBits_zero (bitnum : ℕ) : conBits bitnum 0 = List.replicate bitnum 0 := by
  induction bitnum with
  | zero => rfl
  | succ bitnum ih => rw [conBits, ih, List.replicate_succ]

theorem lt_two_of_mem_conBits {bitnum val n : ℕ} (hn : n ∈ conBits bitnum val) : n < 2 := by
  induction bitnum generalizing val with
  | zero => exact absurd hn List.not_mem_nil
  | succ bitnum ih =>
    rcases List.mem_cons.mp hn with rfl | hn
    · exact Nat.mod_lt _ (by omega)
    · exact ih hn

/-- **A constant vector.** -/
theorem wp_bvecCon (h : Owned N c k) (bitnum val : ℕ) :
    Wp (bvecCon env bitnum val) (fun v k' => k' = k ∧ Owned N (c + bitReferences v) k' ∧
      Bits N k' v (Diagram.bvecCon bitnum val)) Stops k := by
  rw [bvecCon, wp_bind]
  refine wp_bvecBuild ?_
  have hval : (if val ≠ 0 then conBits bitnum val else List.replicate bitnum false.toNat) =
      conBits bitnum val := by
    split
    · rfl
    · next h0 => rw [not_not.mp h0, conBits_zero]; rfl
  rw [wp_pure, hval]
  exact ⟨rfl, h.free fun n hn => .inl (lt_two_of_mem_conBits hn), bits_conBits _ _⟩

theorem length_conBits (bitnum val : ℕ) : (conBits bitnum val).length = bitnum := by
  induction bitnum generalizing val with
  | zero => rfl
  | succ bitnum ih => rw [conBits, List.length_cons, ih]

/-- The two halves of a vector of constants. -/
theorem halves_conBits (bitnum x y : ℕ) :
    (conBits (min 64 bitnum) x ++ conBits (bitnum - 64) y).take 64 = conBits (min 64 bitnum) x ∧
    (conBits (min 64 bitnum) x ++ conBits (bitnum - 64) y).drop 64 = conBits (bitnum - 64) y := by
  have hlength := length_conBits (min 64 bitnum) x
  rcases le_total 64 bitnum with hle | hle
  · rw [min_eq_left hle] at hlength ⊢
    exact ⟨List.take_left' hlength, List.drop_left' hlength⟩
  · have hnil : conBits (bitnum - 64) y = [] := by
      rw [Nat.sub_eq_zero_of_le hle]
      rfl
    rw [hnil, List.append_nil]
    exact ⟨List.take_of_length_le (by omega), List.drop_of_length_le (by omega)⟩

/-- **A constant vector of two halves.**  The vector starts with zeros, and a half that is zero
is not written. -/
theorem wp_bvecCon128 (h : Owned N c k) (bitnum low64 high64 : ℕ) :
    Wp (bvecCon128 env bitnum low64 high64) (fun v k' => k' = k ∧
      Owned N (c + bitReferences v) k' ∧
      Bits N k' v (Diagram.bvecCon128 bitnum low64 high64)) Stops k := by
  rw [bvecCon128, wp_bind]
  refine wp_bvecBuild ?_
  have hzero : List.replicate bitnum false.toNat =
      conBits (min 64 bitnum) 0 ++ conBits (bitnum - 64) 0 := by
    rw [conBits_zero, conBits_zero, List.replicate_append_replicate]
    congr 1
    omega
  -- a half that is zero is not written
  have hlow : (if low64 ≠ 0 then
      conBits (min 64 bitnum) low64 ++ (List.replicate bitnum false.toNat).drop 64
      else List.replicate bitnum false.toNat) =
      conBits (min 64 bitnum) low64 ++ conBits (bitnum - 64) 0 := by
    split
    · rw [hzero, (halves_conBits bitnum 0 0).2]
    · next h0 => rw [hzero, not_not.mp h0]
  have hhigh : ∀ v, v = conBits (min 64 bitnum) low64 ++ conBits (bitnum - 64) 0 →
      (if high64 ≠ 0 then v.take 64 ++ conBits (bitnum - 64) high64 else v) =
        conBits (min 64 bitnum) low64 ++ conBits (bitnum - 64) high64 := by
    rintro v rfl
    split
    · rw [(halves_conBits bitnum low64 0).1]
    · next h0 => rw [not_not.mp h0]
  rw [wp_pure, hhigh _ hlow]
  refine ⟨rfl, h.free fun n hn => .inl ?_, ?_⟩
  · exact (List.mem_append.mp hn).elim lt_two_of_mem_conBits lt_two_of_mem_conBits
  · exact List.rel_append (bits_conBits _ _) (bits_conBits _ _)

/-- **A vector of variables.** -/
theorem wp_bvecVar (h : Owned N c k) {bitnum offset step : ℕ}
    (hvars : ∀ i < bitnum, offset + i * step < N) :
    Wp (bvecVar env bitnum offset step) (fun v k' => k' = k ∧ Owned N (c + bitReferences v) k' ∧
      Bits N k' v (Diagram.bvecVar bitnum offset step)) Stops k := by
  have hloop : ∀ l : List ℕ, (∀ i ∈ l, offset + i * step < N) →
      Wp (l.mapM fun i => bddIthvar (offset + i * step)) (fun v k' => k' = k ∧
        (∀ n ∈ v, (k.nodes n).refcou = maxref) ∧
        Bits N k v (l.map fun i => Diagram.bddIthvar (offset + i * step))) Stops k := by
    intro l hl
    induction l with
    | nil => exact ⟨rfl, List.forall_mem_nil _, .nil⟩
    | cons i l ih =>
      obtain ⟨hi, hl⟩ := List.forall_mem_cons.mp hl
      rw [List.mapM_cons, wp_bind]
      refine h.wp_bddIthvar ⟨offset + i * step, hi⟩ fun n hn => ?_
      rw [wp_bind]
      refine (ih hl).imp ?_
      rintro v k' ⟨rfl, hfull, hbits⟩
      refine ⟨rfl, List.forall_mem_cons.mpr ⟨hn.refcou, hfull⟩, .cons ?_ hbits⟩
      have hvar : Diagram.bddIthvar (offset + i * step) = ithVar (⟨_, hi⟩ : Fin N) := dif_pos hi
      change Denotes k'.nodes n (Diagram.bddIthvar (offset + i * step)).tree
      rw [hvar]
      exact hn.denotes
  rw [bvecVar, wp_bind]
  refine wp_bvecBuild ((hloop _ fun i hi => hvars i (List.mem_range.mp hi)).imp ?_)
  rintro v k' ⟨rfl, hfull, hbits⟩
  exact ⟨rfl, h.free fun n hn => .inr (hfull n hn), hbits⟩

/-! ### Comparisons -/

theorem pos_add {n : ℕ} (h : 0 < c n) (d : ℕ → ℕ) : 0 < (c + d) n := Nat.add_pos_left h _

theorem pos_single (c : ℕ → ℕ) (n : ℕ) : 0 < (c + Pi.single n 1 : ℕ → ℕ) n := by
  rw [Pi.add_apply, Pi.single_eq_same]
  exact Nat.succ_pos _

theorem le_add (c d : ℕ → ℕ) : c ≤ c + d := fun _ => Nat.le_add_right _ _

/-- A temporary result with a reference. -/
theorem wp_temporary {op : BddOp} (hop : op ≠ .not) (h : Owned N c k) {l r : ℕ} {a b : Bdd (Fin N)}
    (hl : Held k l a.tree) (hr : Held k r b.tree) {β : Type} {f : ℕ → KernelM Kernel β}
    {Q : β → Kernel → Prop}
    (hf : ∀ n k', Owned N (c + Pi.single n 1) k' → Spares N c k k' →
      Denotes k'.nodes n (Diagram.bddApply op.eval a b).tree → Wp (f n) Q Stops k') :
    Wp (bddApply env l r op >>= fun n => bddAddref n >>= f) Q Stops k := by
  rw [wp_bind]
  refine (wp_bddApply hop h.toIdle hl hr).imp ?_
  rintro n k₁ ⟨hidle, hkept, hden⟩
  obtain ⟨h₁, hspares⟩ := h.kept hidle hkept
  rw [wp_bind]
  refine (wp_bddAddref h₁ hden).imp ?_
  rintro _ k₂ ⟨rfl, h₂, hsame⟩
  exact hf _ k₂ h₂ (hspares.trans hsame.spares) (hsame.denotes hden)

/-- A temporary is released. -/
theorem wp_release (h : Owned N c k) {d : ℕ → ℕ} {n : ℕ} (hc : c = d + Pi.single n 1)
    {t : Tree (Fin N)} (hn : Denotes k.nodes n t) {β : Type} {p : KernelM Kernel β}
    {Q : β → Kernel → Prop}
    (hp : ∀ k', Owned N d k' → Recounted k k' → Wp p Q E k') :
    Wp (bddDelref n >>= fun _ => p) Q E k := by
  rw [wp_bind]
  exact (wp_bddDelref (hc ▸ h) hn).imp fun _ k' h' => hp k' h'.2.1 h'.2.2

/-- What a round of a comparison does. -/
def Round (N : ℕ) (round : ℕ → ℕ × ℕ → KernelM Kernel ℕ)
    (step : Bdd (Fin N) → Bdd (Fin N) × Bdd (Fin N) → Bdd (Fin N)) : Prop :=
  ∀ {k : Kernel} {c : ℕ → ℕ} {p x y : ℕ} {q a b : Bdd (Fin N)}, Owned N (c + Pi.single p 1) k →
    0 < c x → 0 < c y → Denotes k.nodes p q.tree → Denotes k.nodes x a.tree →
    Denotes k.nodes y b.tree →
    Wp (round p (x, y)) (fun res k' => Owned N (c + Pi.single res 1) k' ∧ Spares N c k k' ∧
      Denotes k'.nodes res (step q (a, b)).tree) Stops k

theorem round_equRound : Round N (equRound env) equStep := by
  intro k c p x y q a b h hx hy hp hxa hyb
  rw [equRound]
  refine wp_temporary (by simp) h (h.held (pos_add hx _) hxa) (h.held (pos_add hy _) hyb)
    fun t₁ k₁ h₁ hspares₁ ht₁ => ?_
  have hp₁ := hspares₁.denotes (pos_single _ p) hp
  refine wp_temporary (by simp) h₁ (h₁.held (pos_single _ t₁) ht₁)
    (h₁.held (pos_add (pos_single _ p) _) hp₁) fun t₂ k₂ h₂ hspares₂ ht₂ => ?_
  have ht₁ := hspares₂.denotes (pos_single _ t₁) ht₁
  have hp₂ := hspares₂.denotes (pos_add (pos_single _ p) _) hp₁
  refine wp_release h₂ (add_right_comm _ _ _) ht₁ fun k₃ h₃ hsame₃ => ?_
  refine wp_release h₃ (add_right_comm _ _ _) (hsame₃.denotes hp₂)
    fun k₄ h₄ hsame₄ => ?_
  have hsame := hsame₃.trans hsame₄
  refine ⟨h₄, ?_, hsame.denotes ht₂⟩
  exact ((hspares₁.mono (le_add c _)).trans (hspares₂.mono ((le_add c _).trans (le_add _ _)))).trans
    hsame.spares

theorem round_lteRound : Round N (lteRound env) lteStep := by
  intro k c p x y q a b h hx hy hp hxa hyb
  rw [lteRound]
  refine wp_temporary (by simp) h (h.held (pos_add hx _) hxa) (h.held (pos_add hy _) hyb)
    fun t₁ k₁ h₁ hspares₁ ht₁ => ?_
  have hx₁ := hspares₁.denotes (pos_add hx _) hxa
  have hy₁ := hspares₁.denotes (pos_add hy _) hyb
  refine wp_temporary (by simp) h₁ (h₁.held (pos_add (pos_add hx _) _) hx₁)
    (h₁.held (pos_add (pos_add hy _) _) hy₁) fun t₂ k₂ h₂ hspares₂ ht₂ => ?_
  have hp₂ := hspares₂.denotes (pos_add (pos_single _ p) _) (hspares₁.denotes (pos_single _ p) hp)
  have ht₁ := hspares₂.denotes (pos_single _ t₁) ht₁
  refine wp_temporary (by simp) h₂ (h₂.held (pos_single _ t₂) ht₂)
    (h₂.held (pos_add (pos_add (pos_single _ p) _) _) hp₂) fun t₃ k₃ h₃ hspares₃ ht₃ => ?_
  have hp₃ := hspares₃.denotes (pos_add (pos_add (pos_single _ p) _) _) hp₂
  have ht₁ := hspares₃.denotes (pos_add (pos_single _ t₁) _) ht₁
  have ht₂ := hspares₃.denotes (pos_single _ t₂) ht₂
  refine wp_temporary (by simp) h₃ (h₃.held (pos_add (pos_add (pos_single _ t₁) _) _) ht₁)
    (h₃.held (pos_single _ t₃) ht₃) fun t₄ k₄ h₄ hspares₄ ht₄ => ?_
  have hp₄ := hspares₄.denotes (pos_add (pos_add (pos_add (pos_single _ p) _) _) _) hp₃
  have ht₁ := hspares₄.denotes (pos_add (pos_add (pos_single _ t₁) _) _) ht₁
  have ht₂ := hspares₄.denotes (pos_add (pos_single _ t₂) _) ht₂
  have ht₃ := hspares₄.denotes (pos_single _ t₃) ht₃
  -- the temporaries of the round are released
  refine wp_release h₄ (d := c + Pi.single p 1 + Pi.single t₂ 1 + Pi.single t₃ 1 + Pi.single t₄ 1)
    (by abel) ht₁ fun k₅ h₅ hsame₅ => ?_
  refine wp_release h₅ (d := c + Pi.single p 1 + Pi.single t₃ 1 + Pi.single t₄ 1) (by abel)
    (hsame₅.denotes ht₂) fun k₆ h₆ hsame₆ => ?_
  have hsame₆ := hsame₅.trans hsame₆
  refine wp_release h₆ (add_right_comm _ _ _) (hsame₆.denotes ht₃)
    fun k₇ h₇ hsame₇ => ?_
  have hsame₇ := hsame₆.trans hsame₇
  refine wp_release h₇ (add_right_comm _ _ _) (hsame₇.denotes hp₄)
    fun k₈ h₈ hsame₈ => ?_
  have hsame₈ := hsame₇.trans hsame₈
  refine ⟨h₈, ?_, hsame₈.denotes ht₄⟩
  have hle₁ := le_add c (Pi.single p 1)
  have hle₂ := hle₁.trans (le_add _ (Pi.single t₁ 1))
  have hle₃ := hle₂.trans (le_add _ (Pi.single t₂ 1))
  have hle₄ := hle₃.trans (le_add _ (Pi.single t₃ 1))
  exact (((hspares₁.mono hle₁).trans (hspares₂.mono hle₂)).trans (hspares₃.mono hle₃)).trans
    ((hspares₄.mono hle₄).trans hsame₈.spares)

/-- The loop over the bits.  The result so far is referenced once, and so are the bits of both
vectors all along. -/
theorem wp_rounds {round : ℕ → ℕ × ℕ → KernelM Kernel ℕ}
    {step : Bdd (Fin N) → Bdd (Fin N) × Bdd (Fin N) → Bdd (Fin N)} (hround : Round N round step)
    {l r : List ℕ} {as bs : Bvec (Fin N)} {p : ℕ} {q : Bdd (Fin N)}
    (h : Owned N (c + Pi.single p 1) k) (hp : Denotes k.nodes p q.tree) (hl : Bits N k l as)
    (hr : Bits N k r bs) (hcl : ∀ n ∈ l, 0 < c n) (hcr : ∀ n ∈ r, 0 < c n) :
    Wp ((l.zip r).foldlM round p) (fun res k' => Owned N (c + Pi.single res 1) k' ∧
      Spares N c k k' ∧ Denotes k'.nodes res ((as.zip bs).foldl step q).tree) Stops k := by
  induction l generalizing r as bs p q k with
  | nil =>
    obtain rfl := List.forall₂_nil_left_iff.mp hl
    exact ⟨h, Spares.refl c k, hp⟩
  | cons x l ih =>
    obtain ⟨a, as, hx, hl', rfl⟩ := List.forall₂_cons_left_iff.mp hl
    cases r with
    | nil =>
      obtain rfl := List.forall₂_nil_left_iff.mp hr
      exact ⟨h, Spares.refl c k, hp⟩
    | cons y r =>
      obtain ⟨b, bs, hy, hr', rfl⟩ := List.forall₂_cons_left_iff.mp hr
      obtain ⟨hcx, hcl⟩ := List.forall_mem_cons.mp hcl
      obtain ⟨hcy, hcr⟩ := List.forall_mem_cons.mp hcr
      rw [List.zip_cons_cons, List.foldlM_cons, wp_bind]
      -- one round, then the other bits from the reference that it left
      refine (hround h hcx hcy hp hx hy).imp ?_
      rintro p₁ k₁ ⟨h₁, hspares₁, hp₁⟩
      refine (ih h₁ hp₁ (Bits.spared hl' hspares₁ hcl) (Bits.spared hr' hspares₁ hcr)
        hcl hcr).imp ?_
      rintro p₂ k₂ ⟨h₂, hspares₂, hp₂⟩
      exact ⟨h₂, hspares₁.trans hspares₂, hp₂⟩

/-- What a comparison of vectors leaves: the references are those from before. -/
def Compared (N : ℕ) (c : ℕ → ℕ) (k : Kernel) (a : Bdd (Fin N)) (res : ℕ) (k' : Kernel) : Prop :=
  Owned N c k' ∧ Spares N c k k' ∧ Denotes k'.nodes res a.tree

theorem wp_bvecCompare {round : ℕ → ℕ × ℕ → KernelM Kernel ℕ}
    {step : Bdd (Fin N) → Bdd (Fin N) × Bdd (Fin N) → Bdd (Fin N)} (hround : Round N round step)
    {l r : List ℕ} {as bs : Bvec (Fin N)} (h : Owned N c k) (hl : Bits N k l as)
    (hr : Bits N k r bs) (hcl : ∀ n ∈ l, 0 < c n) (hcr : ∀ n ∈ r, 0 < c n)
    (hsize : l.length = r.length) (hpos : 0 < l.length) :
    Wp (bvecCompare round l r) (Compared N c k ((as.zip bs).foldl step bddTrue)) Stops k := by
  rw [bvecCompare, if_neg (by omega), if_neg (by omega), wp_bind]
  have hone : Owned N (c + Pi.single 1 1) k := by
    refine ⟨h.toIdle, fun n hn => ?_⟩
    rw [Pi.add_apply, Pi.single_eq_of_ne (by omega), add_zero]
    exact h.counted n hn
  refine (wp_rounds hround hone (q := bddTrue) .one hl hr hcl hcr).imp ?_
  rintro p k₁ ⟨h₁, hspares, hp⟩
  refine (wp_bddDelref h₁ hp).imp ?_
  rintro _ k₂ ⟨rfl, h₂, hsame⟩
  exact ⟨h₂, hspares.trans hsame.spares, hsame.denotes hp⟩

section Compare

variable {l r : List ℕ} {as bs : Bvec (Fin N)}

/-- **`bvec_equ` refines the comparison of diagrams**, and leaves no reference behind. -/
theorem wp_bvecEqu (h : Owned N c k) (hl : Bits N k l as) (hr : Bits N k r bs)
    (hcl : ∀ n ∈ l, 0 < c n) (hcr : ∀ n ∈ r, 0 < c n) (hsize : l.length = r.length)
    (hpos : 0 < l.length) :
    Wp (bvecEqu env l r) (Compared N c k (Diagram.bvecEqu as bs)) Stops k := by
  have hlas := hl.length_eq
  have hrbs := hr.length_eq
  rw [Diagram.bvecEqu, if_neg (by omega), if_neg (by omega)]
  exact wp_bvecCompare round_equRound h hl hr hcl hcr hsize hpos

/-- **`bvec_lte` refines the comparison of diagrams**, and leaves no reference behind. -/
theorem wp_bvecLte (h : Owned N c k) (hl : Bits N k l as) (hr : Bits N k r bs)
    (hcl : ∀ n ∈ l, 0 < c n) (hcr : ∀ n ∈ r, 0 < c n) (hsize : l.length = r.length)
    (hpos : 0 < l.length) :
    Wp (bvecLte env l r) (Compared N c k (Diagram.bvecLte as bs)) Stops k := by
  have hlas := hl.length_eq
  have hrbs := hr.length_eq
  rw [Diagram.bvecLte, if_neg (by omega), if_neg (by omega)]
  exact wp_bvecCompare round_lteRound h hl hr hcl hcr hsize hpos

end Compare

end RulesAnalyzer.Buddy
