import Mathlib.Order.Fin.Basic
import Mathlib.Order.Lattice
import Mathlib.Data.Set.Defs

/-!
# Reduced ordered decision diagrams

A decision diagram over a linearly ordered type `V` of Boolean variables is a
binary tree whose inner nodes test a variable.  It is *reduced* when variables
increase along every path and no node has two equal branches.  A Boolean
function has exactly one reduced diagram, so comparing two reduced diagrams for
equality compares the functions they denote: this is what lets a program test
`a == b` or `a == true` on diagrams and learn something about every assignment.

Sharing, hash tables and operation caches, which make the diagrams of a real
package small and fast, do not change what a diagram denotes and are left out.

## Main definitions

* `Tree`, `Tree.eval` — diagrams and the Boolean functions they denote.
* `Tree.Reduced` — ordered, and without redundant tests.
* `Bdd` — a diagram together with the proof that it is reduced.

## Main results

* `Tree.eq_of_eval_eq` — a reduced diagram is determined by its function.
* `Tree.Reduced.height_le` — no path is longer than the number of variables.
* `Bdd.ext_mem` — two reduced diagrams with the same assignments are equal.
-/

namespace Diagram

/-- A decision diagram over the variables `V`. -/
inductive Tree (V : Type*)
  /-- A constant. -/
  | leaf (b : Bool)
  /-- A test of `v`: `lo` when it is false, `hi` when it is true. -/
  | node (v : V) (lo hi : Tree V)
  deriving DecidableEq, Repr

namespace Tree

variable {V : Type*}

/-- The Boolean function a diagram denotes. -/
def eval (σ : V → Bool) : Tree V → Bool
  | leaf b => b
  | node v lo hi => cond (σ v) (hi.eval σ) (lo.eval σ)

@[simp] theorem eval_leaf (σ : V → Bool) (b : Bool) : (leaf b).eval σ = b := rfl

@[simp] theorem eval_node (σ : V → Bool) (v : V) (lo hi : Tree V) :
    (node v lo hi).eval σ = cond (σ v) (hi.eval σ) (lo.eval σ) := rfl

section Order

variable [LinearOrder V]

/-- The root of a diagram, if it tests anything, tests a variable above `v`. -/
def Above (v : V) : Tree V → Prop
  | leaf _ => True
  | node w _ _ => v < w

/-- Variables increase along every path, and no node is a redundant test. -/
def Reduced : Tree V → Prop
  | leaf _ => True
  | node v lo hi => lo ≠ hi ∧ lo.Above v ∧ hi.Above v ∧ lo.Reduced ∧ hi.Reduced

@[simp] theorem above_leaf (v : V) (b : Bool) : (leaf b : Tree V).Above v := trivial

@[simp] theorem reduced_leaf (b : Bool) : (leaf b : Tree V).Reduced := trivial

theorem Above.trans {u v : V} {t : Tree V} (huv : u < v) (h : t.Above v) : t.Above u := by
  cases t with
  | leaf b => trivial
  | node w lo hi => exact lt_trans huv h

/-- A reduced diagram does not depend on the variables below its root. -/
theorem eval_update {v : V} (σ : V → Bool) (b : Bool) : ∀ {t : Tree V}, t.Reduced → t.Above v →
    t.eval (Function.update σ v b) = t.eval σ := by
  intro t
  induction t with
  | leaf c => intro _ _; rfl
  | node w lo hi ihlo ihhi =>
    intro hr hv
    obtain ⟨-, hlo, hhi, hrlo, hrhi⟩ := hr
    have hvw : v < w := hv
    rw [eval_node, eval_node, Function.update_of_ne hvw.ne',
      ihlo hrlo (hlo.trans hvw), ihhi hrhi (hhi.trans hvw)]

/-- The low branch is the diagram's function with the root variable false. -/
theorem eval_lo {v : V} {lo hi : Tree V} (h : (node v lo hi).Reduced) (σ : V → Bool) :
    (node v lo hi).eval (Function.update σ v false) = lo.eval σ := by
  rw [eval_node, Function.update_self, cond_false, eval_update σ false h.2.2.2.1 h.2.1]

/-- The high branch is the diagram's function with the root variable true. -/
theorem eval_hi {v : V} {lo hi : Tree V} (h : (node v lo hi).Reduced) (σ : V → Bool) :
    (node v lo hi).eval (Function.update σ v true) = hi.eval σ := by
  rw [eval_node, Function.update_self, cond_true, eval_update σ true h.2.2.2.2 h.2.2.1]

/-- **Canonicity**: a reduced diagram is determined by the function it denotes.  If only one of
two diagrams tested the first variable, its branches would be equal. -/
theorem eq_of_eval_eq : ∀ {s t : Tree V}, s.Reduced → t.Reduced →
    (∀ σ, s.eval σ = t.eval σ) → s = t := by
  intro s
  induction s with
  | leaf b =>
    intro t
    induction t with
    | leaf c => intro _ _ h; rw [show b = c from h fun _ => false]
    | node w lo hi ihlo ihhi =>
      -- a node of a reduced diagram is never constant
      intro hs ht h
      have h0 : leaf b = lo := ihlo hs ht.2.2.2.1 fun σ =>
        (h (Function.update σ w false)).trans (eval_lo ht σ)
      have h1 : leaf b = hi := ihhi hs ht.2.2.2.2 fun σ =>
        (h (Function.update σ w true)).trans (eval_hi ht σ)
      exact absurd (h0.symm.trans h1) ht.1
  | node v lo hi ihlo ihhi =>
    intro t
    induction t with
    | leaf c =>
      intro hs ht h
      have h0 : lo = leaf c := ihlo hs.2.2.2.1 ht fun σ => (eval_lo hs σ).symm.trans (h _)
      have h1 : hi = leaf c := ihhi hs.2.2.2.2 ht fun σ => (eval_hi hs σ).symm.trans (h _)
      exact absurd (h0.trans h1.symm) hs.1
    | node w lo' hi' ihlo' ihhi' =>
      intro hs ht h
      rcases lt_trichotomy v w with hvw | rfl | hwv
      · -- the right diagram does not test `v`, so the two left branches agree
        have hup : ∀ σ b, (node w lo' hi').eval (Function.update σ v b)
            = (node w lo' hi').eval σ := fun σ b => eval_update σ b ht hvw
        have h0 : lo = node w lo' hi' := ihlo hs.2.2.2.1 ht fun σ => by
          rw [← eval_lo hs σ, h, hup]
        have h1 : hi = node w lo' hi' := ihhi hs.2.2.2.2 ht fun σ => by
          rw [← eval_hi hs σ, h, hup]
        exact absurd (h0.trans h1.symm) hs.1
      · have h0 : lo = lo' := ihlo hs.2.2.2.1 ht.2.2.2.1 fun σ => by
          rw [← eval_lo hs σ, h, eval_lo ht σ]
        have h1 : hi = hi' := ihhi hs.2.2.2.2 ht.2.2.2.2 fun σ => by
          rw [← eval_hi hs σ, h, eval_hi ht σ]
        rw [h0, h1]
      · have hup : ∀ σ b, (node v lo hi).eval (Function.update σ w b)
            = (node v lo hi).eval σ := fun σ b => eval_update σ b hs hwv
        have h0 : node v lo hi = lo' := ihlo' hs ht.2.2.2.1 fun σ => by
          rw [← eval_lo ht σ, ← h, hup]
        have h1 : node v lo hi = hi' := ihhi' hs ht.2.2.2.2 fun σ => by
          rw [← eval_hi ht σ, ← h, hup]
        exact absurd (h0.symm.trans h1) ht.1

end Order

/-- The number of tests on the longest path. -/
def height : Tree V → ℕ
  | leaf _ => 0
  | node _ lo hi => max lo.height hi.height + 1

theorem Above.height_lt {n : ℕ} {v : Fin n} {t : Tree (Fin n)} (hv : t.Above v)
    (ht : t.Reduced) : t.height + v < n := by
  induction t generalizing v with
  | leaf b => simp [height]
  | node w lo hi ihlo ihhi =>
    obtain ⟨-, hlo, hhi, hrlo, hrhi⟩ := ht
    have hvw : (v : ℕ) < w := hv
    have := ihlo hlo hrlo
    have := ihhi hhi hrhi
    rw [height]
    omega

/-- No path of a reduced diagram is longer than the number of variables. -/
theorem Reduced.height_le {n : ℕ} {t : Tree (Fin n)} (ht : t.Reduced) : t.height ≤ n := by
  cases t with
  | leaf b => exact Nat.zero_le n
  | node v lo hi =>
    have := ht.2.1.height_lt ht.2.2.2.1
    have := ht.2.2.1.height_lt ht.2.2.2.2
    rw [height]
    omega

end Tree

/-- A reduced ordered decision diagram. -/
@[ext] structure Bdd (V : Type*) [LinearOrder V] where
  /-- The diagram. -/
  tree : Tree V
  /-- It is ordered and has no redundant test. -/
  reduced : tree.Reduced

namespace Bdd

variable {V : Type*} [LinearOrder V]

instance : DecidableEq (Bdd V) := fun a b => decidable_of_iff (a.tree = b.tree) Bdd.ext_iff.symm

/-- `σ ∈ a`: the function of `a` is true at the assignment `σ`. -/
instance : Membership (V → Bool) (Bdd V) := ⟨fun a σ => a.tree.eval σ = true⟩

instance (σ : V → Bool) (a : Bdd V) : Decidable (σ ∈ a) :=
  inferInstanceAs (Decidable (a.tree.eval σ = true))

theorem mem_def {σ : V → Bool} {a : Bdd V} : σ ∈ a ↔ a.tree.eval σ = true := Iff.rfl

/-- **Equality of reduced diagrams is equality of functions.** -/
theorem ext_mem {a b : Bdd V} (h : ∀ σ : V → Bool, σ ∈ a ↔ σ ∈ b) : a = b :=
  Bdd.ext (Tree.eq_of_eval_eq a.reduced b.reduced fun σ => Bool.eq_iff_iff.mpr (h σ))

theorem eq_iff_mem {a b : Bdd V} : a = b ↔ ∀ σ : V → Bool, σ ∈ a ↔ σ ∈ b :=
  ⟨fun h _ => h ▸ Iff.rfl, ext_mem⟩

end Bdd

end Diagram
