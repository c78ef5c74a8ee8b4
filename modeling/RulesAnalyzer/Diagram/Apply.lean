import RulesAnalyzer.Diagram.Basic

/-!
# Operations on reduced ordered decision diagrams

Every binary connective is one recursion: the two diagrams are walked together
from their roots, branching on the smaller of the two root variables, and the
result is rebuilt with `Tree.makeNode`, which never builds a redundant test.

## Main definitions

* `Tree.makeNode` — a node, unless its two branches are equal.
* `Tree.apply` — the recursion shared by the connectives.
* `bddAnd`, `bddOr`, `bddNot`, `bddImp`, `bddBiimp`, `bddDiff`, `bddLess` — the
  connectives on reduced diagrams, and `bddTrue`, `bddFalse`, `ithVar`.

## Main results

* `Tree.eval_apply`, `Tree.reduced_apply` — `apply` computes the connective and
  keeps diagrams reduced.
* `Tree.Cofactors.apply` — a connective is computed on the cofactors.
* `mem_bddAnd`, … — membership in each connective.
* `bddImp_eq_bddTrue_iff`, `bddAnd_eq_bddFalse_iff` — inclusion and disjointness
  as equations between diagrams.
-/

namespace Diagram

namespace Tree

variable {V : Type*}

/-- Exchange the two constants. -/
def compl : Tree V → Tree V
  | leaf b => leaf (!b)
  | node v lo hi => node v lo.compl hi.compl

@[simp] theorem eval_compl (σ : V → Bool) (t : Tree V) : t.compl.eval σ = !t.eval σ := by
  induction t with
  | leaf b => rfl
  | node v lo hi ihlo ihhi =>
    rw [compl, eval_node, eval_node, ihlo, ihhi]
    cases σ v <;> rfl

theorem compl_injective {s t : Tree V} (h : s.compl = t.compl) : s = t := by
  induction s generalizing t with
  | leaf b => cases t <;> simp_all [compl]
  | node v lo hi ihlo ihhi =>
    cases t with
    | leaf c => simp [compl] at h
    | node w lo' hi' =>
      simp only [compl, node.injEq] at h
      rw [h.1, ihlo h.2.1, ihhi h.2.2]

/-- A unary connective. -/
def map (f : Bool → Bool) (t : Tree V) : Tree V :=
  if f false = f true then leaf (f true) else if f true then t else t.compl

@[simp] theorem eval_map (σ : V → Bool) (f : Bool → Bool) (t : Tree V) :
    (map f t).eval σ = f (t.eval σ) := by
  unfold map
  split
  · next h => cases ht : t.eval σ <;> simp [h]
  · next h =>
    split
    · next h1 => cases ht : t.eval σ <;> simp_all
    · next h1 => rw [eval_compl]; cases ht : t.eval σ <;> simp_all

variable [LinearOrder V]

/-- A node testing `v`, or its common branch when the test is redundant. -/
def makeNode (v : V) (lo hi : Tree V) : Tree V := if lo = hi then lo else node v lo hi

/-- One level of `apply`: the left diagram tests `v`, its branches are already
applied (`applyLo`, `applyHi`), and the recursion is on the right diagram. -/
def applyNode (v : V) (applyLeaf : Bool → Tree V) (applyLo applyHi : Tree V → Tree V) :
    Tree V → Tree V
  | leaf c => applyLeaf c
  | node w lo hi =>
      if v < w then makeNode v (applyLo (node w lo hi)) (applyHi (node w lo hi))
      else if w < v then
        makeNode w (applyNode v applyLeaf applyLo applyHi lo)
          (applyNode v applyLeaf applyLo applyHi hi)
      else makeNode v (applyLo lo) (applyHi hi)

/-- A binary connective. -/
def apply (op : Bool → Bool → Bool) : Tree V → Tree V → Tree V
  | leaf b => map (op b)
  | node v lo hi =>
      applyNode v (fun c => map (op · c) (node v lo hi)) (apply op lo) (apply op hi)

/-! ### The functions computed -/

@[simp] theorem eval_makeNode (σ : V → Bool) (v : V) (lo hi : Tree V) :
    (makeNode v lo hi).eval σ = cond (σ v) (hi.eval σ) (lo.eval σ) := by
  unfold makeNode
  split
  · next h => subst h; cases σ v <;> rfl
  · rfl

theorem eval_apply (op : Bool → Bool → Bool) (σ : V → Bool) : ∀ s t : Tree V,
    (apply op s t).eval σ = op (s.eval σ) (t.eval σ) := by
  intro s
  induction s with
  | leaf b => intro t; rw [apply, eval_map, eval_leaf]
  | node v lo hi ihlo ihhi =>
    intro t
    rw [apply]
    induction t with
    | leaf c => rw [applyNode, eval_map, eval_leaf]
    | node w lo' hi' ihlo' ihhi' =>
      rw [applyNode]
      split
      · rw [eval_makeNode, ihlo, ihhi, eval_node (v := v)]
        cases σ v <;> rfl
      · split
        · rw [eval_makeNode, ihlo', ihhi', eval_node (v := w)]
          cases σ w <;> rfl
        · next h1 h2 =>
          obtain rfl : v = w := le_antisymm (not_lt.mp h2) (not_lt.mp h1)
          rw [eval_makeNode, ihlo, ihhi, eval_node, eval_node]
          cases σ v <;> rfl

/-! ### Reducedness -/

theorem above_makeNode {u v : V} {lo hi : Tree V} (huv : u < v) (hlo : lo.Above u) :
    (makeNode v lo hi).Above u := by
  unfold makeNode
  split
  · exact hlo
  · exact huv

theorem reduced_makeNode {v : V} {lo hi : Tree V} (hlo : lo.Above v) (hhi : hi.Above v)
    (hrlo : lo.Reduced) (hrhi : hi.Reduced) : (makeNode v lo hi).Reduced := by
  unfold makeNode
  split
  · exact hrlo
  · next h => exact ⟨h, hlo, hhi, hrlo, hrhi⟩

theorem above_compl {u : V} {t : Tree V} (h : t.Above u) : t.compl.Above u := by
  cases t with
  | leaf b => trivial
  | node v lo hi => exact h

theorem reduced_compl {t : Tree V} (h : t.Reduced) : t.compl.Reduced := by
  induction t with
  | leaf b => trivial
  | node v lo hi ihlo ihhi =>
    obtain ⟨hne, hlo, hhi, hrlo, hrhi⟩ := h
    exact ⟨fun he => hne (compl_injective he), above_compl hlo, above_compl hhi,
      ihlo hrlo, ihhi hrhi⟩

theorem above_map {u : V} {t : Tree V} (f : Bool → Bool) (h : t.Above u) : (map f t).Above u := by
  unfold map
  split
  · trivial
  · split
    · exact h
    · exact above_compl h

theorem reduced_map {t : Tree V} (f : Bool → Bool) (h : t.Reduced) : (map f t).Reduced := by
  unfold map
  split
  · trivial
  · split
    · exact h
    · exact reduced_compl h

/-- `apply` stays above every variable that both of its arguments stay above. -/
theorem above_apply (op : Bool → Bool → Bool) {u : V} : ∀ {s t : Tree V}, s.Reduced → t.Reduced →
    s.Above u → t.Above u → (apply op s t).Above u := by
  intro s
  induction s with
  | leaf b => intro t _ _ _ ht; exact above_map _ ht
  | node v lo hi ihlo ihhi =>
    intro t
    rw [apply]
    induction t with
    | leaf c => intro _ _ hsu _; rw [applyNode]; exact above_map _ hsu
    | node w lo' hi' ihlo' ihhi' =>
      intro hs ht hsu htu
      have huv : u < v := hsu
      have huw : u < w := htu
      have ⟨_, hlo, _, hrlo, _⟩ := hs
      have ⟨_, hlo', _, hrlo', _⟩ := ht
      rw [applyNode]
      split
      · exact above_makeNode huv (ihlo hrlo ht (hlo.trans huv) huw)
      · split
        · exact above_makeNode huw (ihlo' hs hrlo' huv (hlo'.trans huw))
        · exact above_makeNode huv (ihlo hrlo hrlo' (hlo.trans huv) (hlo'.trans huw))

theorem reduced_apply (op : Bool → Bool → Bool) : ∀ {s t : Tree V}, s.Reduced → t.Reduced →
    (apply op s t).Reduced := by
  intro s
  induction s with
  | leaf b => intro t _ ht; exact reduced_map _ ht
  | node v lo hi ihlo ihhi =>
    intro t hs
    have ⟨_, hlo, hhi, hrlo, hrhi⟩ := hs
    induction t with
    | leaf c => intro _; rw [apply, applyNode]; exact reduced_map _ hs
    | node w lo' hi' ihlo' ihhi' =>
      intro ht
      have ⟨_, hlo', hhi', hrlo', hrhi'⟩ := ht
      rw [apply, applyNode]
      split
      · next h =>
        exact reduced_makeNode (above_apply op hrlo ht hlo h) (above_apply op hrhi ht hhi h)
          (ihlo hrlo ht) (ihhi hrhi ht)
      · split
        · next h =>
          exact reduced_makeNode (above_apply op hs hrlo' h hlo') (above_apply op hs hrhi' h hhi')
            (ihlo' hrlo') (ihhi' hrhi')
        · next h1 h2 =>
          obtain rfl : v = w := le_antisymm (not_lt.mp h2) (not_lt.mp h1)
          exact reduced_makeNode (above_apply op hrlo hrlo' hlo hlo')
            (above_apply op hrhi hrhi' hhi hhi') (ihlo hrlo hrlo') (ihhi hrhi hrhi')

/-! ### Canonicity of results -/

/-- A connective has one reduced result. -/
theorem apply_eq {op : Bool → Bool → Bool} {s t u : Tree V} (hs : s.Reduced) (ht : t.Reduced)
    (hu : u.Reduced) (h : ∀ σ, u.eval σ = op (s.eval σ) (t.eval σ)) : apply op s t = u :=
  eq_of_eval_eq (reduced_apply op hs ht) hu fun σ => (eval_apply op σ s t).trans (h σ).symm

/-- The two diagrams that a diagram is when `v` is false and when `v` is true. -/
structure Cofactors (v : V) (t lo hi : Tree V) : Prop where
  eval : ∀ σ, t.eval σ = cond (σ v) (hi.eval σ) (lo.eval σ)
  reduced_lo : lo.Reduced
  reduced_hi : hi.Reduced
  above_lo : lo.Above v
  above_hi : hi.Above v

theorem Cofactors.node {v : V} {lo hi : Tree V} (h : (Tree.node v lo hi).Reduced) :
    Cofactors v (.node v lo hi) lo hi :=
  ⟨fun _ => rfl, h.2.2.2.1, h.2.2.2.2, h.2.1, h.2.2.1⟩

/-- A diagram that does not test the variable. -/
theorem Cofactors.same {v : V} {t : Tree V} (h : t.Reduced) (habove : t.Above v) :
    Cofactors v t t t := by
  refine ⟨fun σ => ?_, h, h, habove, habove⟩
  cases σ v <;> rfl

/-- **A connective is computed on the cofactors.** -/
theorem Cofactors.apply {op : Bool → Bool → Bool} {v : V} {s s₀ s₁ t t₀ t₁ : Tree V}
    (hs : Cofactors v s s₀ s₁) (ht : Cofactors v t t₀ t₁) (hrs : s.Reduced) (hrt : t.Reduced) :
    Tree.apply op s t = makeNode v (Tree.apply op s₀ t₀) (Tree.apply op s₁ t₁) := by
  refine apply_eq hrs hrt (reduced_makeNode
    (above_apply op hs.reduced_lo ht.reduced_lo hs.above_lo ht.above_lo)
    (above_apply op hs.reduced_hi ht.reduced_hi hs.above_hi ht.above_hi)
    (reduced_apply op hs.reduced_lo ht.reduced_lo)
    (reduced_apply op hs.reduced_hi ht.reduced_hi)) fun σ => ?_
  rw [eval_makeNode, eval_apply, eval_apply, hs.eval, ht.eval]
  cases σ v <;> rfl

end Tree

/-! ### The connectives on reduced diagrams -/

variable {V : Type*} [LinearOrder V]

/-- The constant true diagram. -/
def bddTrue : Bdd V := ⟨.leaf true, trivial⟩

/-- The constant false diagram. -/
def bddFalse : Bdd V := ⟨.leaf false, trivial⟩

/-- The diagram of a variable. -/
def ithVar (v : V) : Bdd V :=
  ⟨.node v (.leaf false) (.leaf true), by simp, trivial, trivial, trivial, trivial⟩

/-- A binary connective on reduced diagrams. -/
def bddApply (op : Bool → Bool → Bool) (a b : Bdd V) : Bdd V :=
  ⟨a.tree.apply op b.tree, Tree.reduced_apply op a.reduced b.reduced⟩

/-- Negation. -/
def bddNot (a : Bdd V) : Bdd V := ⟨a.tree.compl, Tree.reduced_compl a.reduced⟩

/-- Conjunction. -/
def bddAnd (a b : Bdd V) : Bdd V := bddApply (fun l r => l && r) a b

/-- Disjunction. -/
def bddOr (a b : Bdd V) : Bdd V := bddApply (fun l r => l || r) a b

/-- Implication. -/
def bddImp (a b : Bdd V) : Bdd V := bddApply (fun l r => !l || r) a b

/-- Equivalence. -/
def bddBiimp (a b : Bdd V) : Bdd V := bddApply (fun l r => l == r) a b

/-- Difference: `a` and not `b`. -/
def bddDiff (a b : Bdd V) : Bdd V := bddApply (fun l r => l && !r) a b

/-- Strict order on truth values: not `a`, and `b`. -/
def bddLess (a b : Bdd V) : Bdd V := bddApply (fun l r => !l && r) a b

variable {σ : V → Bool} {a b : Bdd V}

theorem mem_bddApply {op : Bool → Bool → Bool} :
    σ ∈ bddApply op a b ↔ op (decide (σ ∈ a)) (decide (σ ∈ b)) = true := by
  rw [Bdd.mem_def, bddApply, Tree.eval_apply]
  simp [Bdd.mem_def]

@[simp] theorem mem_bddTrue : σ ∈ (bddTrue : Bdd V) := rfl

@[simp] theorem notMem_bddFalse : σ ∉ (bddFalse : Bdd V) := Bool.false_ne_true

@[simp] theorem mem_ithVar {v : V} : σ ∈ ithVar v ↔ σ v = true := by
  rw [Bdd.mem_def, ithVar, Tree.eval_node]
  cases σ v <;> simp

@[simp] theorem mem_bddNot : σ ∈ bddNot a ↔ σ ∉ a := by
  rw [Bdd.mem_def, Bdd.mem_def, bddNot, Tree.eval_compl]
  simp

@[simp] theorem mem_bddAnd : σ ∈ bddAnd a b ↔ σ ∈ a ∧ σ ∈ b := by simp [bddAnd, mem_bddApply]

@[simp] theorem mem_bddOr : σ ∈ bddOr a b ↔ σ ∈ a ∨ σ ∈ b := by simp [bddOr, mem_bddApply]

@[simp] theorem mem_bddImp : σ ∈ bddImp a b ↔ (σ ∈ a → σ ∈ b) := by
  simp [bddImp, mem_bddApply, imp_iff_not_or]

@[simp] theorem mem_bddBiimp : σ ∈ bddBiimp a b ↔ (σ ∈ a ↔ σ ∈ b) := by
  simp [bddBiimp, mem_bddApply]

@[simp] theorem mem_bddDiff : σ ∈ bddDiff a b ↔ σ ∈ a ∧ σ ∉ b := by simp [bddDiff, mem_bddApply]

@[simp] theorem mem_bddLess : σ ∈ bddLess a b ↔ σ ∉ a ∧ σ ∈ b := by simp [bddLess, mem_bddApply]

/-! ### Set relations as equations -/

theorem eq_bddTrue_iff : a = bddTrue ↔ ∀ σ : V → Bool, σ ∈ a := by
  simp [Bdd.eq_iff_mem]

theorem eq_bddFalse_iff : a = bddFalse ↔ ∀ σ : V → Bool, σ ∉ a := by
  simp [Bdd.eq_iff_mem]

/-- Inclusion is an implication that is constantly true. -/
theorem bddImp_eq_bddTrue_iff : bddImp a b = bddTrue ↔ ∀ σ : V → Bool, σ ∈ a → σ ∈ b := by
  simp [eq_bddTrue_iff]

/-- Disjointness is a conjunction that is constantly false. -/
theorem bddAnd_eq_bddFalse_iff : bddAnd a b = bddFalse ↔ ∀ σ : V → Bool, σ ∈ a → σ ∉ b := by
  simp [eq_bddFalse_iff]

end Diagram
