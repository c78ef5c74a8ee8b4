import RulesAnalyzer.Buddy.UniqueTable

/-!
# The operators compute the connectives

The recursions of `bdd_apply` and `bdd_not` go through shared nodes, with shortcuts,
a cache that forgets, and a collection or a resize inside of any `bdd_makenode`.
What they return denotes the connective of the diagrams of their arguments, every
node that was live before denotes what it denoted, and the reference stack never
grows over its end: two entries for each level are enough.

## Main definitions

* `Ready` — the constants are below all variables.
* `Fits` — what is left of the reference stack is enough for a recursion.

## Main results

* `wp_makeBranches` — two recursive calls and the node over their results.
* `wp_applyRec`, `wp_notRec` — the recursions.
* `wp_bddApply`, `wp_bddNot` — **the operators refine the connectives on diagrams.**
-/

namespace RulesAnalyzer.Buddy

open Effect Diagram Shared

variable {N : ℕ} {k k' : Kernel} {env : Environment}

/-- The constants have the level behind all variables. -/
def Ready (N : ℕ) (k : Kernel) : Prop := k.level 0 = N ∧ k.level 1 = N

theorem Later.ready (h : Later k k') (hk : Tabular N k) (hready : Ready N k) : Ready N k' := by
  have hlevel : ∀ n, n < 2 → k'.level n = k.level n := fun n hn =>
    (h.core n (hk.live_of_lt hn)).level.symm
  rw [Ready, hlevel 0 (by omega), hlevel 1 (by omega)]
  exact hready

/-! ### Levels and children -/

section Held

variable {n : ℕ} {v : Fin N} {lo hi t : Tree (Fin N)}

theorem Held.level (h : Held k n (.node v lo hi)) : k.level n = v := by
  cases h.denotes with
  | node _ _ hlevel => exact hlevel

theorem Held.eq_toNat {b : Bool} (h : Held k n (.leaf b : Tree (Fin N))) : n = b.toNat := by
  cases h.denotes <;> rfl

theorem Held.level_leaf (hready : Ready N k) {b : Bool} (h : Held k n (.leaf b : Tree (Fin N))) :
    k.level n = N := by
  rw [h.eq_toNat]
  cases b
  · exact hready.1
  · exact hready.2

/-- The low branch of a live node. -/
theorem Held.low (hk : Tabular N k) (h : Held k n (.node v lo hi)) : Held k (k.low n) lo := by
  cases h.denotes with
  | @node _ low _ _ _ _ hlow _ hlo _ =>
    have hc : k.low n = low := by rw [Kernel.low, hlow]; rfl
    rw [hc]
    exact ⟨hk.live_below h.live (.inl (by rw [hlow]; rfl)) hlo, hlo⟩

/-- The high branch of a live node. -/
theorem Held.high (hk : Tabular N k) (h : Held k n (.node v lo hi)) : Held k (k.high n) hi := by
  cases h.denotes with
  | node _ _ _ _ hhi => exact ⟨hk.live_below h.live (.inr rfl) hhi, hhi⟩

end Held

/-! ### The reference stack -/

/-- The reference stack has room for a recursion of the depth. -/
def Fits (k : Kernel) (depth : ℕ) : Prop := k.refstack.length + depth + 1 ≤ k.refstacksize

/-- The kernel with another entry on the reference stack. -/
def Kernel.pushed (k : Kernel) (a : ℕ) : Kernel := { k with refstack := a :: k.refstack }

theorem Later.pushed (k : Kernel) (a : ℕ) : Later k (k.pushed a) :=
  ⟨fun _ _ => .refl _, fun _ => rfl, fun _ => List.mem_cons_of_mem a, rfl, rfl, rfl, rfl⟩

/-- A node that denotes a diagram may be pushed. -/
theorem Consistent.pushed (h : Consistent N k) {a : ℕ} {t : Tree (Fin N)}
    (ha : Denotes k.nodes a t) : Consistent N (k.pushed a) :=
  { h with stack := List.forall_mem_cons.mpr ⟨ha.lt_or_used, h.stack⟩ }

/-- What is pushed is live. -/
theorem held_pushed {a : ℕ} {t : Tree (Fin N)} (ha : Denotes k.nodes a t) :
    Held (k.pushed a) a t := ⟨Root.live (.inl List.mem_cons_self), ha⟩

theorem wp_pushref {a : ℕ} {Q : PUnit → Kernel → Prop} {E : BddError → Kernel → Prop}
    (hroom : k.refstack.length < k.refstacksize) (hQ : Q ⟨⟩ (k.pushed a)) :
    Wp (pushref a) Q E k := by
  rw [pushref, wp_bind, wp_get, if_pos hroom, wp_modify]
  exact hQ

/-- The stack may lose its entries. -/
theorem Consistent.dropped (h : Consistent N k) (a : ℕ) :
    Consistent N { k with refstack := k.refstack.drop a } :=
  { h with stack := fun n hn => h.stack n (List.mem_of_mem_drop hn) }

/-- **Two calls and the node over their results.**  The results are pushed on the stack as they
come, so a collection in between does not remove them. -/
theorem wp_makeBranches {v : Fin N} {tlo thi : Tree (Fin N)} {depth : ℕ}
    (hfits : Fits k (depth + 1)) {level : Kernel → ℕ} {lo hi : Kernel → KernelM Kernel ℕ}
    (habovelo : tlo.Above v) (habovehi : thi.Above v)
    (hlevel : ∀ k', Later k k' → level k' = v)
    (hlo : Wp (lo k) (Made N k tlo) Stops k)
    (hhi : ∀ k', Consistent N k' → Later k k' → Fits k' depth →
      Wp (hi k') (Made N k' thi) Stops k') :
    Wp (makeBranches env level lo hi) (Made N k (Tree.makeNode v tlo thi)) Stops k := by
  rw [Fits] at hfits
  rw [makeBranches, wp_bind, wp_get, wp_bind]
  refine hlo.imp ?_
  rintro x₁ k₁ ⟨h₁, hkept₁, hden₁⟩
  have hlater₁ : Later k (k₁.pushed x₁) := hkept₁.toLater.trans (.pushed k₁ x₁)
  have hstack₁ : (k₁.pushed x₁).refstack = x₁ :: k.refstack := by
    rw [Kernel.pushed, hkept₁.refstack]
  rw [wp_bind]
  refine wp_pushref (by rw [hkept₁.refstack, hkept₁.refstacksize]; omega) ?_
  rw [wp_bind, wp_get, wp_bind]
  refine (hhi _ (h₁.pushed hden₁) hlater₁ ?_).imp ?_
  · rw [Fits, hstack₁, hlater₁.refstacksize, List.length_cons]
    omega
  rintro x₂ k₂ ⟨h₂, hkept₂, hden₂⟩
  have hlater₂ : Later k (k₂.pushed x₂) :=
    (hlater₁.trans hkept₂.toLater).trans (.pushed k₂ x₂)
  have hstack₂ : (k₂.pushed x₂).refstack = x₂ :: x₁ :: k.refstack := by
    rw [Kernel.pushed, hkept₂.refstack, hstack₁]
  rw [wp_bind]
  refine wp_pushref ?_ ?_
  · rw [hkept₂.refstack, hstack₁, hkept₂.refstacksize, hlater₁.refstacksize, List.length_cons]
    omega
  -- both results are on the stack while the node is made
  have hheld₁ : Held (k₂.pushed x₂) x₁ tlo :=
    (hkept₂.toLater.trans (.pushed k₂ x₂)).held (held_pushed hden₁)
  have hheld₂ : Held (k₂.pushed x₂) x₂ thi := held_pushed hden₂
  simp only [readref, wp_bind, wp_get, wp_pure, hstack₂, List.getD_cons_succ, List.getD_cons_zero,
    Nat.add_one_sub_one, Nat.sub_self, hlevel _ hlater₂]
  refine (wp_bddMakenode (h₂.pushed hden₂) hheld₁ hheld₂ habovelo habovehi).imp ?_
  rintro res k₃ ⟨h₃, hkept₃, hden₃⟩
  have hstack₃ : k₃.refstack.drop 2 = k.refstack := by
    rw [hkept₃.refstack, hstack₂]
    rfl
  have hlater₃ := hlater₂.trans hkept₃.toLater
  rw [popref, wp_bind, wp_modify, wp_pure]
  refine ⟨h₃.dropped 2, ⟨⟨hlater₃.core, hlater₃.refcou, fun n hn => ?_, hlater₃.refstacksize,
    hlater₃.running, hlater₃.varnum, hlater₃.varset⟩, hstack₃⟩, hden₃⟩
  rwa [hstack₃]

/-! ### The cache -/

/-- Storing a result keeps the kernel consistent. -/
theorem Made.modifyEntry {t : Tree (Fin N)} {res slot : ℕ} {f : BddCacheData → BddCacheData}
    (h : Made N k t res k') (hentry : EntrySound N k'.nodes (f (k'.applycache slot))) :
    Made N k t res (k'.modifyEntry slot f) := by
  obtain ⟨hcons, hkept, hden⟩ := h
  refine ⟨{ hcons with cached := fun i => ?_ }, ⟨⟨hkept.core, hkept.refcou, hkept.stacked,
    hkept.refstacksize, hkept.running, hkept.varnum, hkept.varset⟩, hkept.refstack⟩, hden⟩
  change EntrySound N k'.nodes (Function.update k'.applycache slot _ i)
  by_cases hi : i = slot
  · rwa [hi, Function.update_self]
  · rw [Function.update_of_ne hi]
    exact hcons.cached i

/-! ### Shortcuts -/

section Shortcuts

variable {nodes : ℕ → BddNode} {l r res : ℕ} {t u : Tree (Fin N)} {op : BddOp}

/-- A diagram has the result of the connective when its function is the connective of the two
functions. -/
theorem denotes_apply_of_eval {w : Tree (Fin N)} (ht : t.Reduced) (hu : u.Reduced)
    (hw : Denotes nodes res w) (hred : w.Reduced)
    (h : ∀ σ, w.eval σ = op.eval (t.eval σ) (u.eval σ)) :
    Denotes nodes res (Tree.apply op.eval t u) := by
  rwa [Tree.apply_eq ht hu hred h]

section Constants

variable {c d : Bool} (ht : t.Reduced) (hu : u.Reduced)

theorem Denotes.leaf_of_eq_toNat (h : Denotes nodes l t) (hl : l = c.toNat) : t = .leaf c := by
  subst hl
  cases c
  · exact denotes_zero_iff.mp h
  · exact denotes_one_iff.mp h

/-- The constants are the first two nodes, in every table. -/
theorem denotes_toNat (nodes : ℕ → BddNode) (c : Bool) :
    Denotes nodes c.toNat (.leaf c : Tree (Fin N)) := by
  cases c
  · exact .zero
  · exact .one

include ht hu

/-- A constant on the left that changes nothing. -/
theorem denotes_of_neutral_left (hl : Denotes nodes l t) (hr : Denotes nodes r u)
    (hneutral : ∀ b, op.eval c b = b) (hc : l = c.toNat) :
    Denotes nodes r (Tree.apply op.eval t u) := by
  refine denotes_apply_of_eval ht hu hr hu fun σ => ?_
  rw [hl.leaf_of_eq_toNat hc, Tree.eval, hneutral]

/-- A constant on the right that changes nothing. -/
theorem denotes_of_neutral_right (hl : Denotes nodes l t) (hr : Denotes nodes r u)
    (hneutral : ∀ b, op.eval b c = b) (hc : r = c.toNat) :
    Denotes nodes l (Tree.apply op.eval t u) := by
  refine denotes_apply_of_eval ht hu hl ht fun σ => ?_
  rw [hr.leaf_of_eq_toNat hc, Tree.eval, hneutral]

/-- A constant on the left that decides the result. -/
theorem denotes_of_absorbing_left (hl : Denotes nodes l t) (habsorbing : ∀ b, op.eval c b = d)
    (hc : l = c.toNat) : Denotes nodes d.toNat (Tree.apply op.eval t u) := by
  refine denotes_apply_of_eval ht hu (denotes_toNat nodes d) trivial fun σ => ?_
  rw [hl.leaf_of_eq_toNat hc, Tree.eval, Tree.eval, habsorbing]

/-- A constant on the right that decides the result. -/
theorem denotes_of_absorbing_right (hr : Denotes nodes r u) (habsorbing : ∀ b, op.eval b c = d)
    (hc : r = c.toNat) : Denotes nodes d.toNat (Tree.apply op.eval t u) := by
  refine denotes_apply_of_eval ht hu (denotes_toNat nodes d) trivial fun σ => ?_
  rw [hr.leaf_of_eq_toNat hc, Tree.eval, Tree.eval, habsorbing]

/-- A diagram with itself, where the connective gives the argument. -/
theorem denotes_of_idempotent (hl : Denotes nodes l t) (hr : Denotes nodes r u)
    (hidempotent : ∀ b, op.eval b b = b) (hsame : l = r) :
    Denotes nodes l (Tree.apply op.eval t u) := by
  subst hsame
  refine denotes_apply_of_eval ht hu hl ht fun σ => ?_
  rw [hl.det hr, hidempotent]

/-- A diagram with itself, where the connective gives a constant. -/
theorem denotes_of_constant (hl : Denotes nodes l t) (hr : Denotes nodes r u)
    (hconstant : ∀ b, op.eval b b = d) (hsame : l = r) :
    Denotes nodes d.toNat (Tree.apply op.eval t u) := by
  subst hsame
  refine denotes_apply_of_eval ht hu (denotes_toNat nodes d) trivial fun σ => ?_
  rw [hl.det hr, hconstant, Tree.eval]

end Constants

/-- **The shortcuts give the connective.**  Each is a law of the connective for equal arguments or
for a constant on one side. -/
theorem denotes_applyShortcut (hl : Denotes nodes l t) (hr : Denotes nodes r u) (ht : t.Reduced)
    (hu : u.Reduced) (hres : applyShortcut op l r = some res) :
    Denotes nodes res (Tree.apply op.eval t u) := by
  cases op with
  -- these operators have no shortcut
  | biimp | diff | less | invimp | not => cases hres
  | and =>
    simp only [applyShortcut] at hres
    split_ifs at hres with heq hzero hl1 hr1 <;> obtain rfl := Option.some.inj hres
    · exact denotes_of_idempotent ht hu hl hr Bool.and_self heq
    · rcases hzero with hl0 | hr0
      · exact denotes_of_absorbing_left (c := false) (d := false) ht hu hl Bool.false_and hl0
      · exact denotes_of_absorbing_right (d := false) ht hu hr Bool.and_false hr0
    · exact denotes_of_neutral_left (c := true) ht hu hl hr Bool.true_and hl1
    · exact denotes_of_neutral_right ht hu hl hr Bool.and_true hr1
  | or =>
    simp only [applyShortcut] at hres
    split_ifs at hres with heq hone hl0 hr0 <;> obtain rfl := Option.some.inj hres
    · exact denotes_of_idempotent ht hu hl hr Bool.or_self heq
    · rcases hone with hl1 | hr1
      · exact denotes_of_absorbing_left (c := true) (d := true) ht hu hl Bool.true_or hl1
      · exact denotes_of_absorbing_right (d := true) ht hu hr Bool.or_true hr1
    · exact denotes_of_neutral_left (c := false) ht hu hl hr Bool.false_or hl0
    · exact denotes_of_neutral_right ht hu hl hr Bool.or_false hr0
  | xor =>
    simp only [applyShortcut] at hres
    split_ifs at hres with heq hl0 hr0 <;> obtain rfl := Option.some.inj hres
    · exact denotes_of_constant (d := false) ht hu hl hr bne_self_eq_false heq
    · exact denotes_of_neutral_left ht hu hl hr Bool.false_bne hl0
    · exact denotes_of_neutral_right ht hu hl hr Bool.bne_false hr0
  | nand =>
    simp only [applyShortcut] at hres
    split_ifs at hres with hzero
    obtain rfl := Option.some.inj hres
    rcases hzero with hl0 | hr0
    · exact denotes_of_absorbing_left (c := false) (d := true) ht hu hl (fun _ => rfl) hl0
    · exact denotes_of_absorbing_right (c := false) (d := true) ht hu hr (by decide) hr0
  | nor =>
    simp only [applyShortcut] at hres
    split_ifs at hres with hone
    obtain rfl := Option.some.inj hres
    rcases hone with hl1 | hr1
    · exact denotes_of_absorbing_left (c := true) (d := false) ht hu hl (fun _ => rfl) hl1
    · exact denotes_of_absorbing_right (c := true) (d := false) ht hu hr (by decide) hr1
  | imp =>
    simp only [applyShortcut] at hres
    split_ifs at hres with hl0 hl1 hr1 <;> obtain rfl := Option.some.inj hres
    · exact denotes_of_absorbing_left (c := false) (d := true) ht hu hl (fun _ => rfl) hl0
    · exact denotes_of_neutral_left (c := true) ht hu hl hr (fun _ => rfl) hl1
    · exact denotes_of_absorbing_right (c := true) (d := true) ht hu hr (by decide) hr1

/-- The table of results on constants. -/
theorem denotes_oprres (op : BddOp) (b c : Bool) :
    Denotes nodes ((oprres op).getD (b.toNat <<< 1 ||| c.toNat) 0)
      (Tree.apply op.eval (.leaf b) (.leaf c) : Tree (Fin N)) := by
  have happly : (Tree.apply op.eval (.leaf b) (.leaf c) : Tree (Fin N)) = .leaf (op.eval b c) :=
    Tree.apply_eq trivial trivial trivial fun _ => rfl
  have hres : (oprres op).getD (b.toNat <<< 1 ||| c.toNat) 0 = (op.eval b c).toNat := by
    cases op <;> cases b <;> cases c <;> rfl
  rw [happly, hres]
  exact denotes_toNat nodes (op.eval b c)

end Shortcuts

/-! ### The recursions -/

theorem Fits.mono {depth depth' : ℕ} (h : Fits k depth) (hle : depth' ≤ depth) : Fits k depth' := by
  rw [Fits] at h ⊢
  omega

section Apply

variable {op : BddOp} {depth l r : ℕ} {v : Fin N} {t t₀ t₁ u u₀ u₁ : Tree (Fin N)}

/-- The specification of a recursive call. -/
def Applies (env : Environment) (N : ℕ) (op : BddOp) (depth : ℕ) : Prop :=
  ∀ {k : Kernel} {l r : ℕ} {t u : Tree (Fin N)}, Consistent N k → Ready N k → Held k l t →
    Held k r u → t.height + u.height < depth → Fits k (t.height + u.height) →
    Wp (applyRec env op depth l r) (Made N k (Tree.apply op.eval t u)) Stops k

/-- An argument of the recursion at the variable `v`.  The two calls get `l₀` and `l₁`, which hold
the cofactors of the argument's diagram in every later kernel. -/
structure Argument (N : ℕ) (k : Kernel) (v : Fin N) (t t₀ t₁ : Tree (Fin N)) (l₀ l₁ : Kernel → ℕ) :
    Prop where
  reduced : t.Reduced
  cofactors : Tree.Cofactors v t t₀ t₁
  lo : ∀ k', Consistent N k' → Later k k' → Held k' (l₀ k') t₀
  hi : ∀ k', Consistent N k' → Later k k' → Held k' (l₁ k') t₁

/-- A node of the variable is taken apart. -/
theorem Held.apart {lo hi : Tree (Fin N)} (h : Held k l (.node v lo hi))
    (hred : (Tree.node v lo hi).Reduced) :
    Argument N k v (.node v lo hi) lo hi (·.low l) (·.high l) where
  reduced := hred
  cofactors := .node hred
  lo _ hk' hlater := (hlater.held h).low hk'.toTabular
  hi _ hk' hlater := (hlater.held h).high hk'.toTabular

/-- A diagram that does not test the variable goes into both calls. -/
theorem Held.whole (h : Held k l t) (hred : t.Reduced) (habove : t.Above v) :
    Argument N k v t t t (fun _ => l) fun _ => l where
  reduced := hred
  cofactors := .same hred habove
  lo _ _ hlater := hlater.held h
  hi _ _ hlater := hlater.held h

/-- One level of the recursion, on the cofactors of the two diagrams. -/
theorem wp_applyBranches (ih : Applies env N op depth) (hk : Consistent N k) (hready : Ready N k)
    {level l₀ l₁ r₀ r₁ : Kernel → ℕ} (hl : Argument N k v t t₀ t₁ l₀ l₁)
    (hr : Argument N k v u u₀ u₁ r₀ r₁) (hlevel : ∀ k', Later k k' → level k' = v)
    (hsmall₀ : t₀.height + u₀.height < t.height + u.height)
    (hsmall₁ : t₁.height + u₁.height < t.height + u.height)
    (hdepth : t.height + u.height < depth + 1) (hfits : Fits k (t.height + u.height)) :
    Wp (makeBranches env level (fun k => applyRec env op depth (l₀ k) (r₀ k))
      fun k => applyRec env op depth (l₁ k) (r₁ k))
      (Made N k (Tree.apply op.eval t u)) Stops k := by
  have ht := hl.cofactors
  have hu := hr.cofactors
  rw [ht.apply hu hl.reduced hr.reduced]
  refine wp_makeBranches (show Fits k (t.height + u.height - 1 + 1) from hfits.mono (by omega))
    (Tree.above_apply _ ht.reduced_lo hu.reduced_lo ht.above_lo hu.above_lo)
    (Tree.above_apply _ ht.reduced_hi hu.reduced_hi ht.above_hi hu.above_hi) hlevel ?_ ?_
  · exact ih hk hready (hl.lo k hk (.refl k)) (hr.lo k hk (.refl k)) (by omega)
      (hfits.mono (by omega))
  · intro k' hk' hlater hfits'
    exact ih hk' (hlater.ready hk.toTabular hready) (hl.hi k' hk' hlater) (hr.hi k' hk' hlater)
      (by omega) (hfits'.mono (by omega))

section Levels

variable {lo hi lo' hi' : Tree (Fin N)}

/-- Only the left diagram tests the variable. -/
theorem wp_applyLeft (ih : Applies env N op depth) (hk : Consistent N k) (hready : Ready N k)
    (hl : Held k l (.node v lo hi)) (hr : Held k r u) (habove : u.Above v)
    (hdepth : (Tree.node v lo hi).height + u.height < depth + 1)
    (hfits : Fits k ((Tree.node v lo hi).height + u.height)) :
    Wp (makeBranches env (·.level l) (fun k => applyRec env op depth (k.low l) r)
      fun k => applyRec env op depth (k.high l) r)
      (Made N k (Tree.apply op.eval (.node v lo hi) u)) Stops k := by
  have hredt := hk.toTabular.reduced hl.denotes
  have hredu := hk.toTabular.reduced hr.denotes
  exact wp_applyBranches ih hk hready (hl.apart hredt) (hr.whole hredu habove)
    (fun k' hlater => (hlater.held hl).level) (by simp only [Tree.height]; omega)
    (by simp only [Tree.height]; omega) hdepth hfits

/-- Only the right diagram tests the variable. -/
theorem wp_applyRight (ih : Applies env N op depth) (hk : Consistent N k) (hready : Ready N k)
    (hl : Held k l t) (hr : Held k r (.node v lo hi)) (habove : t.Above v)
    (hdepth : t.height + (Tree.node v lo hi).height < depth + 1)
    (hfits : Fits k (t.height + (Tree.node v lo hi).height)) :
    Wp (makeBranches env (·.level r) (fun k => applyRec env op depth l (k.low r))
      fun k => applyRec env op depth l (k.high r))
      (Made N k (Tree.apply op.eval t (.node v lo hi))) Stops k := by
  have hredt := hk.toTabular.reduced hl.denotes
  have hredu := hk.toTabular.reduced hr.denotes
  exact wp_applyBranches ih hk hready (hl.whole hredt habove) (hr.apart hredu)
    (fun k' hlater => (hlater.held hr).level) (by simp only [Tree.height]; omega)
    (by simp only [Tree.height]; omega) hdepth hfits

/-- Both diagrams test the variable. -/
theorem wp_applyBoth (ih : Applies env N op depth) (hk : Consistent N k) (hready : Ready N k)
    (hl : Held k l (.node v lo hi)) (hr : Held k r (.node v lo' hi'))
    (hdepth : (Tree.node v lo hi).height + (Tree.node v lo' hi').height < depth + 1)
    (hfits : Fits k ((Tree.node v lo hi).height + (Tree.node v lo' hi').height)) :
    Wp (makeBranches env (·.level l) (fun k => applyRec env op depth (k.low l) (k.low r))
      fun k => applyRec env op depth (k.high l) (k.high r))
      (Made N k (Tree.apply op.eval (.node v lo hi) (.node v lo' hi'))) Stops k := by
  have hredt := hk.toTabular.reduced hl.denotes
  have hredu := hk.toTabular.reduced hr.denotes
  exact wp_applyBranches ih hk hready (hl.apart hredt) (hr.apart hredu)
    (fun k' hlater => (hlater.held hl).level) (by simp only [Tree.height]; omega)
    (by simp only [Tree.height]; omega) hdepth hfits

end Levels

/-- The diagram with the smaller variable is taken apart.  A constant is at the level behind all
variables, so it counts as the larger one. -/
theorem wp_applyLevels (ih : Applies env N op depth) (hk : Consistent N k) (hready : Ready N k)
    (hl : Held k l t) (hr : Held k r u) (hnonconst : ¬(l < 2 ∧ r < 2))
    (hdepth : t.height + u.height < depth + 1) (hfits : Fits k (t.height + u.height)) :
    Wp (if k.level l = k.level r then
        makeBranches env (·.level l) (fun k => applyRec env op depth (k.low l) (k.low r))
          fun k => applyRec env op depth (k.high l) (k.high r)
      else if k.level l < k.level r then
        makeBranches env (·.level l) (fun k => applyRec env op depth (k.low l) r)
          fun k => applyRec env op depth (k.high l) r
      else
        makeBranches env (·.level r) (fun k => applyRec env op depth l (k.low r))
          fun k => applyRec env op depth l (k.high r))
      (Made N k (Tree.apply op.eval t u)) Stops k := by
  cases t with
  | leaf b =>
    cases u with
    | leaf c =>
      rw [hl.eq_toNat, hr.eq_toNat] at hnonconst
      exact absurd ⟨Bool.toNat_lt b, Bool.toNat_lt c⟩ hnonconst
    | node w lo hi =>
      have hw := w.isLt
      rw [hl.level_leaf hready, hr.level, if_neg (by omega), if_neg (by omega)]
      exact wp_applyRight ih hk hready hl hr trivial hdepth hfits
  | node v lo hi =>
    cases u with
    | leaf c =>
      have hv := v.isLt
      rw [hr.level_leaf hready, hl.level, if_neg (by omega), if_pos (by omega)]
      exact wp_applyLeft ih hk hready hl hr trivial hdepth hfits
    | node w lo' hi' =>
      rw [hl.level, hr.level]
      -- the smaller variable is on the left, on both sides, or on the right
      rcases lt_trichotomy v w with hvw | rfl | hwv
      · rw [if_neg (by omega), if_pos (by omega)]
        exact wp_applyLeft ih hk hready hl hr hvw hdepth hfits
      · rw [if_pos rfl]
        exact wp_applyBoth ih hk hready hl hr hdepth hfits
      · rw [if_neg (by omega), if_neg (by omega)]
        exact wp_applyRight ih hk hready hl hr hwv hdepth hfits

/-- **The recursion of `bdd_apply`.**  The induction is on the depth, which the two heights bound
together: each call takes a level from one diagram at least. -/
theorem wp_applyRec (hop : op ≠ .not) (depth : ℕ) : Applies env N op depth := by
  induction depth with
  | zero => exact fun _ _ _ _ hdepth _ => absurd hdepth (Nat.not_lt_zero _)
  | succ depth ih =>
    intro k l r t u hk hready hl hr hdepth hfits
    have hredt := hk.toTabular.reduced hl.denotes
    have hredu := hk.toTabular.reduced hr.denotes
    rw [applyRec]
    split
    · next res hres =>
      exact ⟨hk, .refl k, denotes_applyShortcut hl.denotes hr.denotes hredt hredu hres⟩
    · refine wp_ite (fun hconst => ?_) fun hnonconst => ?_
      · obtain ⟨b, rfl, rfl⟩ := hl.denotes.leaf_of_lt hconst.1
        obtain ⟨c, rfl, rfl⟩ := hr.denotes.leaf_of_lt hconst.2
        exact ⟨hk, .refl k, denotes_oprres op b c⟩
      · rw [wp_bind, wp_get]
        refine wp_ite (fun hhit => ?_) fun hmiss => ?_
        · -- a result of the cache
          obtain ⟨t', ht', -, hres⟩ := hk.cached _ l hhit.1
          rw [hhit.2.2, if_neg hop, hhit.2.1] at hres
          obtain ⟨u', hu', -, hres⟩ := hres
          rw [ht'.det hl.denotes, hu'.det hr.denotes] at hres
          exact ⟨hk, .refl k, hres⟩
        · rw [wp_bind]
          refine Wp.imp (Q := Made N k (Tree.apply op.eval t u)) ?_ ?_
          · exact wp_applyLevels ih hk hready hl hr hnonconst hdepth hfits
          · -- the result is stored for the next call
            intro res k' hmade
            rw [wp_bind, wp_modify, wp_pure]
            refine hmade.modifyEntry fun a ha => ?_
            obtain rfl := Option.some.inj ha
            refine ⟨t, (hmade.2.1.held hl).denotes, hredt, ?_⟩
            rw [if_neg hop]
            exact ⟨u, (hmade.2.1.held hr).denotes, hredu, hmade.2.2⟩

end Apply

/-- A negation is computed on the branches. -/
theorem compl_node {v : Fin N} {lo hi : Tree (Fin N)} (h : (Tree.node v lo hi).Reduced) :
    (Tree.node v lo hi).compl = Tree.makeNode v lo.compl hi.compl := by
  rw [Tree.makeNode, if_neg fun heq => h.1 (Tree.compl_injective heq)]
  rfl

/-- **The recursion of `bdd_not`.**  The induction is on the depth, which the height of the
diagram bounds; a hit in the cache is a result of before. -/
theorem wp_notRec (depth : ℕ) : ∀ {k : Kernel} {r : ℕ} {t : Tree (Fin N)}, Consistent N k →
    Held k r t → t.height < depth → Fits k t.height →
    Wp (notRec env depth r) (Made N k t.compl) Stops k := by
  induction depth with
  | zero => exact fun _ _ hdepth _ => absurd hdepth (Nat.not_lt_zero _)
  | succ depth ih =>
    intro k r t hk hr hdepth hfits
    refine wp_ite (fun hzero => ?_) fun hr0 => wp_ite (fun hone => ?_) fun hr1 => ?_
    · -- the constants are exchanged
      subst hzero
      rw [denotes_zero_iff.mp hr.denotes]
      exact ⟨hk, .refl k, .one⟩
    · subst hone
      rw [denotes_one_iff.mp hr.denotes]
      exact ⟨hk, .refl k, .zero⟩
    · rw [wp_bind, wp_get]
      refine wp_ite (fun hhit => ?_) fun hmiss => ?_
      · -- a result of the cache
        obtain ⟨t', ht', -, hres⟩ := hk.cached _ r hhit.1
        rw [if_pos hhit.2, ht'.det hr.denotes] at hres
        exact ⟨hk, .refl k, hres⟩
      · have hred := hk.toTabular.reduced hr.denotes
        rw [wp_bind]
        refine Wp.imp (Q := Made N k t.compl) ?_ ?_
        · cases t with
          -- the constants were handled above
          | leaf b => exact absurd hr.eq_toNat (by cases b <;> simp_all)
          | node v lo hi =>
            rw [compl_node hred]
            simp only [Tree.height] at hdepth hfits
            refine wp_makeBranches hfits (Tree.above_compl hred.2.1) (Tree.above_compl hred.2.2.1)
              (fun k' hlater => (hlater.held hr).level) ?_ fun k' hk' hlater hfits' => ?_
            · exact ih hk (hr.low hk.toTabular) (by omega) (hfits.mono (by omega))
            · exact ih hk' ((hlater.held hr).high hk'.toTabular) (by omega)
                (hfits'.mono (by omega))
        · -- the result is stored for the next call
          intro res k' hmade
          rw [wp_bind, wp_modify, wp_pure]
          refine hmade.modifyEntry fun a ha => ?_
          obtain rfl := Option.some.inj ha
          exact ⟨t, (hmade.2.1.held hr).denotes, hred, by rw [if_pos rfl]; exact hmade.2.2⟩

/-! ### The operators -/

/-- A node with a full counter, which is never freed. -/
structure Pinned (k : Kernel) (n : ℕ) (t : Tree (Fin N)) : Prop where
  denotes : Denotes k.nodes n t
  refcou : (k.nodes n).refcou = maxref

theorem Pinned.held {n : ℕ} {t : Tree (Fin N)} (h : Pinned k n t) : Held k n t := by
  refine ⟨Root.live (.inr ?_), h.denotes⟩
  rw [h.refcou]
  decide

theorem Pinned.later {n : ℕ} {t : Tree (Fin N)} (h : Pinned k n t) (hlater : Later k k') :
    Pinned k' n t :=
  ⟨(hlater.held h.held).denotes, (hlater.refcou n).trans h.refcou⟩

/-- The kernel between two operations, with all variables defined. -/
structure Idle (N : ℕ) (k : Kernel) : Prop extends Consistent N k where
  ready : Ready N k
  running : k.running = true
  refstack : k.refstack = []
  room : 2 * N + 1 ≤ k.refstacksize
  varnum : k.varnum = N
  varset : ∀ v : Fin N, Pinned k (k.varset (v * 2)) (.node v (.leaf false) (.leaf true))

/-- What operations keep is kept between operations. -/
theorem Idle.kept (h : Idle N k) (hk' : Consistent N k') (hkept : Kept k k') : Idle N k' where
  toConsistent := hk'
  ready := hkept.ready h.toTabular h.ready
  running := hkept.running.trans h.running
  refstack := hkept.refstack.trans h.refstack
  room := hkept.refstacksize ▸ h.room
  varnum := hkept.varnum.trans h.varnum
  varset v := by
    rw [hkept.varset]
    exact (h.varset v).later hkept.toLater

theorem Idle.wp_check (h : Idle N k) {n : ℕ} {t : Tree (Fin N)} (hn : Denotes k.nodes n t)
    {Q : PUnit → Kernel → Prop} {E : BddError → Kernel → Prop} (hQ : Q ⟨⟩ k) :
    Wp (check n) Q E k := by
  have hlt : n < k.nodesize := by
    have := h.three_le
    rcases hn.lt_or_used with hlt | hused
    · omega
    · exact h.lt_nodesize hused
  rw [check, wp_bind, wp_get, if_neg (by simp [h.running]), if_neg (by omega),
    if_neg fun hnone => (hn.used hnone.1).2 hnone.2]
  exact hQ

theorem Idle.wp_initref (h : Idle N k) {Q : PUnit → Kernel → Prop} {E : BddError → Kernel → Prop}
    (hQ : Q ⟨⟩ k) : Wp initref Q E k := by
  rw [initref, wp_modify, ← h.refstack]
  exact hQ

variable {l r : ℕ} {a b : Bdd (Fin N)}

/-- **`bdd_apply` refines the connective**: what is live stays, and the result is the node of the
connective of the diagrams, however often the table was collected and resized. -/
theorem wp_bddApply {op : BddOp} (hop : op ≠ .not) (h : Idle N k) (hl : Held k l a.tree)
    (hr : Held k r b.tree) :
    Wp (bddApply env l r op) (fun res k' => Idle N k' ∧ Kept k k' ∧
      Denotes k'.nodes res (Diagram.bddApply op.eval a b).tree) Stops k := by
  have hN := h.varnum_le
  have hroom := h.room
  have hheighta := a.reduced.height_le
  have hheightb := b.reduced.height_le
  rw [bddApply, wp_bind]
  refine h.wp_check hl.denotes ?_
  rw [wp_bind]
  refine h.wp_check hr.denotes ?_
  rw [if_neg hop, wp_bind]
  refine h.wp_initref ?_
  refine (wp_applyRec hop recursionDepth h.toConsistent h.ready hl hr ?_ ?_).imp ?_
  · rw [recursionDepth]
    omega
  · rw [Fits, h.refstack, List.length_nil]
    omega
  · rintro res k' ⟨hk', hkept, hden⟩
    exact ⟨h.kept hk' hkept, hkept, hden⟩

/-- **`bdd_not` refines the negation.** -/
theorem wp_bddNot (h : Idle N k) (hr : Held k r a.tree) :
    Wp (bddNot env r) (fun res k' => Idle N k' ∧ Kept k k' ∧
      Denotes k'.nodes res (Diagram.bddNot a).tree) Stops k := by
  have hN := h.varnum_le
  have hroom := h.room
  have hheight := a.reduced.height_le
  rw [bddNot, wp_bind]
  refine h.wp_check hr.denotes ?_
  rw [wp_bind]
  refine h.wp_initref ?_
  refine (wp_notRec recursionDepth h.toConsistent hr ?_ ?_).imp ?_
  · rw [recursionDepth]
    omega
  · rw [Fits, h.refstack, List.length_nil]
    omega
  · rintro res k' ⟨hk', hkept, hden⟩
    exact ⟨h.kept hk' hkept, hkept, hden⟩

/-- **A collection between operations.** -/
theorem wp_bddGbc_idle (h : Idle N k) {E : BddError → Kernel → Prop} :
    Wp bddGbc (fun _ k' => Idle N k' ∧ Kept k k' ∧
      ∀ n, Used k'.nodes n ↔ Used k.nodes n ∧ Live k n) E k :=
  (wp_bddGbc h.toTabular).imp fun _ _ hcollected =>
    ⟨h.kept (hcollected.consistent h.toTabular) (hcollected.kept h.toTabular),
      hcollected.kept h.toTabular, hcollected.used⟩

end RulesAnalyzer.Buddy
