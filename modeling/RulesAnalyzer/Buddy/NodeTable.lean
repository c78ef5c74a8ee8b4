import RulesAnalyzer.Buddy.Operators
import RulesAnalyzer.Diagram.Apply
import RulesAnalyzer.Shared.Linked
import RulesAnalyzer.Shared.Marking
import Mathlib.Tactic.IntervalCases

/-!
# What the node table denotes

A node denotes a diagram: its level is the variable that is tested, and its
children denote the branches.  The table is consistent when every used node denotes
a reduced diagram, no two used nodes are equal, the chains of the buckets and the
free list hold every node once, and the entries of the cache are results.  In a
consistent table a diagram has at most one node.

A node is live when it can be reached from the reference stack or from a node with
a reference count.  An operation may free and build other nodes, but keeps the
live ones.

## Main definitions

* `Denotes` — a node denotes a diagram.
* `Consistent` — the invariant of the kernel.
* `Live`, `Held`, `Later`, `Kept` — the nodes that are in use, and the frame of an operation.

## Main results

* `Denotes.det`, `Consistent.injective` — **a node has one diagram, and a diagram one node.**
* `Later.denotes`, `Later.trans` — live nodes keep their diagrams.
-/

namespace RulesAnalyzer.Buddy

-- Mathlib has trees of this name, too
export Diagram (Tree Tree.leaf Tree.node Tree.height)

open Diagram Shared

variable {N : ℕ}

/-! ### Diagrams of nodes -/

/-- The node denotes the diagram. -/
inductive Denotes (nodes : ℕ → BddNode) : ℕ → Tree (Fin N) → Prop
  | zero : Denotes nodes 0 (.leaf false)
  | one : Denotes nodes 1 (.leaf true)
  | node {n low : ℕ} {v : Fin N} {lo hi} : 2 ≤ n → (nodes n).low = some low →
      (nodes n).level = v →
      Denotes nodes low lo → Denotes nodes (nodes n).high hi → Denotes nodes n (.node v lo hi)

/-- The fields of a node that its diagram depends on. -/
structure SameCore (a b : BddNode) : Prop where
  level : a.level = b.level
  low : a.low = b.low
  high : a.high = b.high

theorem SameCore.refl (a : BddNode) : SameCore a a := ⟨rfl, rfl, rfl⟩

theorem SameCore.trans {a b c : BddNode} (h : SameCore a b) (h' : SameCore b c) : SameCore a c :=
  ⟨h.level.trans h'.level, h.low.trans h'.low, h.high.trans h'.high⟩

/-- A node other than the constants that is not free. -/
def Used (nodes : ℕ → BddNode) (n : ℕ) : Prop := 2 ≤ n ∧ (nodes n).low ≠ none

instance (nodes : ℕ → BddNode) : DecidablePred (Used nodes) := fun _ =>
  inferInstanceAs (Decidable (_ ∧ _))

section Denotes

variable {nodes nodes' : ℕ → BddNode} {n m : ℕ} {t u : Tree (Fin N)}

theorem Denotes.used (h : Denotes nodes n t) (hn : 2 ≤ n) : Used nodes n := by
  cases h with
  | zero => omega
  | one => omega
  | node hn hlow => exact ⟨hn, by simp [hlow]⟩

theorem Denotes.lt_or_used (h : Denotes nodes n t) : n < 2 ∨ Used nodes n :=
  (lt_or_ge n 2).imp_right h.used

@[simp] theorem denotes_zero_iff : Denotes nodes 0 t ↔ t = .leaf false := by
  refine ⟨fun h => ?_, fun h => h ▸ .zero⟩
  cases h with
  | zero => rfl
  | node hn => omega

@[simp] theorem denotes_one_iff : Denotes nodes 1 t ↔ t = .leaf true := by
  refine ⟨fun h => ?_, fun h => h ▸ .one⟩
  cases h with
  | one => rfl
  | node hn => omega

/-- The constants denote the constants. -/
theorem Denotes.leaf_of_lt (h : Denotes nodes n t) (hn : n < 2) :
    ∃ b : Bool, n = b.toNat ∧ t = .leaf b := by
  cases h with
  | zero => exact ⟨false, rfl, rfl⟩
  | one => exact ⟨true, rfl, rfl⟩
  | node => omega

/-- **A node denotes one diagram.** -/
theorem Denotes.det (h : Denotes nodes n t) (h' : Denotes nodes n u) : t = u := by
  induction h generalizing u with
  | zero => exact (denotes_zero_iff.mp h').symm
  | one => exact (denotes_one_iff.mp h').symm
  | node hn hlow hlevel _ _ ihlo ihhi =>
    cases h' with
    | zero => omega
    | one => omega
    | node _ hlow' hlevel' hlo' hhi' =>
      obtain rfl := Option.some.inj (hlow.symm.trans hlow')
      rw [Fin.ext (hlevel.symm.trans hlevel'), ihlo hlo', ihhi hhi']

/-- The diagram stays when the used nodes stay. -/
theorem Denotes.mono (h : Denotes nodes n t)
    (hsame : ∀ n, Used nodes n → SameCore (nodes n) (nodes' n)) : Denotes nodes' n t := by
  induction h with
  | zero => exact .zero
  | one => exact .one
  | node hn hlow hlevel _ _ ihlo ihhi =>
    have hcore := hsame _ ⟨hn, by simp [hlow]⟩
    refine .node hn (hcore.low ▸ hlow) (hcore.level ▸ hlevel) ihlo ?_
    rwa [hcore.high] at ihhi

/-- No two used nodes have the same level and children. -/
def Unique (nodes : ℕ → BddNode) : Prop :=
  ∀ n m, Used nodes n → Used nodes m → SameCore (nodes n) (nodes m) → n = m

/-- **A diagram has one node.** -/
theorem Denotes.injective (hunique : Unique nodes) (h : Denotes nodes n t)
    (h' : Denotes nodes m t) : n = m := by
  induction h generalizing m with
  | zero => cases h'; rfl
  | one => cases h'; rfl
  | node hn hlow hlevel _ _ ihlo ihhi =>
    cases h' with
    | node hm hlow' hlevel' hlo' hhi' =>
      refine hunique _ _ ⟨hn, by simp [hlow]⟩ ⟨hm, by simp [hlow']⟩ ⟨?_, ?_, ihhi hhi'⟩
      · rw [hlevel, hlevel']
      · rw [hlow, hlow', ihlo hlo']

end Denotes

/-! ### Live nodes -/

/-- The children of a node that are not constants. -/
def children (nodes : ℕ → BddNode) (n : ℕ) : List ℕ :=
  [(nodes n).low.getD 0, (nodes n).high].filter (Used nodes)

/-- A node that the garbage collection starts from. -/
def Root (k : Kernel) (n : ℕ) : Prop := n ∈ k.refstack ∨ 0 < (k.nodes n).refcou

/-- A node that can be reached. -/
def Live (k : Kernel) (n : ℕ) : Prop := ∃ r, Root k r ∧ Reaches (children k.nodes) r n

theorem Root.live {k : Kernel} {n : ℕ} (h : Root k n) : Live k n := ⟨n, h, .refl⟩

theorem Live.child {k : Kernel} {n c : ℕ} (h : Live k n) (hc : c ∈ children k.nodes n) :
    Live k c := by
  obtain ⟨r, hr, hreach⟩ := h
  exact ⟨r, hr, hreach.tail hc⟩

theorem mem_children {nodes : ℕ → BddNode} {n c : ℕ} :
    c ∈ children nodes n ↔ (c = (nodes n).low.getD 0 ∨ c = (nodes n).high) ∧ Used nodes c := by
  simp [children]

/-! ### Consistency -/

/-- The bucket of a node that is used. -/
def bucketOf (nodesize : ℕ) (node : BddNode) : ℕ :=
  nodehash nodesize node.level (node.low.getD 0) node.high

/-- The chains of the buckets hold every used node once. -/
def Chained (k : Kernel) : Prop :=
  ∀ b < k.nodesize, ∃ l, Linked (fun n => (k.nodes n).next) (k.nodes b).hash l ∧
    ∀ n, n ∈ l ↔ Used k.nodes n ∧ bucketOf k.nodesize (k.nodes n) = b

/-- The free list holds every free node once. -/
def FreeListed (k : Kernel) : Prop :=
  ∃ l, Linked (fun n => (k.nodes n).next) k.freepos l ∧ l.length = k.freenum ∧
    ∀ n, n ∈ l ↔ 2 ≤ n ∧ n < k.nodesize ∧ (k.nodes n).low = none

/-- The value that an operator gives. -/
def BddOp.eval : BddOp → Bool → Bool → Bool
  | .and, l, r => l && r
  | .xor, l, r => l != r
  | .or, l, r => l || r
  | .nand, l, r => !(l && r)
  | .nor, l, r => !(l || r)
  | .imp, l, r => !l || r
  | .biimp, l, r => l == r
  | .diff, l, r => l && !r
  | .less, l, r => !l && r
  | .invimp, l, r => l || !r
  | .not, l, _ => !l

/-- An entry of the cache is empty or holds a result. -/
def EntrySound (N : ℕ) (nodes : ℕ → BddNode) (entry : BddCacheData) : Prop :=
  ∀ l, entry.a = some l → ∃ t : Tree (Fin N), Denotes nodes l t ∧ t.Reduced ∧
    if entry.c = .not then Denotes nodes entry.res t.compl
    else ∃ u : Tree (Fin N), Denotes nodes entry.b u ∧ u.Reduced ∧
      Denotes nodes entry.res (Tree.apply entry.c.eval t u)

/-- What the node table alone must satisfy. -/
structure Tabular (N : ℕ) (k : Kernel) : Prop where
  prime : k.nodesize.Prime
  three_le : 3 ≤ k.nodesize
  varnum_le : N ≤ maxvar
  zero : (k.nodes 0).low = some 0 ∧ (k.nodes 0).high = 0 ∧ (k.nodes 0).refcou = maxref
  one : (k.nodes 1).low = some 1 ∧ (k.nodes 1).high = 1 ∧ (k.nodes 1).refcou = maxref
  denotes : ∀ n, Used k.nodes n → ∃ t : Tree (Fin N), Denotes k.nodes n t ∧ t.Reduced
  unique : Unique k.nodes
  outside : ∀ n, k.nodesize ≤ n → (k.nodes n).low = none
  unused : ∀ n, (k.nodes n).low = none → (k.nodes n).refcou = 0
  stack : ∀ n ∈ k.refstack, n < 2 ∨ Used k.nodes n

/-- **The invariant of the kernel** for diagrams over `N` variables. -/
structure Consistent (N : ℕ) (k : Kernel) : Prop extends Tabular N k where
  chained : Chained k
  freeListed : FreeListed k
  cached : ∀ slot, EntrySound N k.nodes (k.applycache slot)

section Tabular

variable {k : Kernel} {n m : ℕ}

/-- **In a consistent table a diagram has one node.** -/
theorem Tabular.injective (h : Tabular N k) {t : Tree (Fin N)} (hn : Denotes k.nodes n t)
    (hm : Denotes k.nodes m t) : n = m := hn.injective h.unique hm

theorem Tabular.lt_nodesize (h : Tabular N k) (hn : Used k.nodes n) : n < k.nodesize := by
  by_contra hge
  exact hn.2 (h.outside n (not_lt.mp hge))

theorem Tabular.used_of_refcou (h : Tabular N k) (hn : 2 ≤ n) (href : 0 < (k.nodes n).refcou) :
    Used k.nodes n := by
  refine ⟨hn, fun hlow => ?_⟩
  rw [h.unused n hlow] at href
  exact lt_irrefl 0 href

theorem Tabular.lt_or_used_of_root (h : Tabular N k) (hroot : Root k n) :
    n < 2 ∨ Used k.nodes n := by
  rcases hroot with hmem | href
  · exact h.stack n hmem
  · exact (lt_or_ge n 2).imp_right fun hn => h.used_of_refcou hn href

theorem Tabular.lt_or_used_of_live (h : Tabular N k) (hlive : Live k n) :
    n < 2 ∨ Used k.nodes n := by
  obtain ⟨r, hroot, hreach⟩ := hlive
  cases hreach with
  | refl => exact h.lt_or_used_of_root hroot
  | tail _ hstep => exact .inr (mem_children.mp hstep).2

theorem Tabular.denotes_of_live (h : Tabular N k) (hlive : Live k n) :
    ∃ t : Tree (Fin N), Denotes k.nodes n t ∧ t.Reduced := by
  rcases h.lt_or_used_of_live hlive with hn | hused
  · interval_cases n
    · exact ⟨_, .zero, trivial⟩
    · exact ⟨_, .one, trivial⟩
  · exact h.denotes n hused

theorem Tabular.live_of_lt (h : Tabular N k) (hn : n < 2) : Live k n := by
  refine Root.live (.inr ?_)
  interval_cases n
  · rw [h.zero.2.2]; decide
  · rw [h.one.2.2]; decide

/-- What is below a live node is live. -/
theorem Tabular.live_below (h : Tabular N k) {c : ℕ} {t : Tree (Fin N)} (hlive : Live k n)
    (hc : c = (k.nodes n).low.getD 0 ∨ c = (k.nodes n).high) (hden : Denotes k.nodes c t) :
    Live k c := by
  rcases hden.lt_or_used with hlt | hused
  · exact h.live_of_lt hlt
  · exact hlive.child (mem_children.mpr ⟨hc, hused⟩)

/-- The diagram of a node that is used is reduced. -/
theorem Tabular.reduced (h : Tabular N k) {t : Tree (Fin N)} (hden : Denotes k.nodes n t) :
    t.Reduced := by
  cases hden with
  | zero => trivial
  | one => trivial
  | node hn hlow hlevel hlo hhi =>
    obtain ⟨u, hu, hred⟩ := h.denotes n ⟨hn, by simp [hlow]⟩
    rwa [(Denotes.node hn hlow hlevel hlo hhi).det hu]

end Tabular

/-! ### What operations keep -/

/-- **The frame of a run**: live nodes keep their diagrams, and only the stack may grow. -/
structure Later (k k' : Kernel) : Prop where
  core : ∀ n, Live k n → SameCore (k.nodes n) (k'.nodes n)
  refcou : ∀ n, (k'.nodes n).refcou = (k.nodes n).refcou
  stacked : ∀ n ∈ k.refstack, n ∈ k'.refstack
  refstacksize : k'.refstacksize = k.refstacksize
  running : k'.running = k.running
  varnum : k'.varnum = k.varnum
  varset : k'.varset = k.varset

/-- The frame of an operation, which leaves the stack as it was. -/
structure Kept (k k' : Kernel) : Prop extends Later k k' where
  refstack : k'.refstack = k.refstack

/-- A live node that denotes the diagram. -/
structure Held (k : Kernel) (n : ℕ) (t : Tree (Fin N)) : Prop where
  live : Live k n
  denotes : Denotes k.nodes n t

section Later

variable {k k' k'' : Kernel} {n : ℕ}

theorem Later.refl (k : Kernel) : Later k k :=
  ⟨fun _ _ => .refl _, fun _ => rfl, fun _ => id, rfl, rfl, rfl, rfl⟩

theorem Kept.refl (k : Kernel) : Kept k k := ⟨.refl k, rfl⟩

theorem Later.root (h : Later k k') (hroot : Root k n) : Root k' n := by
  rw [Root, h.refcou]
  exact hroot.imp_left (h.stacked n)

theorem Later.used (h : Later k k') (hlive : Live k n) (hused : Used k.nodes n) : Used k'.nodes n :=
  ⟨hused.1, (h.core n hlive).low ▸ hused.2⟩

/-- What is live stays live. -/
theorem Later.live (h : Later k k') (hlive : Live k n) : Live k' n := by
  obtain ⟨r, hroot, hreach⟩ := hlive
  induction hreach with
  | refl => exact (h.root hroot).live
  | @tail m c hpath hstep ih =>
    have hlive : Live k m := ⟨r, hroot, hpath⟩
    obtain ⟨hc, hused⟩ := mem_children.mp hstep
    have hcore := h.core m hlive
    refine ih.child (mem_children.mpr ⟨?_, h.used (hlive.child hstep) hused⟩)
    rwa [← hcore.low, ← hcore.high]

/-- **Live nodes keep their diagrams.** -/
theorem Later.denotes (h : Later k k') {t : Tree (Fin N)} (hlive : Live k n)
    (hden : Denotes k.nodes n t) : Denotes k'.nodes n t := by
  induction hden with
  | zero => exact .zero
  | one => exact .one
  | @node n low v lo hi hn hlow hlevel hlo hhi ihlo ihhi =>
    have hcore := h.core n hlive
    -- a child is a constant or live
    have hchild : ∀ {c : ℕ} {t : Tree (Fin N)},
        (c = (k.nodes n).low.getD 0 ∨ c = (k.nodes n).high) → Denotes k.nodes c t →
        (Live k c → Denotes k'.nodes c t) → Denotes k'.nodes c t := by
      intro c t hc hden ih
      rcases hden.lt_or_used with hlt | hused
      · interval_cases c
        · rw [denotes_zero_iff.mp hden]; exact .zero
        · rw [denotes_one_iff.mp hden]; exact .one
      · exact ih (hlive.child (mem_children.mpr ⟨hc, hused⟩))
    refine .node hn (hcore.low ▸ hlow) (hcore.level ▸ hlevel) (hchild ?_ hlo ihlo) ?_
    · rw [hlow]; exact .inl rfl
    · rw [← hcore.high]
      exact hchild (.inr rfl) hhi ihhi

theorem Later.held (h : Later k k') {t : Tree (Fin N)} (hn : Held k n t) : Held k' n t :=
  ⟨h.live hn.live, h.denotes hn.live hn.denotes⟩

theorem Later.trans (h : Later k k') (h' : Later k' k'') : Later k k'' where
  core n hlive := (h.core n hlive).trans (h'.core n (h.live hlive))
  refcou n := (h'.refcou n).trans (h.refcou n)
  stacked n hn := h'.stacked n (h.stacked n hn)
  refstacksize := h'.refstacksize.trans h.refstacksize
  running := h'.running.trans h.running
  varnum := h'.varnum.trans h.varnum
  varset := h'.varset.trans h.varset

theorem Kept.trans (h : Kept k k') (h' : Kept k' k'') : Kept k k'' :=
  ⟨h.toLater.trans h'.toLater, h'.refstack.trans h.refstack⟩

end Later

/-! ### Tables with fewer nodes -/

/-- Every used node was one before, and what the roots need is there. -/
structure Restricted (N : ℕ) (k k' : Kernel) : Prop where
  used : ∀ n, Used k'.nodes n → Used k.nodes n
  core : ∀ n, n < 2 ∨ Used k'.nodes n → SameCore (k.nodes n) (k'.nodes n)
  denotes : ∀ n (t : Tree (Fin N)), Used k'.nodes n → Denotes k.nodes n t → Denotes k'.nodes n t
  roots : ∀ n, Root k n → Used k.nodes n → Used k'.nodes n
  refcou : ∀ n, (k'.nodes n).refcou = (k.nodes n).refcou
  refstack : k'.refstack = k.refstack

theorem Restricted.tabular {k k' : Kernel} (hres : Restricted N k k') (h : Tabular N k)
    (hprime : k'.nodesize.Prime) (hthree : 3 ≤ k'.nodesize)
    (houtside : ∀ n, k'.nodesize ≤ n → (k'.nodes n).low = none) : Tabular N k' where
  prime := hprime
  three_le := hthree
  varnum_le := h.varnum_le
  zero := by
    have hzero := hres.core 0 (.inl (by omega))
    rw [← hzero.low, ← hzero.high, hres.refcou]
    exact h.zero
  one := by
    have hone := hres.core 1 (.inl (by omega))
    rw [← hone.low, ← hone.high, hres.refcou]
    exact h.one
  denotes n hn := by
    obtain ⟨t, hden, hred⟩ := h.denotes n (hres.used n hn)
    exact ⟨t, hres.denotes n t hn hden, hred⟩
  unique n m hn hm hsame := by
    refine h.unique n m (hres.used n hn) (hres.used m hm) ?_
    have hn := hres.core n (.inr hn)
    have hm := hres.core m (.inr hm)
    exact ⟨hn.level.trans (hsame.level.trans hm.level.symm),
      hn.low.trans (hsame.low.trans hm.low.symm), hn.high.trans (hsame.high.trans hm.high.symm)⟩
  outside := houtside
  unused n hlow := by
    rw [hres.refcou]
    -- a node with references is a root, and roots stay
    by_contra href
    have hroot : Root k n := .inr (Nat.pos_of_ne_zero href)
    rcases h.lt_or_used_of_root hroot with hn | hused
    · refine absurd hlow ?_
      rw [← (hres.core n (.inl hn)).low]
      interval_cases n
      · rw [h.zero.1]; simp
      · rw [h.one.1]; simp
    · exact (hres.roots n hroot hused).2 hlow
  stack n hn := by
    rw [hres.refstack] at hn
    exact (h.stack n hn).imp_right (hres.roots n (.inl hn))

theorem Restricted.refl (k : Kernel) : Restricted N k k :=
  ⟨fun _ => id, fun _ _ => .refl _, fun _ _ _ => id, fun _ _ => id, fun _ => rfl, rfl⟩

theorem Restricted.trans {k k' k'' : Kernel} (h : Restricted N k k') (h' : Restricted N k' k'') :
    Restricted N k k'' where
  used n hn := h.used n (h'.used n hn)
  core n hn := (h.core n (hn.imp_right (h'.used n))).trans (h'.core n hn)
  denotes n t hn hden := h'.denotes n t hn (h.denotes n t (h'.used n hn) hden)
  roots n hroot hused := by
    refine h'.roots n ?_ (h.roots n hroot hused)
    rw [Root, h.refstack, h.refcou]
    exact hroot
  refcou n := (h'.refcou n).trans (h.refcou n)
  refstack := h'.refstack.trans h.refstack

end RulesAnalyzer.Buddy
