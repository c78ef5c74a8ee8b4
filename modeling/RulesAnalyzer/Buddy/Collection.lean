import RulesAnalyzer.Buddy.Relink
import Mathlib.Data.Nat.Bitwise

/-!
# Garbage collection

The collection marks from the reference stack and from every node with a reference
count.  The mark is a bit of the level, above the bits that a level can use, so it
disappears without a trace when the sweep links the node again.

## Main definitions

* `markNodes` — a table with the marks set.
* `Collected` — what a collection leaves.

## Main results

* `wp_bddMark` — marking is a depth-first marking of the graph of the nodes.
* `wp_bddGbc` — **a collection frees the nodes that are not live, and no others.**
* `Collected.consistent`, `Collected.kept` — the table stays consistent, live nodes stay.
-/

namespace RulesAnalyzer.Buddy

open Effect Diagram Shared

variable {N : ℕ}

/-! ### The mark -/

theorem marked_eq_false {node : BddNode} (h : node.level ≤ maxvar) : node.marked = false := by
  have hlt : node.level < 2 ^ 21 := Nat.lt_succ_of_le h
  rw [BddNode.marked, markon, show (0x200000 : ℕ) = 2 ^ 21 from rfl, Nat.and_two_pow,
    Nat.testBit_lt_two_pow hlt]
  rfl

theorem marked_setMark (node : BddNode) : node.setMark.marked = true := by
  rw [BddNode.marked, BddNode.setMark, markon, show (0x200000 : ℕ) = 2 ^ 21 from rfl,
    Nat.and_two_pow, Nat.testBit_or, Nat.testBit_two_pow_self, Bool.or_true]
  rfl

theorem unmark_setMark {node : BddNode} (h : node.level ≤ maxvar) : node.setMark.unmark = node := by
  have hlt : node.level < 2 ^ 21 := Nat.lt_succ_of_le h
  have hlevel : (node.level ||| markon) &&& markoff = node.level := by
    rw [markon, markoff, show (0x200000 : ℕ) = 2 ^ 21 from rfl,
      show (0x1FFFFF : ℕ) = 2 ^ 21 - 1 from rfl, Nat.and_two_pow_sub_one_eq_mod,
      Nat.or_mod_two_pow, Nat.mod_self, Nat.or_zero, Nat.mod_eq_of_lt hlt]
  rw [BddNode.unmark, BddNode.setMark, hlevel]

open Classical in
/-- The table with marks on some nodes. -/
noncomputable def markNodes (M : Set ℕ) (nodes : ℕ → BddNode) (n : ℕ) : BddNode :=
  if n ∈ M then (nodes n).setMark else nodes n

section markNodes

variable (M : Set ℕ) (nodes : ℕ → BddNode) (n : ℕ)

@[simp] theorem markNodes_empty : markNodes ∅ nodes = nodes := by
  funext n
  simp [markNodes]

@[simp] theorem markNodes_low : (markNodes M nodes n).low = (nodes n).low := by
  unfold markNodes
  split <;> rfl

@[simp] theorem markNodes_high : (markNodes M nodes n).high = (nodes n).high := by
  unfold markNodes
  split <;> rfl

@[simp] theorem markNodes_refcou : (markNodes M nodes n).refcou = (nodes n).refcou := by
  unfold markNodes
  split <;> rfl

@[simp] theorem markNodes_hash : (markNodes M nodes n).hash = (nodes n).hash := by
  unfold markNodes
  split <;> rfl

variable {M nodes n}

theorem marked_markNodes (h : (nodes n).level ≤ maxvar) :
    (markNodes M nodes n).marked = true ↔ n ∈ M := by
  unfold markNodes
  split
  · next hn => simp [hn, marked_setMark]
  · next hn => simp [hn, marked_eq_false h]

theorem markNodes_insert (hn : n ∉ M) :
    Function.update (markNodes M nodes) n (markNodes M nodes n).setMark =
      markNodes (insert n M) nodes := by
  funext m
  rw [Function.update_apply]
  split
  · next hmn => subst hmn; simp [markNodes, hn]
  · next hmn =>
    unfold markNodes
    congr 1
    rw [Set.mem_insert_iff, or_iff_right hmn]

end markNodes

/-- The level of a node with a diagram leaves the mark bit alone. -/
theorem Denotes.level_le {nodes : ℕ → BddNode} {n : ℕ} {t : Tree (Fin N)} (hN : N ≤ maxvar)
    (h : Denotes nodes n t) (hn : 2 ≤ n) : (nodes n).level ≤ maxvar := by
  cases h with
  | zero => omega
  | one => omega
  | @node _ _ v _ _ _ _ hlevel =>
    have := v.isLt
    omega

/-! ### Marking -/

section Mark

variable {E : BddError → Kernel → Prop} {base : ℕ → BddNode}

/-- **Marking a node searches what is below it.**  The induction is on the diagram of the node; a
node that carries a mark has been searched before. -/
theorem wp_bddMark (hN : N ≤ maxvar) {i depth : ℕ} {t : Tree (Fin N)} (hden : Denotes base i t)
    (hdepth : t.height < depth) {M : Set ℕ} {k : Kernel} (hk : k.nodes = markNodes M base) :
    Wp (bddMark depth i) (fun _ k' => ∃ M', k' = { k with nodes := markNodes M' base } ∧
      Marks (children base) M ([i].filter (Used base)) M') E k := by
  induction hden generalizing depth M k with
  | zero | one =>
    obtain ⟨depth, rfl⟩ := Nat.exists_eq_add_of_lt hdepth
    exact ⟨M, by rw [← hk], by simpa [Used] using Marks.nil⟩
  | @node i low v lo hi hi2 hlow hlevel hlo hhi ihlo ihhi =>
    obtain ⟨depth, rfl⟩ : ∃ d, depth = d + 1 := ⟨depth - 1, by omega⟩
    have hused : Used base i := ⟨hi2, by simp [hlow]⟩
    rw [Tree.height] at hdepth
    have hlist : [i].filter (Used base) = [i] := by simp [hused]
    rw [hlist, bddMark, if_neg (by omega), wp_bind, wp_get]
    simp only [hk, markNodes_low, hlow]
    refine wp_ite (fun hmarked => ?_) fun hmarked => ?_
    · -- the node has been searched before
      have hi : i ∈ M :=
        (marked_markNodes ((Denotes.node hi2 hlow hlevel hlo hhi).level_le hN hi2)).mp hmarked
      exact ⟨M, by rw [← hk], .seen hi .nil⟩
    · -- the node is marked first, then the search goes into both branches
      have hi : i ∉ M := fun hi => hmarked
        ((marked_markNodes ((Denotes.node hi2 hlow hlevel hlo hhi).level_le hN hi2)).mpr hi)
      rw [wp_bind, wp_modify, wp_bind]
      refine (ihlo (show _ < depth by omega) (k := k.modifyNode i .setMark)
        (by rw [Kernel.modifyNode_nodes, hk, markNodes_insert hi])).imp ?_
      rintro - k₁ ⟨M₁, rfl, hmarks₁⟩
      rw [wp_bind, wp_get]
      simp only [markNodes_high]
      refine (ihhi (show _ < depth by omega) rfl).imp ?_
      rintro - k₂ ⟨M₂, rfl, hmarks₂⟩
      refine ⟨M₂, rfl, .new hi ?_ .nil⟩
      have happend := hmarks₁.append hmarks₂
      rw [← List.filter_append, List.singleton_append] at happend
      rwa [children, hlow]

/-- A table in which some buckets are emptied. -/
def cleared (passed : List ℕ) (nodes : ℕ → BddNode) (n : ℕ) : BddNode :=
  if n ∈ passed then { nodes n with hash := 0 } else nodes n

theorem cleared_content (passed : List ℕ) (nodes : ℕ → BddNode) (n : ℕ) :
    SameContent (nodes n) (cleared passed nodes n) := by
  unfold cleared
  split <;> exact ⟨⟨rfl, rfl, rfl⟩, rfl⟩

@[simp] theorem cleared_nil (nodes : ℕ → BddNode) : cleared [] nodes = nodes := by
  funext n
  simp [cleared]

theorem cleared_append (passed : List ℕ) (M : Set ℕ) (b : ℕ) :
    Function.update (markNodes M (cleared passed base)) b
      { markNodes M (cleared passed base) b with hash := 0 } =
    markNodes M (cleared (passed ++ [b]) base) := by
  funext n
  rw [Function.update_apply]
  split
  · next hn =>
    subst hn
    simp only [markNodes, cleared, List.mem_append, List.mem_singleton, or_true, if_true]
    split_ifs <;> rfl
  · next hn => simp [markNodes, cleared, hn]

theorem used_congr {nodes nodes' : ℕ → BddNode} (h : ∀ n, SameCore (nodes n) (nodes' n)) :
    (fun n => decide (Used nodes n)) = fun n => decide (Used nodes' n) := by
  funext n
  rw [decide_eq_decide, Used, Used, (h n).low]

theorem children_congr {nodes nodes' : ℕ → BddNode} (h : ∀ n, SameCore (nodes n) (nodes' n)) :
    children nodes = children nodes' := by
  funext n
  rw [children, children, (h n).low, (h n).high, used_congr h]

/-- The round of a node: a search when it has references, and its bucket is emptied. -/
theorem wp_gbcRoot (hN : N ≤ maxvar) {b : ℕ} (hden : 0 < (base b).refcou →
    ∃ t : Tree (Fin N), Denotes base b t ∧ t.Reduced) {passed : List ℕ} {M : Set ℕ} {k : Kernel}
    (hk : k.nodes = markNodes M (cleared passed base)) :
    Wp (gbcRoot b) (fun _ k' => ∃ M',
      k' = { k with nodes := markNodes M' (cleared (passed ++ [b]) base) } ∧
      Marks (children base) M ([b].filter fun n => 0 < (base n).refcou ∧ Used base n) M') E k := by
  have hcontent := fun n => (cleared_content passed base n).toSameCore
  rw [gbcRoot, wp_bind, wp_get, hk, markNodes_refcou, ← (cleared_content passed base b).refcou,
    wp_bind]
  by_cases href : 0 < (base b).refcou
  · -- a node with references is a root; its diagram is not deeper than the recursion allows
    obtain ⟨t, hden, hred⟩ := hden href
    have hdepth : t.height < recursionDepth := by
      have := hred.height_le
      rw [recursionDepth]
      omega
    rw [if_pos href]
    refine (wp_bddMark hN (hden.mono fun n _ => hcontent n) hdepth hk).imp ?_
    rintro - k₁ ⟨M₁, rfl, hmarks⟩
    refine ⟨M₁, ?_, ?_⟩
    · simp only [Kernel.modifyNode, cleared_append]
    · rw [← children_congr hcontent, ← used_congr hcontent] at hmarks
      simpa [List.filter_cons, href] using hmarks
  · rw [if_neg href]
    refine ⟨M, ?_, by simpa [href] using Marks.nil⟩
    simp only [Kernel.modifyNode, hk, cleared_append]

end Mark

/-! ### The collection -/

variable {k k' : Kernel} {n : ℕ}

/-- What a collection leaves. -/
structure Collected (k k' : Kernel) : Prop where
  used : ∀ n, Used k'.nodes n ↔ Used k.nodes n ∧ Live k n
  content : ∀ n, n < 2 ∨ Used k.nodes n ∧ Live k n → SameContent (k.nodes n) (k'.nodes n)
  refcou : ∀ n, (k'.nodes n).refcou = (k.nodes n).refcou
  chained : Chained k'
  freeListed : FreeListed k'
  rest : k' = { k with
    nodes := k'.nodes
    freepos := k'.freepos
    freenum := k'.freenum
    applycache := fun n => { k.applycache n with a := none } }

/-- The nodes that stay. -/
def liveNodes (k : Kernel) : Set ℕ := {n | Used k.nodes n ∧ Live k n}

/-- The nodes that the marking starts from. -/
def markRoots (k : Kernel) : List ℕ :=
  k.refstack.reverse.filter (Used k.nodes) ++
    (List.range k.nodesize).filter fun n => 0 < (k.nodes n).refcou ∧ Used k.nodes n

theorem Tabular.mem_markRoots (h : Tabular N k) :
    n ∈ markRoots k ↔ Root k n ∧ Used k.nodes n := by
  simp only [markRoots, List.mem_append, List.mem_filter, List.mem_reverse, List.mem_range,
    decide_eq_true_eq, Root]
  constructor
  · rintro (⟨hmem, hused⟩ | ⟨-, href, hused⟩)
    · exact ⟨.inl hmem, hused⟩
    · exact ⟨.inr href, hused⟩
  · rintro ⟨hmem | href, hused⟩
    · exact .inl ⟨hmem, hused⟩
    · exact .inr ⟨h.lt_nodesize hused, href, hused⟩

/-- Nothing is below a constant. -/
theorem Tabular.notMem_children (h : Tabular N k) (hn : n < 2) (c : ℕ) :
    c ∉ children k.nodes n := by
  rw [mem_children]
  rintro ⟨hc, hused⟩
  have := hused.1
  interval_cases n
  · rw [h.zero.1, h.zero.2.1] at hc
    simp at hc
    omega
  · rw [h.one.1, h.one.2.1] at hc
    simp at hc
    omega

/-- The nodes that stay are those that the marking reaches. -/
theorem Tabular.liveNodes_eq (h : Tabular N k) :
    liveNodes k = {n | ∃ r ∈ markRoots k, Reaches (children k.nodes) r n} := by
  ext n
  constructor
  · rintro ⟨hused, r, hroot, hreach⟩
    refine ⟨r, h.mem_markRoots.mpr ⟨hroot, ?_⟩, hreach⟩
    rcases h.lt_or_used_of_root hroot with hr | hr
    · rcases hreach.cases_head with rfl | ⟨c, hc, -⟩
      · exact hused
      · exact absurd hc (h.notMem_children hr c)
    · exact hr
  · rintro ⟨r, hr, hreach⟩
    obtain ⟨hroot, hused⟩ := h.mem_markRoots.mp hr
    refine ⟨?_, r, hroot, hreach⟩
    cases hreach with
    | refl => exact hused
    | tail _ hstep => exact (mem_children.mp hstep).2

theorem Tabular.denotes_of_lt_or_used (h : Tabular N k) (hn : n < 2 ∨ Used k.nodes n) :
    ∃ t : Tree (Fin N), Denotes k.nodes n t ∧ t.Reduced := by
  rcases hn with hn | hn
  · exact h.denotes_of_live (h.live_of_lt hn)
  · exact h.denotes n hn

/-- The first loop marks what the stack of results leads to. -/
theorem wp_markStack (h : Tabular N k) {E : BddError → Kernel → Prop} :
    Wp (k.refstack.reverse.forM (bddMark recursionDepth)) (fun _ k' => ∃ M,
      k' = { k with nodes := markNodes M k.nodes } ∧
      Marks (children k.nodes) ∅ (k.refstack.reverse.filter (Used k.nodes)) M) E k := by
  refine (wp_forM (l := k.refstack.reverse)
    (I := fun passed rest k' => passed ++ rest = k.refstack.reverse ∧ ∃ M,
      k' = { k with nodes := markNodes M k.nodes } ∧
      Marks (children k.nodes) ∅ (passed.filter (Used k.nodes)) M) ?_ []
    ⟨rfl, ∅, by rw [markNodes_empty], .nil⟩).imp ?_
  · rintro passed b rest k₁ ⟨hpassed, M, rfl, hmarks⟩
    have hb : b ∈ k.refstack := by
      rw [← List.mem_reverse, ← hpassed]
      simp
    obtain ⟨t, hden, hred⟩ := h.denotes_of_lt_or_used (h.stack b hb)
    have hdepth : t.height < recursionDepth := by
      have := hred.height_le
      have := h.varnum_le
      rw [recursionDepth]
      omega
    refine (wp_bddMark h.varnum_le hden hdepth rfl).imp ?_
    rintro - k₂ ⟨M', rfl, hmarks'⟩
    refine ⟨by rw [← hpassed, List.append_assoc, List.singleton_append], M', rfl, ?_⟩
    rw [List.filter_append]
    exact hmarks.append hmarks'
  · rintro - k₁ ⟨-, M, rfl, hmarks⟩
    rw [List.nil_append] at hmarks
    exact ⟨M, rfl, hmarks⟩

/-- The second loop empties the buckets and marks what the counted nodes lead to. -/
theorem wp_markCounted (h : Tabular N k) {E : BddError → Kernel → Prop} {M : Set ℕ} :
    Wp ((List.range k.nodesize).forM gbcRoot) (fun _ k' => ∃ M',
      k' = { k with nodes := markNodes M' (cleared (List.range k.nodesize) k.nodes) } ∧
      Marks (children k.nodes) M ((List.range k.nodesize).filter
        fun n => 0 < (k.nodes n).refcou ∧ Used k.nodes n) M')
      E { k with nodes := markNodes M k.nodes } := by
  refine (wp_forM (l := List.range k.nodesize)
    (I := fun passed _ k' => ∃ M',
      k' = { k with nodes := markNodes M' (cleared passed k.nodes) } ∧
      Marks (children k.nodes) M (passed.filter
        fun n => 0 < (k.nodes n).refcou ∧ Used k.nodes n) M') ?_ []
    ⟨M, by rw [cleared_nil], .nil⟩).imp ?_
  · rintro passed b - k₁ ⟨M', rfl, hmarks⟩
    have hroot : 0 < (k.nodes b).refcou → b < 2 ∨ Used k.nodes b := fun href =>
      h.lt_or_used_of_root (.inr href)
    refine (wp_gbcRoot h.varnum_le (fun href => h.denotes_of_lt_or_used (hroot href)) rfl).imp ?_
    rintro - k₂ ⟨M'', rfl, hmarks'⟩
    refine ⟨M'', rfl, ?_⟩
    rw [List.filter_append]
    exact hmarks.append hmarks'
  · rintro - k₁ ⟨M', rfl, hmarks⟩
    rw [List.nil_append] at hmarks ⊢
    exact ⟨M', rfl, hmarks⟩

/-- The two loops mark the live nodes and empty all buckets. -/
theorem wp_marking (h : Tabular N k) {E : BddError → Kernel → Prop}
    {Q : PUnit → Kernel → Prop}
    (hQ : Q ⟨⟩ { k with
      nodes := markNodes (liveNodes k) (cleared (List.range k.nodesize) k.nodes) }) :
    Wp (do
      k.refstack.reverse.forM (bddMark recursionDepth)
      (List.range k.nodesize).forM gbcRoot) Q E k := by
  rw [wp_bind]
  refine (wp_markStack h).imp ?_
  rintro - k₁ ⟨M₁, rfl, hmarks₁⟩
  refine (wp_markCounted h).imp ?_
  rintro - k₂ ⟨M, rfl, hmarks⟩
  have hM : M = liveNodes k := (hmarks₁.append hmarks).eq_reaches.trans h.liveNodes_eq.symm
  rwa [hM]

theorem linkFree_gbcSweep : LinkFree (fun node => node.marked && node.low.isSome) .unmark
    fun node => { node with low := none } where
  keep_congr h := by rw [BddNode.marked, BddNode.marked, h.level, h.low]
  onKeep_congr h := ⟨⟨by rw [BddNode.unmark, BddNode.unmark, h.level], h.low, h.high⟩, h.refcou⟩
  onDrop_congr h := ⟨⟨h.level, rfl, h.high⟩, h.refcou⟩
  links_onKeep _ := ⟨rfl, rfl⟩
  links_onDrop _ := ⟨rfl, rfl⟩
  low_onKeep h := Option.isSome_iff_ne_none.mp (Bool.and_eq_true_iff.mp h).2
  low_onDrop _ := rfl

/-- The levels are those of variables, so a mark can be told from a level. -/
theorem level_cleared_le (h : Tabular N k) (hn : Used k.nodes n) :
    (cleared (List.range k.nodesize) k.nodes n).level ≤ maxvar := by
  obtain ⟨t, hden, -⟩ := h.denotes n hn
  rw [← (cleared_content _ _ n).level]
  exact hden.level_le h.varnum_le hn.1

section Sweep

variable (hk : k' = { k with
  nodes := markNodes (liveNodes k) (cleared (List.range k.nodesize) k.nodes) })

include hk

theorem low_marked : (k'.nodes n).low = (k.nodes n).low := by
  rw [hk, (cleared_content (List.range k.nodesize) k.nodes n).low]
  exact markNodes_low ..

theorem hash_marked : ∀ b < k'.nodesize, (k'.nodes b).hash = 0 := by
  intro b hb
  have hb : b ∈ List.range k.nodesize := List.mem_range.mpr (by rwa [hk] at hb)
  rw [hk]
  change (markNodes _ _ b).hash = 0
  rw [markNodes_hash, cleared, if_pos hb]

variable (h : Tabular N k)

include h

theorem outside_marked : ∀ n, k'.nodesize ≤ n → (k'.nodes n).low = none := by
  intro n hn
  rw [low_marked hk]
  exact h.outside n (by rwa [hk] at hn)

/-- The loop keeps a node exactly when it is live. -/
theorem keep_marked_iff (hn : 2 ≤ n) :
    ((k'.nodes n).marked && (k'.nodes n).low.isSome) = true ↔ Used k.nodes n ∧ Live k n := by
  rw [Bool.and_eq_true, Option.isSome_iff_ne_none, low_marked hk, hk]
  constructor
  · rintro ⟨hmarked, hlow⟩
    exact (marked_markNodes (level_cleared_le h ⟨hn, hlow⟩)).mp hmarked
  · intro hlive
    exact ⟨(marked_markNodes (level_cleared_le h hlive.1)).mpr hlive, hlive.1.2⟩

/-- The constants and the places behind the table are not swept. -/
theorem content_swept_outside (hn : n < 2 ∨ k.nodesize ≤ n) :
    SameContent (k.nodes n) ((gbcSweep k').nodes n) := by
  have hnodes : k'.nodes n = cleared (List.range k.nodesize) k.nodes n := by
    rw [hk]
    change markNodes _ _ n = _
    rw [markNodes, if_neg]
    rintro ⟨hused, -⟩
    have := hused.1
    have := h.lt_nodesize hused
    omega
  have hsweep := relink_content_outside linkFree_gbcSweep (hash_marked hk) (n := n)
    (by rwa [hk])
  rw [hnodes] at hsweep
  exact (hsweep.trans (cleared_content _ _ n).symm).symm

/-- A live node is what it was before it was marked. -/
theorem content_swept_live (hlive : Used k.nodes n ∧ Live k n) :
    SameContent (k.nodes n) ((gbcSweep k').nodes n) := by
  have hsweep := relink_content linkFree_gbcSweep (hash_marked hk) hlive.1.1
    (by rw [hk]; exact h.lt_nodesize hlive.1)
  have hnodes : k'.nodes n = (cleared (List.range k.nodesize) k.nodes n).setMark := by
    rw [hk]
    exact if_pos (show n ∈ liveNodes k from hlive)
  rw [if_pos ((keep_marked_iff hk h hlive.1.1).mpr hlive), hnodes,
    unmark_setMark (level_cleared_le h hlive.1)] at hsweep
  exact (cleared_content _ _ n).trans hsweep.symm

/-- The sweep does not count. -/
theorem refcou_swept : ((gbcSweep k').nodes n).refcou = (k.nodes n).refcou := by
  by_cases hn : n < 2 ∨ k.nodesize ≤ n
  · exact (content_swept_outside hk h hn).refcou.symm
  · have hlt : n < k'.nodesize := by
      rw [hk]
      exact not_le.mp fun hge => hn (.inr hge)
    have hsweep := relink_content linkFree_gbcSweep (hash_marked hk) (n := n) (by omega) hlt
    have hrefcou : (k'.nodes n).refcou = (k.nodes n).refcou := by
      rw [hk, (cleared_content (List.range k.nodesize) k.nodes n).refcou]
      exact markNodes_refcou ..
    refine (hsweep.refcou.trans ?_).trans hrefcou
    split <;> rfl

/-- The sweep of the marked table.  A node is relinked when it is marked and put on the free list
otherwise, so the nodes that are left are the live ones, and their counters are those of before. -/
theorem Tabular.collected : Collected k (bddOperatorReset (gbcSweep k')) where
  used n := by
    change Used (gbcSweep k').nodes n ↔ _
    rw [gbcSweep, used_relink linkFree_gbcSweep (hash_marked hk) (outside_marked hk h)]
    constructor
    · rintro ⟨hn, -, hkeep⟩
      exact (keep_marked_iff hk h hn).mp hkeep
    · intro hlive
      refine ⟨hlive.1.1, ?_, (keep_marked_iff hk h hlive.1.1).mpr hlive⟩
      rw [hk]
      exact h.lt_nodesize hlive.1
  content n hn := hn.elim (fun hn => content_swept_outside hk h (.inl hn)) (content_swept_live hk h)
  refcou n := refcou_swept hk h
  chained := chained_relink linkFree_gbcSweep (hash_marked hk) (outside_marked hk h)
  freeListed := freeListed_relink linkFree_gbcSweep (hash_marked hk)
  rest := by
    have hrest := (relinked_relink linkFree_gbcSweep (hash_marked hk)).rest
    change bddOperatorReset (relink _ _ _ k') = _
    rw [hrest, hk]
    rfl

end Sweep

/-- **A collection frees the nodes that are not live, and no others.** -/
theorem wp_bddGbc (h : Tabular N k) {E : BddError → Kernel → Prop} :
    Wp bddGbc (fun _ k' => Collected k k') E k := by
  rw [bddGbc, wp_bind, wp_get]
  have hmark := wp_marking (E := E) (Q := fun _ k₁ => k₁ = { k with
    nodes := markNodes (liveNodes k) (cleared (List.range k.nodesize) k.nodes) }) h rfl
  rw [wp_bind] at hmark ⊢
  refine hmark.imp fun _ k₁ hk₁ => ?_
  rw [wp_bind]
  refine hk₁.imp fun _ k₂ hk₂ => ?_
  rw [wp_bind, wp_modify, wp_modify]
  exact Tabular.collected hk₂ h

section Collected

variable (hcollected : Collected k k')

include hcollected

/-- **Live nodes keep their diagrams across a collection.** -/
theorem Collected.kept (h : Tabular N k) : Kept k k' := by
  refine ⟨⟨fun n hlive => (hcollected.content n ?_).toSameCore, hcollected.refcou, fun n => ?_,
    ?_, ?_, ?_, ?_⟩, ?_⟩
  · exact (h.lt_or_used_of_live hlive).imp_right fun hused => ⟨hused, hlive⟩
  · rw [hcollected.rest]
    exact id
  all_goals rw [hcollected.rest]

theorem Collected.restricted (h : Tabular N k) : Restricted N k k' where
  used n hn := ((hcollected.used n).mp hn).1
  core n hn := (hcollected.content n (hn.imp_right (hcollected.used n).mp)).toSameCore
  denotes n _ hn hden := (hcollected.kept h).denotes ((hcollected.used n).mp hn).2 hden
  roots n hroot hused := (hcollected.used n).mpr ⟨hused, hroot.live⟩
  refcou := hcollected.refcou
  refstack := (hcollected.kept h).refstack

/-- **A collection leaves a consistent table**, whatever the links and the cache were before. -/
theorem Collected.consistent (h : Tabular N k) : Consistent N k' := by
  have hsize : k'.nodesize = k.nodesize := by rw [hcollected.rest]
  refine { (hcollected.restricted h).tabular h (hsize ▸ h.prime) (hsize ▸ h.three_le) ?_ with
    chained := hcollected.chained
    freeListed := hcollected.freeListed
    cached := ?_ }
  · intro n hn
    rw [hsize] at hn
    by_contra hlow
    have hused := ((hcollected.used n).mp ⟨by have := h.three_le; omega, hlow⟩).1
    exact hused.2 (h.outside n hn)
  · intro slot l hl
    rw [hcollected.rest] at hl
    exact absurd hl (by simp)

end Collected

end RulesAnalyzer.Buddy
