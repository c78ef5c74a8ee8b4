import RulesAnalyzer.Buddy.Collection
import Mathlib.Data.List.Perm.Subperm

/-!
# The unique table

`bdd_makenode` returns the one node with a level and two children.  When no such
node exists and no node is free, it collects garbage and resizes the table first,
so it may move every link of the table and free nodes; the nodes it is given must
be live.

## Main definitions

* `Stops` — the errors that end a run for lack of memory.
* `Extended` — the used nodes stay, and there may be more.

## Main results

* `wp_bddNoderesize` — a resize keeps all used nodes.
* `searchChain_eq` — a chain is searched to its end.
* `wp_bddMakenode` — **the node denotes the test of the two diagrams.**
-/

namespace RulesAnalyzer.Buddy

open Effect Diagram Shared

variable {N : ℕ} {k k' : Kernel} {n : ℕ}

/-- The run ends because there is no memory, or no node, left. -/
def Stops (e : BddError) (_ : Kernel) : Prop := e = .memory ∨ e = .nodenum

/-! ### More nodes -/

/-- The used nodes stay, and everything else but the links. -/
structure Extended (k k' : Kernel) : Prop where
  core : ∀ n, n < 2 ∨ Used k.nodes n → SameCore (k.nodes n) (k'.nodes n)
  refcou : ∀ n, (k'.nodes n).refcou = (k.nodes n).refcou
  rest : k' = { k with
    nodesize := k'.nodesize
    nodes := k'.nodes
    freepos := k'.freepos
    freenum := k'.freenum }

section Extended

variable (hext : Extended k k')

include hext

theorem Extended.used (hn : Used k.nodes n) : Used k'.nodes n :=
  ⟨hn.1, (hext.core n (.inr hn)).low ▸ hn.2⟩

theorem Extended.denotes {t : Tree (Fin N)} (h : Denotes k.nodes n t) : Denotes k'.nodes n t :=
  h.mono fun n hn => hext.core n (.inr hn)

theorem Extended.kept (h : Tabular N k) : Kept k k' := by
  refine ⟨⟨fun n hlive => hext.core n (h.lt_or_used_of_live hlive), hext.refcou, fun n => ?_,
    ?_, ?_, ?_, ?_⟩, ?_⟩
  · rw [hext.rest]
    exact id
  all_goals rw [hext.rest]

theorem Extended.entrySound {entry : BddCacheData} (h : EntrySound N k.nodes entry) :
    EntrySound N k'.nodes entry := by
  intro l hl
  obtain ⟨t, ht, hred, hres⟩ := h l hl
  refine ⟨t, hext.denotes ht, hred, ?_⟩
  split
  · next hc =>
    rw [if_pos hc] at hres
    exact hext.denotes hres
  · next hc =>
    rw [if_neg hc] at hres
    obtain ⟨u, hu, hredu, hres⟩ := hres
    exact ⟨u, hext.denotes hu, hredu, hext.denotes hres⟩

end Extended

/-! ### Resizing -/

variable {env : Environment}

/-- The size of the next table is a prime number that is not smaller, and keeps the limits. -/
structure NextSize (k : Kernel) (size : ℕ) : Prop where
  prime : size.Prime
  nodesize_le : k.nodesize ≤ size
  le_double : size ≤ 2 * k.nodesize
  le_increase : size ≤ k.nodesize + k.maxnodeincrease
  le_maxnodesize : 0 < k.maxnodesize → size ≤ k.maxnodesize

theorem nextSize_newNodesize (env : Environment) (hprime : k.nodesize.Prime)
    (hthree : 3 ≤ k.nodesize)
    (hmax : ¬(k.nodesize ≥ k.maxnodesize ∧ k.maxnodesize > 0)) :
    NextSize k (env.newNodesize k) := by
  set increased := if k.nodesize <<< 1 > k.nodesize + k.maxnodeincrease then
    k.nodesize + k.maxnodeincrease else k.nodesize <<< 1 with hincreased
  set size := if increased > k.maxnodesize ∧ k.maxnodesize > 0 then k.maxnodesize else increased
    with hsize
  have hbounds : k.nodesize ≤ size ∧ size ≤ 2 * k.nodesize ∧
      size ≤ k.nodesize + k.maxnodeincrease ∧ (0 < k.maxnodesize → size ≤ k.maxnodesize) := by
    rw [hsize, hincreased, Nat.shiftLeft_eq]
    split_ifs <;> omega
  obtain ⟨hle, hdouble, hincrease, hlimit⟩ := hbounds
  have hsmaller := env.primeLte_le size (hthree.trans hle)
  exact ⟨env.prime_primeLte _ (hthree.trans hle), env.le_primeLte _ _ hthree hprime hle,
    hsmaller.trans hdouble, hsmaller.trans hincrease, fun hpos => hsmaller.trans (hlimit hpos)⟩

theorem linkFree_gbcRehash : LinkFree (·.low.isSome) id id where
  keep_congr h := by rw [h.low]
  onKeep_congr h := h
  onDrop_congr h := h
  links_onKeep _ := ⟨rfl, rfl⟩
  links_onDrop _ := ⟨rfl, rfl⟩
  low_onKeep h := Option.isSome_iff_ne_none.mp h
  low_onDrop h := Option.isNone_iff_eq_none.mp (Option.isSome_eq_false_iff.mp h)

/-- What a resize leaves. -/
structure Resized (k k' : Kernel) (size : ℕ) : Prop extends Extended k k' where
  nodesize : k'.nodesize = size
  used_iff : ∀ n, Used k'.nodes n ↔ Used k.nodes n
  outside : ∀ n, size ≤ n → (k'.nodes n).low = none
  chained : Chained k'
  freeListed : FreeListed k'

/-- **A resize keeps all nodes.**  The new places are free, and the loop over all places builds
the buckets and the free list anew without looking at the old links. -/
theorem Tabular.resized (h : Tabular N k) {size : ℕ} (hsize : k.nodesize ≤ size) :
    Resized k (resizeTable true size k) size := by
  have hthree := h.three_le
  set linked : Kernel := { k with
    nodesize := size
    nodes := Function.update (resizeNodes true k) (size - 1)
      { resizeNodes true k (size - 1) with next := k.freepos }
    freepos := k.nodesize
    freenum := k.freenum + (size - k.nodesize) } with hlinked
  have hresize : resizeTable true size k = bddGbcRehash linked := rfl
  -- before the loop, only links differ
  have hcontent : ∀ n, SameContent (linked.nodes n) (resizeNodes true k n) := by
    intro n
    rw [hlinked]
    simp only [Function.update_apply]
    split
    · next hn => subst hn; exact ⟨⟨rfl, rfl, rfl⟩, rfl⟩
    · exact .refl _
  have hold : ∀ n, n < k.nodesize → SameContent (linked.nodes n) (k.nodes n) := by
    intro n hn
    refine (hcontent n).trans ?_
    rw [resizeNodes, if_pos hn]
    exact ⟨⟨rfl, rfl, rfl⟩, rfl⟩
  have hnew : ∀ n, k.nodesize ≤ n → (linked.nodes n).low = none ∧ (linked.nodes n).refcou = 0 := by
    intro n hn
    rw [(hcontent n).low, (hcontent n).refcou, resizeNodes, if_neg (not_lt.mpr hn)]
    exact ⟨rfl, rfl⟩
  have hempty : ∀ b < linked.nodesize, (linked.nodes b).hash = 0 := by
    intro b _
    rw [hlinked]
    simp only [Function.update_apply, resizeNodes]
    split_ifs <;> rfl
  have houtside : ∀ n, linked.nodesize ≤ n → (linked.nodes n).low = none := fun n hn =>
    (hnew n (hsize.trans hn)).1
  -- the loop keeps the content of every node
  have hloop : ∀ n, SameContent ((resizeTable true size k).nodes n) (linked.nodes n) := by
    intro n
    rw [hresize, bddGbcRehash]
    by_cases hn : n < 2 ∨ linked.nodesize ≤ n
    · exact relink_content_outside linkFree_gbcRehash hempty hn
    · have hround := relink_content linkFree_gbcRehash hempty (n := n) (by omega) (by omega)
      simpa using hround
  have hrest := (relinked_relink linkFree_gbcRehash hempty).rest
  refine { core := ?core, refcou := ?refcou, rest := ?rest, nodesize := ?nodesize,
           used_iff := ?used, outside := ?outside,
           chained := chained_relink linkFree_gbcRehash hempty houtside,
           freeListed := freeListed_relink linkFree_gbcRehash hempty }
  case core =>
    intro n hn
    have hlt : n < k.nodesize := hn.elim (fun hn => by omega) h.lt_nodesize
    exact ((hloop n).trans (hold n hlt)).symm.toSameCore
  case refcou =>
    intro n
    rw [(hloop n).refcou]
    rcases lt_or_ge n k.nodesize with hlt | hge
    · exact (hold n hlt).refcou
    · rw [(hnew n hge).2, h.unused n (h.outside n hge)]
  case rest => rw [hresize, bddGbcRehash, hrest]
  case nodesize => rw [hresize, bddGbcRehash, hrest]
  case used =>
    intro n
    rw [Used, Used, (hloop n).low]
    refine and_congr_right fun _ => not_congr ?_
    rcases lt_or_ge n k.nodesize with hlt | hge
    · rw [(hold n hlt).low]
    · exact iff_of_true (hnew n hge).1 (h.outside n hge)
  case outside =>
    intro n hn
    rw [(hloop n).low]
    exact houtside n hn

theorem Resized.restricted {size : ℕ} (hresized : Resized k k' size) (h : Tabular N k) :
    Restricted N k k' where
  used n := (hresized.used_iff n).mp
  core n hn := hresized.core n (hn.imp_right (hresized.used_iff n).mp)
  denotes _ _ _ := hresized.toExtended.denotes
  roots _ _ := hresized.toExtended.used
  refcou := hresized.refcou
  refstack := (hresized.toExtended.kept h).refstack

/-- A resized table is consistent. -/
theorem Resized.consistent {size : ℕ} (hresized : Resized k k' size) (h : Consistent N k)
    (hprime : size.Prime) (hsize : k.nodesize ≤ size) : Consistent N k' := by
  refine { (hresized.restricted h.toTabular).tabular h.toTabular (hresized.nodesize ▸ hprime)
    (hresized.nodesize ▸ h.three_le.trans hsize) (hresized.nodesize ▸ hresized.outside) with
    chained := hresized.chained
    freeListed := hresized.freeListed
    cached := fun slot => ?_ }
  have hcache : k'.applycache = k.applycache := by rw [hresized.rest]
  rw [hcache]
  exact hresized.toExtended.entrySound (h.cached slot)

/-- A resize does nothing at the limit, and else leaves a larger table. -/
theorem wp_bddNoderesize (h : Tabular N k) :
    Wp (bddNoderesize env true) (fun res k' => res = -1 ∧ k' = k ∨
      res = 0 ∧ NextSize k (env.newNodesize k) ∧ Resized k k' (env.newNodesize k)) Stops k := by
  rw [bddNoderesize, wp_bind, wp_get]
  refine wp_ite (fun _ => .inl ⟨rfl, rfl⟩) fun hmax => ?_
  refine wp_ite (fun _ => .inl rfl) fun _ => ?_
  have hnext := nextSize_newNodesize env h.prime h.three_le hmax
  exact .inr ⟨rfl, hnext, h.resized hnext.nodesize_le⟩

/-- A collection, and a larger table: the live nodes stay, and a node is free. -/
theorem wp_makeRoom (h : Consistent N k) :
    Wp (makeRoom env) (fun _ k' => (Consistent N k' ∧ Kept k k' ∧ Restricted N k k') ∧
      k'.freepos ≠ 0) Stops k := by
  rw [makeRoom, wp_bind]
  refine (wp_bddGbc h.toTabular).imp fun _ k₁ hcollected => ?_
  have h₁ := hcollected.consistent h.toTabular
  have hkept := hcollected.kept h.toTabular
  have hres := hcollected.restricted h.toTabular
  have hresize : Wp (if k₁.freenum * 100 / k₁.nodesize ≤ minfreenodes then bddNoderesize env true
      else pure 0) (fun _ k' => Consistent N k' ∧ Kept k k' ∧ Restricted N k k') Stops k₁ := by
    refine wp_ite (fun _ => ?_) fun _ => ⟨h₁, hkept, hres⟩
    refine (wp_bddNoderesize h₁.toTabular).imp ?_
    intro res k₂ hresize
    rcases hresize with ⟨-, rfl⟩ | ⟨-, hnext, hresized⟩
    · exact ⟨h₁, hkept, hres⟩
    · exact ⟨hresized.consistent h₁ hnext.prime hnext.nodesize_le,
        hkept.trans (hresized.toExtended.kept h₁.toTabular),
        hres.trans (hresized.restricted h₁.toTabular)⟩
  rw [wp_bind, wp_get, wp_bind]
  refine hresize.imp fun _ k₂ h₂ => ?_
  rw [wp_bind, wp_get]
  exact wp_ite (fun _ => .inr rfl) fun hfree => ⟨h₂, hfree⟩

/-! ### Searching a chain -/

theorem searchChain_eq {nodes : ℕ → BddNode} {level low high head fuel : ℕ} {l : List ℕ}
    (hl : Linked (fun n => (nodes n).next) head l) (hfuel : l.length < fuel) :
    searchChain nodes level low high fuel head = .ok (l.find? (IsNode nodes level low high)) := by
  induction l generalizing head fuel with
  | nil =>
    obtain ⟨fuel, rfl⟩ := Nat.exists_eq_add_of_lt hfuel
    rw [searchChain, if_pos (linked_nil.mp hl)]
    rfl
  | cons n l ih =>
    obtain ⟨rfl, hpos, hl⟩ := hl
    obtain ⟨fuel, rfl⟩ : ∃ f, fuel = f + 1 := ⟨fuel - 1, by omega⟩
    rw [List.length_cons] at hfuel
    rw [searchChain, if_neg hpos]
    by_cases hmatch : IsNode nodes level low high head
    · rw [if_pos hmatch, List.find?_cons_of_pos (by simpa using hmatch)]
    · rw [if_neg hmatch, List.find?_cons_of_neg (by simpa using hmatch)]
      exact ih hl (by omega)

/-- A chain has fewer nodes than the table. -/
theorem length_lt_nodesize (h : Tabular N k) {head : ℕ} {l : List ℕ}
    (hl : Linked (fun n => (k.nodes n).next) head l) (hused : ∀ n ∈ l, Used k.nodes n) :
    l.length < k.nodesize := by
  have hsub : l ⊆ List.range' 2 (k.nodesize - 2) := by
    intro n hn
    have := (hused n hn).1
    have := h.lt_nodesize (hused n hn)
    rw [List.mem_range'_1]
    omega
  have hle := (List.subperm_of_subset hl.nodup hsub).length_le
  have := h.three_le
  rw [List.length_range'] at hle
  omega

/-- **The search finds the node if there is one.** -/
theorem Consistent.searchChain_eq (h : Consistent N k) (level low high : ℕ) :
    ∃ found, searchChain k.nodes level low high k.nodesize
        (k.nodes (nodehash k.nodesize level low high)).hash = .ok found ∧
      (∀ n, found = some n → Used k.nodes n ∧ IsNode k.nodes level low high n) ∧
      (found = none → ∀ n, Used k.nodes n → ¬IsNode k.nodes level low high n) := by
  have hpos : 0 < k.nodesize := by have := h.three_le; omega
  obtain ⟨l, hl, hmem⟩ := h.chained (nodehash k.nodesize level low high) (Nat.mod_lt _ hpos)
  refine ⟨_, Buddy.searchChain_eq hl
    (length_lt_nodesize h.toTabular hl fun n hn => ((hmem n).mp hn).1), fun n hn => ?_,
    fun hnone n hused hnode => ?_⟩
  · exact ⟨((hmem n).mp (List.mem_of_find?_eq_some hn)).1, by simpa using List.find?_some hn⟩
  · -- an equal node would be in the same bucket
    have hn : n ∈ l := by
      refine (hmem n).mpr ⟨hused, ?_⟩
      rw [bucketOf, hnode.1, hnode.2.1, hnode.2.2]
      rfl
    exact List.find?_eq_none.mp hnone n hn (by simpa using hnode)

/-! ### Building a node -/

section Build

variable {level low high : ℕ}

theorem buildNode_nodes (m b : ℕ) (hb : nodehash k.nodesize level low high = b) :
    (buildNode level low high k).nodes m =
      if m = k.freepos then
        { k.nodes m with
          level := level
          low := some low
          high := high
          hash := if m = b then k.freepos else (k.nodes m).hash
          next := (k.nodes b).hash }
      else { k.nodes m with hash := if m = b then k.freepos else (k.nodes m).hash } := by
  subst hb
  simp only [buildNode, Kernel.modifyNode_nodes, Function.update_apply]
  split_ifs <;> simp_all

/-- The first free node is in the table, free and without references. -/
theorem Consistent.freepos (h : Consistent N k) (hfree : k.freepos ≠ 0) :
    2 ≤ k.freepos ∧ k.freepos < k.nodesize ∧ (k.nodes k.freepos).low = none ∧
      (k.nodes k.freepos).refcou = 0 := by
  obtain ⟨l, hl, -, hmem⟩ := h.freeListed
  obtain ⟨l', rfl, -⟩ := hl.pop hfree
  obtain ⟨hge, hlt, hlow⟩ := (hmem k.freepos).mp List.mem_cons_self
  exact ⟨hge, hlt, hlow, h.unused _ hlow⟩

theorem buildNode_extended (h : Consistent N k) (hfree : k.freepos ≠ 0) :
    Extended k (buildNode level low high k) := by
  obtain ⟨hge, -, hlow, -⟩ := h.freepos hfree
  refine ⟨fun n hn => ?_, fun n => ?_, rfl⟩
  · have hne : n ≠ k.freepos := by
      rintro rfl
      rcases hn with hn | hn
      · omega
      · exact hn.2 hlow
    rw [buildNode_nodes n _ rfl, if_neg hne]
    exact ⟨rfl, rfl, rfl⟩
  · rw [buildNode_nodes n _ rfl]
    split <;> rfl

/-- Only the first free node is written; of the others at most a link changes. -/
theorem buildNode_content_of_ne {m : ℕ} (hm : m ≠ k.freepos) :
    SameContent (k.nodes m) ((buildNode level low high k).nodes m) := by
  rw [buildNode_nodes m _ rfl, if_neg hm]
  exact ⟨⟨rfl, rfl, rfl⟩, rfl⟩

theorem isNode_buildNode : IsNode (buildNode level low high k).nodes level low high k.freepos := by
  rw [IsNode, buildNode_nodes k.freepos _ rfl, if_pos rfl]
  exact ⟨rfl, rfl, rfl⟩

/-- The used nodes are those of before and the new one. -/
theorem used_buildNode_iff (h : Consistent N k) (hfree : k.freepos ≠ 0) {m : ℕ} :
    Used (buildNode level low high k).nodes m ↔ m = k.freepos ∨ Used k.nodes m := by
  by_cases hm : m = k.freepos
  · subst hm
    exact iff_of_true ⟨(h.freepos hfree).1, by simp [isNode_buildNode.2.1]⟩ (.inl rfl)
  · rw [Used, Used, (buildNode_content_of_ne hm).low, or_iff_right hm]

theorem buildNode_next {b : ℕ} (hb : nodehash k.nodesize level low high = b) :
    (fun m => ((buildNode level low high k).nodes m).next) =
      Function.update (fun m => (k.nodes m).next) k.freepos (k.nodes b).hash := by
  funext m
  rw [buildNode_nodes m b hb, Function.update_apply]
  split <;> rfl

theorem buildNode_hash {b : ℕ} (hb : nodehash k.nodesize level low high = b) (m : ℕ) :
    ((buildNode level low high k).nodes m).hash =
      if m = b then k.freepos else (k.nodes m).hash := by
  rw [buildNode_nodes m b hb]
  split <;> rfl

/-- No used node is equal to the new one: the search would have found it. -/
theorem not_sameCore_buildNode (h : Consistent N k) (hfree : k.freepos ≠ 0)
    (hfresh : ∀ n, Used k.nodes n → ¬IsNode k.nodes level low high n) {m : ℕ}
    (hm : Used k.nodes m) : ¬SameCore ((buildNode level low high k).nodes k.freepos)
      ((buildNode level low high k).nodes m) := by
  intro hsame
  obtain ⟨hlevel, hlow, hhigh⟩ : IsNode (buildNode level low high k).nodes level low high
    k.freepos := isNode_buildNode
  have hext : Extended k (buildNode level low high k) := buildNode_extended h hfree
  have hcore := hext.core m (.inr hm)
  refine hfresh m hm ⟨?_, ?_, ?_⟩
  · rw [hcore.level, ← hsame.level, hlevel]
  · rw [hcore.low, ← hsame.low, hlow]
  · rw [hcore.high, ← hsame.high, hhigh]

/-- A new node is different from all others, so no two used nodes become equal. -/
theorem unique_buildNode (h : Consistent N k) (hfree : k.freepos ≠ 0)
    (hfresh : ∀ n, Used k.nodes n → ¬IsNode k.nodes level low high n) :
    Unique (buildNode level low high k).nodes := by
  have hext : Extended k (buildNode level low high k) := buildNode_extended h hfree
  intro n m hn hm hsame
  rcases (used_buildNode_iff h hfree).mp hn with rfl | hn <;>
    rcases (used_buildNode_iff h hfree).mp hm with rfl | hm
  · rfl
  · exact absurd hsame (not_sameCore_buildNode h hfree hfresh hm)
  · exact absurd ⟨hsame.level.symm, hsame.low.symm, hsame.high.symm⟩
      (not_sameCore_buildNode h hfree hfresh hn)
  · have hn' := hext.core n (.inr hn)
    have hm' := hext.core m (.inr hm)
    exact h.unique n m hn hm ⟨hn'.level.trans (hsame.level.trans hm'.level.symm),
      hn'.low.trans (hsame.low.trans hm'.low.symm),
      hn'.high.trans (hsame.high.trans hm'.high.symm)⟩

/-- The chain of the new node's bucket gets one node more at its head, and every other chain is
the one of before. -/
theorem chained_buildNode (h : Consistent N k) (hfree : k.freepos ≠ 0) :
    Chained (buildNode level low high k) := by
  obtain ⟨b, hb⟩ : ∃ b, nodehash k.nodesize level low high = b := ⟨_, rfl⟩
  have hext : Extended k (buildNode level low high k) := buildNode_extended h hfree
  intro c hc
  obtain ⟨l, hl, hmem⟩ := h.chained c hc
  have hnl : k.freepos ∉ l := fun hn => ((hmem _).mp hn).1.2 (h.freepos hfree).2.2.1
  have hbucket : ∀ m, Used k.nodes m → bucketOf k.nodesize ((buildNode level low high k).nodes m) =
      bucketOf k.nodesize (k.nodes m) := fun m hm => (bucketOf_congr (hext.core m (.inr hm)) _).symm
  have hbuilt : bucketOf k.nodesize ((buildNode level low high k).nodes k.freepos) = b := by
    obtain ⟨hlevel, hlow, hhigh⟩ : IsNode (buildNode level low high k).nodes level low high
      k.freepos := isNode_buildNode
    rw [bucketOf, hlevel, hlow, hhigh]
    exact hb
  change ∃ l, Linked _ _ l ∧ ∀ n, n ∈ l ↔ _ ∧ bucketOf k.nodesize _ = c
  rw [buildNode_next hb, buildNode_hash hb]
  by_cases hcb : c = b
  · -- the bucket of the new node
    rw [if_pos hcb]
    refine ⟨k.freepos :: l, (hcb ▸ hl).push hnl hfree, fun m => ?_⟩
    rw [List.mem_cons, used_buildNode_iff h hfree]
    constructor
    · rintro (rfl | hm)
      · exact ⟨.inl rfl, hbuilt.trans hcb.symm⟩
      · obtain ⟨hm, hmc⟩ := (hmem m).mp hm
        exact ⟨.inr hm, (hbucket m hm).trans hmc⟩
    · rintro ⟨rfl | hm, hmc⟩
      · exact .inl rfl
      · exact .inr ((hmem m).mpr ⟨hm, (hbucket m hm).symm.trans hmc⟩)
  · -- the new node is in no other bucket, and its link is on no other chain
    rw [if_neg hcb]
    refine ⟨l, hl.update hnl _, fun m => ?_⟩
    rw [used_buildNode_iff h hfree, hmem m]
    constructor
    · exact fun hm => ⟨.inr hm.1, (hbucket m hm.1).trans hm.2⟩
    · rintro ⟨rfl | hm, hmc⟩
      · exact absurd (hmc.symm.trans hbuilt) hcb
      · exact ⟨hm, (hbucket m hm).symm.trans hmc⟩

/-- The free list loses its head, which is the new node. -/
theorem freeListed_buildNode (h : Consistent N k) (hfree : k.freepos ≠ 0) :
    FreeListed (buildNode level low high k) := by
  obtain ⟨l, hl, hlength, hmem⟩ := h.freeListed
  have hnodup := hl.nodup
  obtain ⟨l', rfl, hl'⟩ := hl.pop hfree
  have hnl : k.freepos ∉ l' := (List.nodup_cons.mp hnodup).1
  refine ⟨l', ?_, ?_, fun m => ?_⟩
  · rw [buildNode_next rfl]
    exact hl'.update hnl _
  · rw [List.length_cons] at hlength
    exact Nat.eq_sub_of_add_eq hlength
  · change _ ↔ 2 ≤ m ∧ m < k.nodesize ∧ _
    by_cases hm : m = k.freepos
    · subst hm
      exact iff_of_false hnl fun hm => by simp [isNode_buildNode.2.1] at hm
    · rw [← (buildNode_content_of_ne hm).low, ← hmem m, List.mem_cons, or_iff_right hm]

section Diagram

variable {v : Fin N} {lo hi : Tree (Fin N)} (h : Consistent N k) (hfree : k.freepos ≠ 0)
  (hlo : Denotes k.nodes low lo) (hhi : Denotes k.nodes high hi)

include h hfree hlo hhi

/-- The new node denotes the test of its children's diagrams. -/
theorem denotes_buildNode : Denotes (buildNode v low high k).nodes k.freepos (.node v lo hi) := by
  obtain ⟨hlevel, hlow, hhigh⟩ : IsNode (buildNode v low high k).nodes v low high k.freepos :=
    isNode_buildNode
  have hext : Extended k (buildNode v low high k) := buildNode_extended h hfree
  refine .node (h.freepos hfree).1 hlow hlevel (hext.denotes hlo) ?_
  rw [hhigh]
  exact hext.denotes hhi

/-- **A new node keeps the table consistent.**  It takes the first place of the free list and
becomes the head of its bucket; nothing else changes. -/
theorem consistent_buildNode (hred : (Tree.node v lo hi).Reduced)
    (hfresh : ∀ n, Used k.nodes n → ¬IsNode k.nodes v low high n) :
    Consistent N (buildNode v low high k) where
  prime := h.prime
  three_le := h.three_le
  varnum_le := h.varnum_le
  zero := by
    have hne : 0 ≠ k.freepos := hfree.symm
    rw [← (buildNode_content_of_ne hne).low, ← (buildNode_content_of_ne hne).high,
      ← (buildNode_content_of_ne hne).refcou]
    exact h.zero
  one := by
    have hne : 1 ≠ k.freepos := by have := (h.freepos hfree).1; omega
    rw [← (buildNode_content_of_ne hne).low, ← (buildNode_content_of_ne hne).high,
      ← (buildNode_content_of_ne hne).refcou]
    exact h.one
  denotes n hn := by
    rcases (used_buildNode_iff h hfree).mp hn with rfl | hn
    · exact ⟨_, denotes_buildNode h hfree hlo hhi, hred⟩
    · obtain ⟨t, ht, hredt⟩ := h.denotes n hn
      exact ⟨t, (buildNode_extended h hfree).denotes ht, hredt⟩
  unique := unique_buildNode h hfree hfresh
  outside n hn := by
    have hlt := (h.freepos hfree).2.1
    have hn : k.nodesize ≤ n := hn
    rw [← (buildNode_content_of_ne (by omega)).low]
    exact h.outside n hn
  unused n hlow := by
    rw [(buildNode_extended h hfree).refcou]
    by_cases hn : n = k.freepos
    · rw [hn, (h.freepos hfree).2.2.2]
    · exact h.unused n ((buildNode_content_of_ne hn).low ▸ hlow)
  stack n hn := (h.stack n hn).imp_right (buildNode_extended h hfree).used
  chained := chained_buildNode h hfree
  freeListed := freeListed_buildNode h hfree
  cached slot := (buildNode_extended h hfree).entrySound (h.cached slot)

end Diagram

end Build

/-! ### Making a node -/

/-- What holds after a node was made for a diagram. -/
def Made (N : ℕ) (k : Kernel) (t : Tree (Fin N)) (res : ℕ) (k' : Kernel) : Prop :=
  Consistent N k' ∧ Kept k k' ∧ Denotes k'.nodes res t

/-- **`bdd_makenode` returns the node of the test of two live diagrams.**  It is found in its
bucket, or built on a free place, for which the table may be collected or resized first. -/
theorem wp_bddMakenode (h : Consistent N k) {v : Fin N} {low high : ℕ} {lo hi : Tree (Fin N)}
    (hheldlo : Held k low lo) (hheldhi : Held k high hi) (habovelo : lo.Above v)
    (habovehi : hi.Above v) :
    Wp (bddMakenode env v low high) (Made N k (Tree.makeNode v lo hi)) Stops k := by
  have hlo := hheldlo.denotes
  have hhi := hheldhi.denotes
  refine wp_ite (fun heq => ?_) fun hne => ?_
  · -- a redundant test
    subst heq
    rw [hlo.det hhi, Tree.makeNode, if_pos rfl]
    exact ⟨h, .refl k, hhi⟩
  · have hdistinct : lo ≠ hi := fun heq => hne (h.toTabular.injective hlo (heq ▸ hhi))
    have htree : Tree.makeNode v lo hi = .node v lo hi := if_neg hdistinct
    have hred : (Tree.node v lo hi).Reduced :=
      ⟨hdistinct, habovelo, habovehi, h.toTabular.reduced hlo, h.toTabular.reduced hhi⟩
    obtain ⟨found, hsearch, hsome, hnone⟩ := h.searchChain_eq v low high
    rw [htree, wp_bind, wp_get, wp_bind, hsearch, wp_ofExcept]
    refine ⟨?_, by simp⟩
    rintro _ ⟨rfl⟩
    cases found with
    | some res =>
      obtain ⟨hused, hnode⟩ := hsome res rfl
      refine ⟨h, .refl k, .node hused.1 hnode.2.1 hnode.1 hlo ?_⟩
      rw [hnode.2.2]
      exact hhi
    | none =>
      have hroom : Wp (if k.freepos = 0 then makeRoom env else pure ⟨⟩) (fun _ k' =>
          (Consistent N k' ∧ Kept k k' ∧ Restricted N k k') ∧ k'.freepos ≠ 0) Stops k :=
        wp_ite (fun _ => wp_makeRoom h) fun hfree => ⟨⟨h, .refl k, .refl k⟩, hfree⟩
      rw [wp_bind]
      refine hroom.imp ?_
      rintro - k₁ ⟨⟨h₁, hkept, hres⟩, hfree⟩
      rw [wp_bind, wp_get, wp_bind, wp_modify, wp_pure]
      -- the collection brings no equal node
      have hfresh : ∀ n, Used k₁.nodes n → ¬IsNode k₁.nodes v low high n := by
        intro n hn hnode
        have hcore := hres.core n (.inr hn)
        exact hnone rfl n (hres.used n hn)
          ⟨hcore.level.trans hnode.1, hcore.low.trans hnode.2.1, hcore.high.trans hnode.2.2⟩
      have hlo := (hkept.held hheldlo).denotes
      have hhi := (hkept.held hheldhi).denotes
      exact ⟨consistent_buildNode h₁ hfree hlo hhi hred hfresh,
        hkept.trans ((buildNode_extended h₁ hfree).kept h₁.toTabular),
        denotes_buildNode h₁ hfree hlo hhi⟩

end RulesAnalyzer.Buddy
