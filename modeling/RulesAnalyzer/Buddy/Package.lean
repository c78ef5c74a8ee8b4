import RulesAnalyzer.Buddy.ModelValues
import RulesAnalyzer.Buddy.Primes

/-!
# What the package guarantees

The operations of the package as the analyzer finds them: on any table that is
consistent, and in any program that starts with the initialisation.  A program ends
early only for lack of memory; otherwise it cannot tell the table from diagrams,
whatever was collected, resized or forgotten in between.

## Main results

* `bddGbc_exact` — a collection frees what cannot be reached, and nothing else.
* `bddNoderesize_keeps` — a resize keeps all nodes.
* `bddMakenode_canonical` — a diagram gets one node.
* `bddApply_canonical`, `bddNot_canonical`, `bvecCompare_exact` — **the connectives, and the
  comparisons of vectors.**
* `analyzer_refines` — **programs.**
* `analyzer_collected`, `analyzer_pinned` — no node is leaked, and none with a full counter freed.
* `analyzer_makeBdd` — the diagrams of model values.
-/

namespace RulesAnalyzer.Buddy

open Effect Diagram Shared

variable {N : ℕ} {k k' : Kernel} {env : Environment}

/-! ### Counting nodes -/

/-- The nodes of the table that are used. -/
def usedNodes (k : Kernel) : Finset ℕ := (Finset.range k.nodesize).filter (Used k.nodes)

/-- The free nodes and the used ones are all nodes but the constants. -/
theorem Consistent.freenum_add (h : Consistent N k) :
    k.freenum + (usedNodes k).card + 2 = k.nodesize := by
  have hthree := h.three_le
  obtain ⟨l, hl, hlength, hmem⟩ := h.freeListed
  have hdisjoint : Disjoint l.toFinset (usedNodes k) := by
    rw [Finset.disjoint_left]
    intro n hn hused
    exact (Finset.mem_filter.mp hused).2.2 ((hmem n).mp (List.mem_toFinset.mp hn)).2.2
  have hunion : l.toFinset ∪ usedNodes k = Finset.Ico 2 k.nodesize := by
    ext n
    rw [Finset.mem_union, List.mem_toFinset, hmem, usedNodes, Finset.mem_filter, Finset.mem_range,
      Finset.mem_Ico, Used]
    by_cases hlow : (k.nodes n).low = none <;> simp [hlow, and_comm]
  have hcard := congrArg Finset.card hunion
  rw [Finset.card_union_of_disjoint hdisjoint, List.toFinset_card_of_nodup hl.nodup, hlength,
    Nat.card_Ico] at hcard
  omega

/-- The node of a diagram is its only node. -/
theorem Tabular.denotes_iff (h : Tabular N k) {n : ℕ} {t : Tree (Fin N)}
    (hn : Denotes k.nodes n t) (m : ℕ) : Denotes k.nodes m t ↔ m = n :=
  ⟨fun hm => h.injective hm hn, fun heq => heq ▸ hn⟩

/-! ### The unique table -/

/-- **A garbage collection is exact**: whatever the links and the cache were, it frees the nodes
that cannot be reached from the stack or from a node with a reference count, keeps the diagrams
of all others, and leaves a consistent table. -/
theorem bddGbc_exact (h : Tabular N k) {E : BddError → Kernel → Prop} :
    Wp bddGbc (fun _ k' => Consistent N k' ∧ (∀ n, Used k'.nodes n ↔ Used k.nodes n ∧ Live k n) ∧
      (∀ n (t : Tree (Fin N)), Live k n → Denotes k.nodes n t → Denotes k'.nodes n t) ∧
      k'.freenum + (usedNodes k').card + 2 = k.nodesize) E k := by
  refine (wp_bddGbc h).imp ?_
  intro _ k' hcollected
  have hconsistent := hcollected.consistent h
  have hsize : k'.nodesize = k.nodesize := by rw [hcollected.rest]
  have hkept := hcollected.kept h
  exact ⟨hconsistent, hcollected.used, fun n t hlive => hkept.denotes hlive,
    hsize ▸ hconsistent.freenum_add⟩

theorem bddGbc_exact_initKernel :
    Wp bddGbc (fun _ k' => Consistent 1 k' ∧
      (∀ n, Used k'.nodes n ↔ Used (initKernel 0 7 3).nodes n ∧ Live (initKernel 0 7 3) n) ∧
      (∀ n (t : Tree (Fin 1)), Live (initKernel 0 7 3) n →
        Denotes (initKernel 0 7 3).nodes n t → Denotes k'.nodes n t) ∧
      k'.freenum + (usedNodes k').card + 2 = 7) (fun _ _ => False) (initKernel 0 7 3) :=
  bddGbc_exact (consistent_initNode (by decide) (by decide) (by decide) rfl rfl rfl rfl
    fun _ => rfl).toTabular

/-- **A resize keeps all nodes** and the limits of the size; it does nothing, or builds a table
that is not smaller. -/
theorem bddNoderesize_keeps (h : Consistent N k) :
    Wp (bddNoderesize env true) (fun res k' => Consistent N k' ∧
      (∀ n, Used k'.nodes n ↔ Used k.nodes n) ∧
      (∀ n (t : Tree (Fin N)), Denotes k.nodes n t → Denotes k'.nodes n t) ∧
      (res = -1 ∧ k' = k ∨ res = 0 ∧ NextSize k k'.nodesize)) Stops k := by
  refine (wp_bddNoderesize h.toTabular).imp ?_
  intro res k' hresize
  rcases hresize with ⟨rfl, rfl⟩ | ⟨rfl, hnext, hresized⟩
  · exact ⟨h, fun _ => Iff.rfl, fun _ _ => id, .inl ⟨rfl, rfl⟩⟩
  · exact ⟨hresized.consistent h hnext.prime hnext.nodesize_le, hresized.used_iff,
      fun _ _ => hresized.toExtended.denotes, .inr ⟨rfl, hresized.nodesize ▸ hnext⟩⟩

/-- The environment in which there is always memory. -/
def roomyEnvironment : Environment := .exact fun _ => true

theorem bddNoderesize_keeps_initKernel :
    Wp (bddNoderesize roomyEnvironment true) (fun res k' => Consistent 1 k' ∧
      (∀ n, Used k'.nodes n ↔ Used (initKernel 0 7 3).nodes n) ∧
      (∀ n (t : Tree (Fin 1)), Denotes (initKernel 0 7 3).nodes n t → Denotes k'.nodes n t) ∧
      (res = -1 ∧ k' = initKernel 0 7 3 ∨ res = 0 ∧ NextSize (initKernel 0 7 3) k'.nodesize))
      Stops (initKernel 0 7 3) :=
  bddNoderesize_keeps (consistent_initNode (by decide) (by decide) (by decide) rfl rfl rfl rfl
    fun _ => rfl)

/-- A diagram that has a node gets no other one, and nothing changes. -/
theorem wp_bddMakenode_shared (h : Consistent N k) {v : Fin N} {low high n : ℕ}
    {lo hi : Tree (Fin N)} (hlo : Denotes k.nodes low lo) (hhi : Denotes k.nodes high hi)
    (hn : Denotes k.nodes n (Tree.makeNode v lo hi)) {E : BddError → Kernel → Prop} :
    Wp (bddMakenode env v low high) (fun res k' => res = n ∧ k' = k) E k := by
  refine wp_ite (fun heq => ?_) fun hne => ?_
  · subst heq
    rw [hlo.det hhi, Tree.makeNode, if_pos rfl] at hn
    exact ⟨h.toTabular.injective hhi hn, rfl⟩
  · have hdistinct : lo ≠ hi := fun heq => hne (h.toTabular.injective hlo (heq ▸ hhi))
    rw [Tree.makeNode, if_neg hdistinct] at hn
    obtain ⟨found, hsearch, hsome, hnone⟩ := h.searchChain_eq v low high
    -- the node of the diagram has these branches, since each of them has one node
    have hnode : Used k.nodes n ∧ IsNode k.nodes v low high n := by
      have hused := hn.lt_or_used
      cases hn with
      | node hge hlow hlevel hlo' hhi' =>
        refine ⟨⟨hge, by simp [hlow]⟩, hlevel, ?_, h.toTabular.injective hhi' hhi⟩
        rw [hlow, h.toTabular.injective hlo' hlo]
    rw [wp_bind, wp_get, wp_bind, hsearch, wp_ofExcept]
    refine ⟨?_, by simp⟩
    rintro _ ⟨rfl⟩
    cases found with
    | none => exact absurd hnode.2 (hnone rfl n hnode.1)
    | some res =>
      obtain ⟨hused, hlevel, hlow, hhigh⟩ := hsome res rfl
      refine ⟨h.unique res n hused hnode.1 ⟨?_, ?_, ?_⟩, rfl⟩
      · rw [hlevel, hnode.2.1]
      · rw [hlow, hnode.2.2.1]
      · rw [hhigh, hnode.2.2.2]

/-- **`bdd_makenode` gives each diagram one node**: what it returns is the only node of the test,
what was live stays live with its diagram, and if the test had a node before, that is the result
and nothing was changed. -/
theorem bddMakenode_canonical (h : Consistent N k) {v : Fin N} {low high : ℕ}
    {lo hi : Tree (Fin N)} (hlo : Held k low lo) (hhi : Held k high hi) (habovelo : lo.Above v)
    (habovehi : hi.Above v) :
    Wp (bddMakenode env v low high) (fun res k' => Consistent N k' ∧ Kept k k' ∧
      (∀ n, Denotes k'.nodes n (Tree.makeNode v lo hi) ↔ n = res) ∧
      ∀ n, Denotes k.nodes n (Tree.makeNode v lo hi) → res = n ∧ k' = k) Stops k := by
  have hmade : Wp (bddMakenode env v low high) (Made N k (Tree.makeNode v lo hi)) Stops k :=
    wp_bddMakenode h hlo hhi habovelo habovehi
  by_cases hshared : ∃ n, Denotes k.nodes n (Tree.makeNode v lo hi)
  · obtain ⟨n, hn⟩ := hshared
    refine (hmade.and (wp_bddMakenode_shared h hlo.denotes hhi.denotes hn (E := Stops))).imp ?_
    intro res k' ⟨⟨hk', hkept, hden⟩, hres, heq⟩
    refine ⟨hk', hkept, hk'.toTabular.denotes_iff hden, fun m hm => ?_⟩
    exact ⟨hres.trans (h.toTabular.injective hn hm), heq⟩
  · refine hmade.imp ?_
    intro res k' ⟨hk', hkept, hden⟩
    exact ⟨hk', hkept, hk'.toTabular.denotes_iff hden, fun n hn => absurd ⟨n, hn⟩ hshared⟩

theorem bddMakenode_canonical_initKernel :
    Wp (bddMakenode roomyEnvironment (0 : Fin 1) 0 1) (fun res k' =>
      Consistent 1 k' ∧ Kept (initKernel 0 7 3) k' ∧
      (∀ n, Denotes k'.nodes n (Tree.makeNode (0 : Fin 1) (.leaf false) (.leaf true)) ↔ n = res) ∧
      ∀ n, Denotes (initKernel 0 7 3).nodes n
        (Tree.makeNode (0 : Fin 1) (.leaf false) (.leaf true)) → res = n ∧ k' = initKernel 0 7 3)
      Stops (initKernel 0 7 3) :=
  have h : Consistent 1 (initKernel 0 7 3) := consistent_initNode (by decide) (by decide)
    (by decide) rfl rfl rfl rfl fun _ => rfl
  bddMakenode_canonical h h.toTabular.held_zero h.toTabular.held_one trivial trivial

/-! ### The operators -/

variable {l r : ℕ} {a b : Bdd (Fin N)}

/-- The node is the only one of the diagram of a function. -/
def NodeOf (k : Kernel) (f : (Fin N → Bool) → Bool) (n : ℕ) : Prop :=
  ∃ a : Bdd (Fin N), (∀ σ, a.tree.eval σ = f σ) ∧ ∀ m, Denotes k.nodes m a.tree ↔ m = n

/-- **`bdd_apply` computes the connective**, for every state of the cache and the table: the
result is the only node of the function, and what was live stays live with its diagram. -/
theorem bddApply_canonical {op : BddOp} (hop : op ≠ .not) (h : Idle N k) (hl : Held k l a.tree)
    (hr : Held k r b.tree) :
    Wp (bddApply env l r op) (fun res k' => Idle N k' ∧ Kept k k' ∧
      NodeOf k' (fun σ => op.eval (a.tree.eval σ) (b.tree.eval σ)) res) Stops k := by
  refine (wp_bddApply hop h hl hr).imp ?_
  intro res k' ⟨hidle, hkept, hden⟩
  exact ⟨hidle, hkept, _, fun σ => Tree.eval_apply op.eval σ _ _,
    hidle.toTabular.denotes_iff hden⟩

/-- The kernel after the definition of one variable. -/
theorem exists_owned : ∃ k : Kernel, Owned 1 0 k := by
  have hstarted : Started 1 (initKernel 0 7 3) :=
    ⟨consistent_initNode (by decide) (by decide) (by decide) rfl rfl rfl rfl fun _ => rfl, rfl, rfl,
      fun _ hn => .inr ⟨refcou_initNode hn, Nat.succ_pos _⟩⟩
  obtain ⟨_, k, hrun⟩ := returns_of_isSome (p := bddSetvarnum roomyEnvironment 1)
    (s := initKernel 0 7 3) (by decide +kernel)
  exact ⟨k, (wp_bddSetvarnum hstarted (by decide)).returns hrun⟩

theorem bddApply_canonical_variable : ∃ k : Kernel, Idle 1 k ∧
    Wp (bddApply roomyEnvironment (k.varset 0) 1 .xor) (fun res k' => Idle 1 k' ∧
      Kept k k' ∧ NodeOf k' (fun σ => BddOp.xor.eval ((ithVar (0 : Fin 1)).tree.eval σ)
        ((bddTrue : Bdd (Fin 1)).tree.eval σ)) res) Stops k := by
  obtain ⟨k, hk⟩ := exists_owned
  have hvar : Held k (k.varset 0) (ithVar (0 : Fin 1)).tree := (hk.varset 0).held
  exact ⟨k, hk.toIdle, bddApply_canonical nofun hk.toIdle hvar hk.toTabular.held_one⟩

/-- **`bdd_not` computes the negation**, in the same way. -/
theorem bddNot_canonical (h : Idle N k) (hr : Held k r a.tree) :
    Wp (bddNot env r) (fun res k' => Idle N k' ∧ Kept k k' ∧
      NodeOf k' (fun σ => !a.tree.eval σ) res) Stops k := by
  refine (wp_bddNot h hr).imp ?_
  intro res k' ⟨hidle, hkept, hden⟩
  exact ⟨hidle, hkept, _, fun σ => Tree.eval_compl σ _, hidle.toTabular.denotes_iff hden⟩

theorem bddNot_canonical_variable : ∃ k : Kernel, Idle 1 k ∧
    Wp (bddNot roomyEnvironment (k.varset 0)) (fun res k' => Idle 1 k' ∧
      Kept k k' ∧ NodeOf k' (fun σ => !(ithVar (0 : Fin 1)).tree.eval σ) res) Stops k := by
  obtain ⟨k, hk⟩ := exists_owned
  have hvar : Held k (k.varset 0) (ithVar (0 : Fin 1)).tree := (hk.varset 0).held
  exact ⟨k, hk.toIdle, bddNot_canonical hk.toIdle hvar⟩

/-! ### Comparisons of vectors -/

/-- **The comparisons of vectors compare their values**, and leave the references as they were:
every temporary was released, and none too early. -/
theorem bvecCompare_exact {c : ℕ → ℕ} (h : Owned N c k) {u v : List ℕ} {as bs : Bvec (Fin N)}
    (hu : Bits N k u as) (hv : Bits N k v bs) (hcu : ∀ n ∈ u, 0 < c n) (hcv : ∀ n ∈ v, 0 < c n)
    (hsize : u.length = v.length) (hpos : 0 < u.length) :
    Wp (bvecEqu env u v) (fun res k' => Owned N c k' ∧ Spares N c k k' ∧
      NodeOf k' (fun σ => Bvec.value σ as == Bvec.value σ bs) res) Stops k ∧
    Wp (bvecLte env u v) (fun res k' => Owned N c k' ∧ Spares N c k k' ∧
      NodeOf k' (fun σ => decide (Bvec.value σ as ≤ Bvec.value σ bs)) res) Stops k := by
  have has : as.length = bs.length := by rw [← hu.length_eq, ← hv.length_eq, hsize]
  have haspos : 0 < as.length := hu.length_eq ▸ hpos
  constructor
  · refine (wp_bvecEqu h hu hv hcu hcv hsize hpos).imp ?_
    intro res k' ⟨howned, hspares, hden⟩
    refine ⟨howned, hspares, _, fun σ => ?_, howned.toTabular.denotes_iff hden⟩
    rw [Bool.eq_iff_iff, beq_iff_eq]
    exact mem_bvecEqu has haspos
  · refine (wp_bvecLte h hu hv hcu hcv hsize hpos).imp ?_
    intro res k' ⟨howned, hspares, hden⟩
    refine ⟨howned, hspares, _, fun σ => ?_, howned.toTabular.denotes_iff hden⟩
    rw [Bool.eq_iff_iff, decide_eq_true_iff]
    exact mem_bvecLte has haspos

theorem bvecCompare_exact_variable : ∃ (k : Kernel) (c : ℕ → ℕ), Owned 1 c k ∧
    (Wp (bvecEqu roomyEnvironment [k.varset 0] [k.varset 0]) (fun res k' => Owned 1 c k' ∧
      Spares 1 c k k' ∧ NodeOf k' (fun σ => Bvec.value σ [ithVar (0 : Fin 1)] ==
        Bvec.value σ [ithVar (0 : Fin 1)]) res) Stops k ∧
    Wp (bvecLte roomyEnvironment [k.varset 0] [k.varset 0]) (fun res k' => Owned 1 c k' ∧
      Spares 1 c k k' ∧ NodeOf k' (fun σ => decide (Bvec.value σ [ithVar (0 : Fin 1)] ≤
        Bvec.value σ [ithVar (0 : Fin 1)])) res) Stops k) := by
  obtain ⟨k, hk⟩ := exists_owned
  -- the counter of a variable is full, so a reference to it is counted
  have howned : Owned 1 (fun n => if (k.nodes n).refcou = maxref then 1 else 0) k := by
    refine ⟨hk.toIdle, fun n hn => ?_⟩
    by_cases hfull : (k.nodes n).refcou = maxref
    · exact .inl hfull
    · exact .inr (by simpa [hfull] using hk.counted n hn)
  have hbits : Bits 1 k [k.varset 0] [ithVar 0] := .cons (hk.varset 0).denotes .nil
  have hpos : ∀ n ∈ [k.varset 0], 0 < if (k.nodes n).refcou = maxref then 1 else 0 := by
    intro n hn
    have hfull : (k.nodes (k.varset 0)).refcou = maxref := (hk.varset 0).refcou
    rw [List.mem_singleton.mp hn, if_pos hfull]
    exact Nat.one_pos
  exact ⟨k, _, howned, bvecCompare_exact howned hbits hbits hpos hpos rfl Nat.one_pos⟩

/-! ### Programs -/

/-- Initialises the package as the analyzer does, and runs a program. -/
def analyze (env : Environment) (nodeSize cacheSize : ℕ)
    (session : Session env (initVars 0 domains)) :
    KernelM Kernel (List (List ℕ) × List (Option ℕ) × List Bool) := do
  let vectors ← initBdd env nodeSize cacheSize
  return (vectors, ← session.run vectors [])

variable {nodeSize cacheSize : ℕ}

/-- What a program of the analyzer leaves. -/
theorem wp_analyze (hrunning : k.running = false) (hsize : 2 ≤ nodeSize)
    (hcache : 2 ≤ cacheSize) (session : Session env (initVars 0 domains)) :
    Wp (analyze env nodeSize cacheSize session) (fun res k' =>
      res.2.2 = (session.meaning []).2 ∧
      Represents (initVars 0 domains) res.1 k' res.2.1 (session.meaning []).1) Stops k := by
  rw [analyze, wp_bind]
  refine (wp_initBdd hrunning hsize hcache).imp ?_
  intro vectors k₁ h₁
  rw [wp_bind]
  refine (wp_session session h₁).imp ?_
  intro res k₂ ⟨hanswers, hleaves⟩
  exact ⟨hanswers, hleaves.toRepresents⟩

/-- **A program of the analyzer sees diagrams.**  It ends early only for lack of memory; otherwise
its answers are those of the program on diagrams, every object that is left is the only node of
its diagram, and the counters count the references. -/
theorem analyzer_refines (hrunning : k.running = false) (hsize : 2 ≤ nodeSize)
    (hcache : 2 ≤ cacheSize) (session : Session env (initVars 0 domains)) :
    Wp (analyze env nodeSize cacheSize session) (fun (vectors, roots, answers) k' =>
      answers = (session.meaning []).2 ∧
      List.Forall₂ (Option.Rel fun n a => ∀ m, Denotes k'.nodes m (a : ModelBdd).tree ↔ m = n)
        roots (session.meaning []).1 ∧
      Consistent nvars k' ∧ Counted k' (ownership vectors roots)) Stops k := by
  refine (wp_analyze hrunning hsize hcache session).imp ?_
  intro ⟨vectors, roots, answers⟩ k' ⟨hanswers, h⟩
  refine ⟨hanswers, h.related.imp fun root object hrel => ?_, h.toConsistent, h.counted⟩
  cases hrel with
  | some hden => exact .some (h.toTabular.denotes_iff hden)
  | none => exact .none

/-- The kernel of a process that has not initialised the package. -/
def loadedKernel : Kernel := { initKernel 0 0 0 with running := false }

/-- A program that joins the diagram of a model value and its negation, and collects the nodes
when every packet is in one of them. -/
def sampleSession (v : Mvalue) : Session roomyEnvironment (initVars 0 domains) :=
  .step (.build (valueBuilder roomyEnvironment v)) fun _ => .step (.not 0) fun _ =>
    .step (.apply ⟨.or, nofun⟩ 0 1) fun _ => .step (.constant true) fun _ =>
      .step (.equal 2 3) fun answer =>
        if answer = some true then .step (.destroy 2) fun _ => .step .gbc fun _ => .stop else .stop

theorem analyzer_refines_sample :
    let session := sampleSession ⟨.srcZone, Range.singleton 3 (by decide)⟩
    Wp (analyze roomyEnvironment 1000 100 session)
      (fun (vectors, roots, answers) k' => answers = (session.meaning []).2 ∧
        List.Forall₂ (Option.Rel fun n a => ∀ m, Denotes k'.nodes m (a : ModelBdd).tree ↔ m = n)
          roots (session.meaning []).1 ∧
        Consistent nvars k' ∧ Counted k' (ownership vectors roots)) Stops loadedKernel :=
  analyzer_refines rfl (by decide) (by decide) _

/-- What a program refers to, or has a full counter, is what a collection starts from. -/
theorem Represents.live_iff {vars : List (Bvec (Fin N))} {vectors : List (List ℕ)}
    {roots : List (Option ℕ)} {objects : List (Option (Bdd (Fin N)))}
    (h : Represents vars vectors k roots objects) (n : ℕ) : Live k n ↔
      ∃ r, (some r ∈ roots ∨ r ∈ vectors.flatten ∨ (k.nodes r).refcou = maxref) ∧
        Reaches (children k.nodes) r n := by
  refine exists_congr fun r => and_congr_left fun _ => ?_
  rw [Root, h.refstack, or_iff_right List.not_mem_nil]
  have hpos : 0 < ownership vectors roots r ↔ some r ∈ roots ∨ r ∈ vectors.flatten := by
    rw [ownership, Pi.add_apply, Nat.add_pos_iff_pos_or_pos, or_comm, references, bitReferences,
      List.count_pos_iff, List.count_pos_iff]
  rcases lt_or_ge r 2 with hr | hr
  · have hfull : (k.nodes r).refcou = maxref := by
      interval_cases r
      · exact h.zero.2.2
      · exact h.one.2.2
    exact iff_of_true (by rw [hfull]; exact Nat.succ_pos _) (.inr (.inr hfull))
  · rw [← or_assoc, ← hpos]
    rcases h.counted r hr with hfull | ⟨hcount, hlt⟩
    · exact iff_of_true (by rw [hfull]; exact Nat.succ_pos _) (.inr hfull)
    · rw [hcount, or_iff_left hlt.ne]

/-- **No node is leaked**: a collection after any program leaves the nodes below the objects and
vectors that are left and below nodes with a full counter, and no others. -/
theorem analyzer_collected (hrunning : k.running = false) (hsize : 2 ≤ nodeSize)
    (hcache : 2 ≤ cacheSize) (session : Session env (initVars 0 domains)) :
    Wp (analyze env nodeSize cacheSize session) (fun (vectors, roots, _) k₁ =>
      Wp bddGbc (fun _ k₂ => ∀ n, Used k₂.nodes n ↔ Used k₁.nodes n ∧
        ∃ r, (some r ∈ roots ∨ r ∈ vectors.flatten ∨ (k₁.nodes r).refcou = maxref) ∧
          Reaches (children k₁.nodes) r n) Stops k₁) Stops k := by
  refine (wp_analyze hrunning hsize hcache session).imp ?_
  intro ⟨vectors, roots, answers⟩ k₁ ⟨_, h⟩
  refine (wp_bddGbc_idle h.toIdle).imp ?_
  intro _ k₂ ⟨_, _, hused⟩ n
  rw [hused n, h.live_iff n]

theorem analyzer_collected_sample :
    let session := sampleSession ⟨.srcZone, Range.singleton 3 (by decide)⟩
    Wp (analyze roomyEnvironment 1000 100 session)
      (fun (vectors, roots, _) k₁ => Wp bddGbc (fun _ k₂ => ∀ n, Used k₂.nodes n ↔
        Used k₁.nodes n ∧
        ∃ r, (some r ∈ roots ∨ r ∈ vectors.flatten ∨ (k₁.nodes r).refcou = maxref) ∧
          Reaches (children k₁.nodes) r n) Stops k₁) Stops loadedKernel :=
  analyzer_collected rfl (by decide) (by decide) _

/-- **A full counter stays full**: a node whose counter is full after a part of a program keeps
its diagram and its counter through the rest, even when all references to it are gone. -/
theorem analyzer_pinned (hrunning : k.running = false) (hsize : 2 ≤ nodeSize)
    (hcache : 2 ≤ cacheSize) (first rest : Session env (initVars 0 domains)) :
    Wp (analyze env nodeSize cacheSize first) (fun (vectors, roots, _) k₁ =>
      Wp (rest.run vectors roots) (fun _ k₂ => ∀ n (t : Tree (Fin nvars)), Denotes k₁.nodes n t →
        (k₁.nodes n).refcou = maxref → Denotes k₂.nodes n t ∧ (k₂.nodes n).refcou = maxref)
        Stops k₁) Stops k := by
  refine (wp_analyze hrunning hsize hcache first).imp ?_
  intro ⟨vectors, roots, answers⟩ k₁ ⟨_, h⟩
  refine (wp_session rest h).imp ?_
  intro res k₂ ⟨_, hleaves⟩ n t hden hfull
  have hpinned := hleaves.spares.pinned ⟨hden, hfull⟩
  exact ⟨hpinned.denotes, hpinned.refcou⟩

theorem analyzer_pinned_sample :
    let session := sampleSession ⟨.srcZone, Range.singleton 3 (by decide)⟩
    Wp (analyze roomyEnvironment 1000 100 session)
      (fun (vectors, roots, _) k₁ => Wp (session.run vectors roots) (fun _ k₂ =>
        ∀ n (t : Tree (Fin nvars)), Denotes k₁.nodes n t → (k₁.nodes n).refcou = maxref →
          Denotes k₂.nodes n t ∧ (k₂.nodes n).refcou = maxref) Stops k₁) Stops loadedKernel :=
  analyzer_pinned rfl (by decide) (by decide) _ _

/-- **The diagram of a model value is built right at any time**: whatever a program did before,
`make_bdd` returns the only node of the function that is true for the packets with a value in the
range. -/
theorem analyzer_makeBdd (hrunning : k.running = false) (hsize : 2 ≤ nodeSize)
    (hcache : 2 ≤ cacheSize) (session : Session env (initVars 0 domains)) (v : Mvalue) :
    Wp (analyze env nodeSize cacheSize session) (fun (vectors, _, _) k₁ =>
      Wp (makeBddMvalue env v vectors) (fun n k₂ => Idle nvars k₂ ∧
        NodeOf k₂ (fun pk : Packet => decide (v.range.lbound ≤ pk.value v.dt ∧
          pk.value v.dt ≤ v.range.ubound)) n) Stops k₁) Stops k := by
  refine (wp_analyze hrunning hsize hcache session).imp ?_
  intro ⟨vectors, roots, answers⟩ k₁ ⟨_, h⟩
  refine (wp_makeBddMvalue v h.toOwned (fun v hv n hn => ownership_pos_vector hv hn)
    h.vectors).imp ?_
  intro n k₂ ⟨howned, _, hden⟩
  refine ⟨howned.toIdle, v.makeBdd, fun pk => ?_, howned.toTabular.denotes_iff hden⟩
  rw [Bool.eq_iff_iff, decide_eq_true_iff]
  exact mem_makeBdd_mvalue

theorem analyzer_makeBdd_sample :
    let session := sampleSession ⟨.srcZone, Range.singleton 3 (by decide)⟩
    Wp (analyze roomyEnvironment 1000 100 session)
      (fun (vectors, _, _) k₁ =>
        Wp (makeBddMvalue roomyEnvironment ⟨.srcZone, Range.singleton 3 (by decide)⟩ vectors)
          (fun n k₂ =>
          Idle nvars k₂ ∧ NodeOf k₂ (fun pk : Packet =>
            decide (3 ≤ pk.value .srcZone ∧ pk.value .srcZone ≤ 3)) n) Stops k₁)
      Stops loadedKernel :=
  analyzer_makeBdd rfl (by decide) (by decide) _ ⟨.srcZone, Range.singleton 3 (by decide)⟩

end RulesAnalyzer.Buddy
