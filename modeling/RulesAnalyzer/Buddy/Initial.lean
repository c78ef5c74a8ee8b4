import RulesAnalyzer.Buddy.References

/-!
# Initialisation

The first table has no nodes but the constants, and its free list runs through all
others.  Each variable that is then defined gets two nodes with full counters.  The
constants get the level behind the last variable at the end, so the table is
consistent from the start but ready for the operators only then.

## Main results

* `wp_bddInit` — the first table is consistent.
* `wp_addVariable`, `wp_bddSetvarnum` — **after the variables are defined, the kernel is
  ready for operations.**
-/

namespace RulesAnalyzer.Buddy

open Effect Diagram Shared

variable {N : ℕ} {k k' : Kernel} {env : Environment}

/-! ### The first table -/

/-- The kernel without variables. -/
structure Started (N : ℕ) (k : Kernel) : Prop extends Consistent N k where
  running : k.running = true
  varnum : k.varnum = 0
  counted : Counted k 0

theorem not_used_initNode (nodesize n : ℕ) : ¬Used (initNode nodesize) n := by
  rintro ⟨hn, hlow⟩
  rw [initNode, if_neg (by omega)] at hlow
  exact hlow rfl

/-- The first free list runs through all nodes. -/
theorem linked_initNode {nodesize : ℕ} (hsize : 3 ≤ nodesize) :
    Linked (fun n => (initNode nodesize n).next) 2 (List.range' 2 (nodesize - 2)) := by
  have hnext : ∀ n, (initNode nodesize n).next = if n = nodesize - 1 then 0 else n + 1 := by
    intro n
    rw [initNode]
    split <;> rfl
  refine linked_range' (by omega) (fun n _ hlt => ?_) ?_ (by omega)
  · rw [hnext, if_neg (by omega)]
  · rw [hnext, if_pos (by omega)]

theorem low_initNode {nodesize n : ℕ} (hn : 2 ≤ n) : (initNode nodesize n).low = none := by
  rw [initNode, if_neg (by omega)]

theorem refcou_initNode {nodesize n : ℕ} (hn : 2 ≤ n) : (initNode nodesize n).refcou = 0 := by
  rw [initNode, if_neg (by omega)]

/-- The first table is consistent.  It has no nodes but the constants: all buckets are empty, and
all other places are on the free list in their order. -/
theorem consistent_initNode (hN : N ≤ maxvar) (hprime : k.nodesize.Prime) (hthree : 3 ≤ k.nodesize)
    (hnodes : k.nodes = initNode k.nodesize) (hfreepos : k.freepos = 2)
    (hfreenum : k.freenum = k.nodesize - 2) (hstack : k.refstack = [])
    (hcache : ∀ slot, (k.applycache slot).a = none) : Consistent N k := by
  refine { prime := hprime, three_le := hthree, varnum_le := hN, zero := ?zero, one := ?one,
           denotes := ?denotes, unique := ?unique, outside := ?outside, unused := ?unused,
           stack := ?stack, chained := ?chained, freeListed := ?freeListed, cached := ?cached }
  case zero | one =>
    rw [hnodes]
    exact ⟨rfl, rfl, rfl⟩
  case denotes =>
    rw [hnodes]
    exact fun n hn => absurd hn (not_used_initNode _ n)
  case unique =>
    rw [hnodes]
    exact fun n _ hn => absurd hn (not_used_initNode _ n)
  case outside =>
    rw [hnodes]
    exact fun n hn => low_initNode (by omega)
  case unused =>
    intro n hn
    rw [hnodes] at hn ⊢
    rcases lt_or_ge n 2 with hlt | hle
    · rw [initNode, if_pos hlt] at hn
      exact absurd hn (Option.some_ne_none n)
    · exact refcou_initNode hle
  case stack =>
    rw [hstack]
    exact List.forall_mem_nil _
  case chained =>
    -- no node is used, and all buckets are empty
    refine fun b hb => ⟨[], ?_, fun n => ?_⟩
    · rw [linked_nil, hnodes, initNode]
      split <;> rfl
    · rw [hnodes]
      exact iff_of_false List.not_mem_nil fun hn => not_used_initNode _ n hn.1
  case freeListed =>
    -- all nodes but the constants are free, in their order
    refine ⟨List.range' 2 (k.nodesize - 2), ?_, ?_, fun n => ?_⟩
    · rw [hnodes, hfreepos]
      exact linked_initNode hthree
    · rw [List.length_range', hfreenum]
    · rw [List.mem_range'_1, hnodes]
      constructor
      · exact fun hn => ⟨hn.1, by omega, low_initNode hn.1⟩
      · exact fun hn => ⟨hn.1, by omega⟩
  case cached =>
    intro slot l hl
    rw [hcache slot] at hl
    exact absurd hl.symm (Option.some_ne_none l)

/-- **`bdd_init` makes a consistent table.**  The sizes must be at least 2, since the search for a
prime number divides by the number below the one it tests. -/
theorem wp_bddInit {initnodesize cs : ℕ} (hN : N ≤ maxvar) (hrunning : k.running = false)
    (hinit : 2 ≤ initnodesize) (_hcache : 2 ≤ cs) :
    Wp (bddInit env initnodesize cs) (fun _ k' => Started N k') Stops k := by
  rw [bddInit, wp_bind, wp_get, if_neg (by simp [hrunning])]
  refine wp_ite (fun _ => ⟨?_, rfl, rfl, fun n hn => ?_⟩) fun _ => .inl rfl
  · exact consistent_initNode hN (env.prime_primeGte initnodesize hinit)
      (env.three_le_primeGte initnodesize hinit) rfl rfl rfl rfl fun _ => rfl
  · exact .inr ⟨refcou_initNode hn, Nat.succ_pos _⟩

/-! ### The variables -/

/-- The first variables are defined. -/
structure Defining (N num : ℕ) (k : Kernel) : Prop extends Consistent N k where
  running : k.running = true
  refstack : k.refstack = []
  refstacksize : k.refstacksize = N * 2 + 4
  varnum : k.varnum = num
  counted : Counted k 0
  varset : ∀ v : Fin N, v < num →
    Pinned k (k.varset (v * 2)) (.node v (.leaf false) (.leaf true))

theorem Tabular.held_zero (h : Tabular N k) : Held k 0 (.leaf false : Tree (Fin N)) :=
  ⟨h.live_of_lt (by omega), .zero⟩

theorem Tabular.held_one (h : Tabular N k) : Held k 1 (.leaf true : Tree (Fin N)) :=
  ⟨h.live_of_lt (by omega), .one⟩

/-- A counter is filled. -/
theorem Counted.fill {c : ℕ → ℕ} (h : Counted k c) (n : ℕ) :
    Counted (k.modifyNode n fun node => { node with refcou := maxref }) c := by
  intro m hm
  rw [refcou_modifyRefcou]
  split
  · exact .inl rfl
  · exact h m hm

/-- A node whose counter is filled is pinned. -/
theorem Pinned.fill {n : ℕ} {t : Tree (Fin N)} (h : Denotes k.nodes n t) :
    Pinned (k.modifyNode n fun node => { node with refcou := maxref }) n t := by
  refine ⟨h.mono fun m _ => sameCore_modifyRefcou k n maxref m, ?_⟩
  rw [refcou_modifyRefcou, if_pos rfl]

/-- The nodes of the next variable are recorded. -/
theorem Defining.setVariable {v : Fin N} {var nvar : ℕ} (h : Defining N v k) (hk' : Consistent N k')
    (hlater : Later k k') (hstack : k'.refstack = [])
    (hvar : Denotes k'.nodes var (.node v (.leaf false) (.leaf true)))
    (hnvar : Denotes k'.nodes nvar (.node v (.leaf true) (.leaf false))) :
    Defining N (v + 1) (setVariable v var nvar k') := by
  set varset := Function.update (Function.update k'.varset (v * 2) var) (v * 2 + 1) nvar with hset
  set k₁ : Kernel := { k' with varset := varset, varnum := v + 1 } with hk₁
  have h₁ : Consistent N k₁ := { hk' with }
  have h₂ := h₁.modifyRefcou (hvar.used (by cases hvar; assumption)) maxref
  have hnvar : Denotes (k₁.modifyNode var fun node => { node with refcou := maxref }).nodes nvar
      (.node v (.leaf true) (.leaf false)) :=
    hnvar.mono fun m _ => sameCore_modifyRefcou k₁ var maxref m
  have hcounted : Counted k₁ 0 := by
    intro n hn
    change (k'.nodes n).refcou = maxref ∨ (k'.nodes n).refcou = _ ∧ _
    rw [hlater.refcou]
    exact h.counted n hn
  refine { toConsistent := h₂.modifyRefcou (hnvar.used (by cases hnvar; assumption)) maxref
           running := hlater.running.trans h.running
           refstack := hstack
           refstacksize := hlater.refstacksize.trans h.refstacksize
           varnum := rfl
           counted := (hcounted.fill var).fill nvar
           varset := fun w hw => ?_ }
  -- a variable of before, or the new one
  rcases Nat.lt_succ_iff_lt_or_eq.mp hw with hlt | heq
  · have hold : varset (w * 2) = k.varset (w * 2) := by
      rw [hset, Function.update_of_ne (by omega), Function.update_of_ne (by omega), hlater.varset]
    have hpinned := (h.varset w hlt).later hlater
    have hpinned : Pinned k₁ (varset (w * 2)) (.node w (.leaf false) (.leaf true)) := by
      rw [hold]
      exact ⟨hpinned.denotes, hpinned.refcou⟩
    exact (hpinned.modifyRefcou fun _ => rfl).modifyRefcou fun _ => rfl
  · obtain rfl : w = v := Fin.ext heq
    have hnew : varset (w * 2) = var := by
      rw [hset, Function.update_of_ne (by omega), Function.update_self]
    have hpinned : Pinned (k₁.modifyNode var fun node => { node with refcou := maxref })
        (varset (w * 2)) (.node w (.leaf false) (.leaf true)) := by
      rw [hnew]
      exact .fill hvar
    exact hpinned.modifyRefcou fun _ => rfl

/-- **A variable is defined.**  Its two nodes are built, the first one held on the stack of
results meanwhile, and both get full counters. -/
theorem wp_addVariable (v : Fin N) (h : Defining N v k) :
    Wp (addVariable env v) (fun _ => Defining N (v + 1)) Stops k := by
  have hnode : ∀ b c : Bool, b ≠ c →
      Tree.makeNode v (.leaf b) (.leaf c) = .node v (.leaf b) (.leaf c) :=
    fun b c hne => if_neg fun heq => hne (Tree.leaf.inj heq)
  rw [addVariable, wp_bind]
  refine (wp_bddMakenode h.toConsistent h.toTabular.held_zero h.toTabular.held_one trivial
    trivial).imp ?_
  rintro var k₁ ⟨h₁, hkept₁, hden₁⟩
  rw [hnode _ _ Bool.false_ne_true] at hden₁
  have hpushed := h₁.pushed hden₁
  have hroom : k₁.refstack.length < k₁.refstacksize := by
    rw [hkept₁.refstack, hkept₁.refstacksize, h.refstack, h.refstacksize]
    exact Nat.succ_pos _
  rw [wp_bind]
  refine wp_pushref hroom ?_
  rw [wp_bind]
  refine (wp_bddMakenode hpushed hpushed.toTabular.held_one hpushed.toTabular.held_zero trivial
    trivial).imp ?_
  rintro nvar k₂ ⟨h₂, hkept₂, hden₂⟩
  rw [hnode _ _ Bool.false_ne_true.symm] at hden₂
  rw [popref, wp_bind, wp_modify, wp_modify]
  -- the first node is on the stack while the second one is made
  have hlater : Later k k₂ := (hkept₁.toLater.trans (.pushed k₁ var)).trans hkept₂.toLater
  have hstack : k₂.refstack.drop 1 = k.refstack := by
    rw [hkept₂.refstack, Kernel.pushed, hkept₁.refstack]
    rfl
  refine h.setVariable (h₂.dropped 1) ?_
    (hstack.trans h.refstack) (hkept₂.held (held_pushed hden₁)).denotes hden₂
  exact { hlater with stacked := fun n hn => hstack ▸ hn }

/-- The constants get the level behind the last variable. -/
theorem Defining.idle (h : Defining N N k) :
    Idle N ((k.modifyNode 0 fun node => { node with level := N }).modifyNode 1
      fun node => { node with level := N }) := by
  set nodes := ((k.modifyNode 0 fun node => { node with level := N }).modifyNode 1
    fun node => { node with level := N }).nodes with hnodes
  have hupdate : ∀ m, nodes m = if m < 2 then { k.nodes m with level := N } else k.nodes m := by
    intro m
    rw [hnodes, Kernel.modifyNode_nodes, Kernel.modifyNode_nodes]
    match m with
    | 0 => rfl
    | 1 => rfl
    | m + 2 => rfl
  -- only the levels of the two constants are written
  have hcore : ∀ m, 2 ≤ m → SameCore (k.nodes m) (nodes m) := by
    intro m hm
    rw [hupdate, if_neg (by omega)]
    exact .refl _
  have hrest : ∀ m, (nodes m).refcou = (k.nodes m).refcou ∧ (nodes m).low = (k.nodes m).low ∧
      (nodes m).high = (k.nodes m).high ∧ (nodes m).hash = (k.nodes m).hash ∧
      (nodes m).next = (k.nodes m).next := by
    intro m
    rw [hupdate]
    split <;> exact ⟨rfl, rfl, rfl, rfl, rfl⟩
  have hk : Consistent N { k with nodes := nodes } := by
    refine h.relabel hcore (fun m _ => ?_) (fun m _ => (hrest m).1) fun m => (hrest m).2.2.2
    exact ⟨(hrest m).2.1, (hrest m).2.2.1, (hrest m).1⟩
  refine { toConsistent := hk, ready := ⟨?_, ?_⟩, running := h.running, refstack := h.refstack,
           room := ?_, varnum := h.varnum, varset := fun v => ?_ }
  · exact congrArg BddNode.level (hupdate 0)
  · exact congrArg BddNode.level (hupdate 1)
  · change _ ≤ k.refstacksize
    rw [h.refstacksize]
    omega
  · have hvar := h.varset v v.isLt
    exact ⟨hvar.denotes.mono fun m hm => hcore m hm.1, (hrest _).1.trans hvar.refcou⟩

/-- **After the variables are defined, the kernel is ready for operations.**  The loop defines
one variable after the other, and the invariant counts those that are done. -/
theorem wp_bddSetvarnum (h : Started N k) (hN : 1 ≤ N) :
    Wp (bddSetvarnum env N) (fun _ => Owned N 0) Stops k := by
  have hle := h.varnum_le
  have hrange : List.range' k.varnum (N - k.varnum) = List.range N := by
    rw [h.varnum, Nat.sub_zero, List.range_eq_range']
  rw [bddSetvarnum, wp_bind, wp_get, if_neg (by omega), if_neg (by rw [h.varnum]; omega),
    if_neg (by rw [h.varnum]; omega)]
  refine wp_ite (fun _ => .inl rfl) fun _ => ?_
  rw [wp_bind, wp_modify, wp_bind, hrange]
  -- the invariant of the loop: the variables passed so far are defined
  refine (wp_forM (l := List.range N)
    (I := fun passed rest k => passed ++ rest = List.range N ∧ Defining N passed.length k)
    ?_ [] ⟨rfl, ?_⟩).imp ?_
  · rintro passed b rest k₁ ⟨hpassed, h₁⟩
    have hb : b = passed.length ∧ b < N := by
      have hget : (List.range N)[passed.length]? = some b := by simp [← hpassed]
      obtain ⟨hlt, hget⟩ := List.getElem?_eq_some_iff.mp hget
      rw [List.getElem_range] at hget
      rw [List.length_range] at hlt
      exact ⟨hget.symm, hget ▸ hlt⟩
    obtain ⟨rfl, hb⟩ := hb
    refine (wp_addVariable ⟨passed.length, hb⟩ h₁).imp fun _ k₂ h₂ => ⟨?_, ?_⟩
    · rwa [List.append_assoc]
    · rwa [List.length_append]
  · exact { h with
      stack := List.forall_mem_nil _
      refstack := rfl
      refstacksize := rfl
      varset := fun v hv => absurd hv (Nat.not_lt_zero _) }
  · -- behind the loop, the constants get their level
    rintro - k₁ ⟨-, h₁⟩
    rw [List.nil_append, List.length_range] at h₁
    rw [wp_bind, wp_modify, wp_bind, wp_modify, wp_pure]
    refine ⟨h₁.idle, fun n hn => ?_⟩
    rw [Kernel.modifyNode_nodes, Kernel.modifyNode_nodes, Function.update_of_ne (by omega),
      Function.update_of_ne (by omega)]
    exact h₁.counted n hn

/-- The node of a variable. -/
theorem Idle.wp_bddIthvar (h : Idle N k) (v : Fin N) {Q : ℕ → Kernel → Prop}
    {E : BddError → Kernel → Prop}
    (hQ : ∀ n, Pinned k n (ithVar v).tree → Q n k) : Wp (bddIthvar v) Q E k := by
  rw [bddIthvar, wp_bind, wp_get, if_neg (by rw [h.varnum]; omega)]
  exact hQ _ (h.varset v)

end RulesAnalyzer.Buddy
