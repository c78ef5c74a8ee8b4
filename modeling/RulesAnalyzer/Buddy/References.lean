import RulesAnalyzer.Buddy.Refinement
import Mathlib.Algebra.Group.Pi.Basic
import Mathlib.Algebra.Group.Pi.Units

/-!
# Reference counts

The counter of a node has ten bits.  It counts references up to `MAXREF`, and stays
there once it is full: then the node is never freed, even when all references are
gone.  Below that it is the number of references, so a reference that is removed was
counted, and `bdd_delref` never finds a node without references.

## Main definitions

* `Counted`, `Owned` — the counters count the references that a program owns.
* `Spares` — what is referred to keeps its diagram.

## Main results

* `Consistent.relabel` — the counters and the levels of the constants may change.
* `wp_bddAddref`, `wp_bddDelref` — **references are added and removed**, and the counter is right.
-/

namespace RulesAnalyzer.Buddy

open Effect Diagram Shared

variable {N : ℕ} {k k' : Kernel} {c : ℕ → ℕ} {n : ℕ}

/-! ### Changes that no link sees -/

/-- The counters of used nodes and the levels of the constants may change.  Neither is part of a
diagram, of a bucket or of the free list, so every field carries over. -/
theorem Consistent.relabel (h : Consistent N k) {nodes : ℕ → BddNode}
    (hcore : ∀ m, 2 ≤ m → SameCore (k.nodes m) (nodes m))
    (hconst : ∀ m, m < 2 → (nodes m).low = (k.nodes m).low ∧ (nodes m).high = (k.nodes m).high ∧
      (nodes m).refcou = (k.nodes m).refcou)
    (hunused : ∀ m, (k.nodes m).low = none → (nodes m).refcou = (k.nodes m).refcou)
    (hlinks : ∀ m, (nodes m).hash = (k.nodes m).hash ∧ (nodes m).next = (k.nodes m).next) :
    Consistent N { k with nodes := nodes } := by
  have hused : ∀ m, Used nodes m ↔ Used k.nodes m := by
    intro m
    refine and_congr_right fun hm => ?_
    rw [(hcore m hm).low]
  have hlow : ∀ m, (nodes m).low = (k.nodes m).low := by
    intro m
    rcases lt_or_ge m 2 with hm | hm
    · exact (hconst m hm).1
    · exact (hcore m hm).low.symm
  have hden : ∀ {m : ℕ} {t : Tree (Fin N)}, Denotes k.nodes m t → Denotes nodes m t :=
    fun hden => hden.mono fun m hm => hcore m hm.1
  have hnext : (fun m => (nodes m).next) = fun m => (k.nodes m).next := funext fun m => (hlinks m).2
  have hzero := hconst 0 (by omega)
  have hone := hconst 1 (by omega)
  refine { prime := h.prime, three_le := h.three_le, varnum_le := h.varnum_le, zero := ?zero,
           one := ?one, denotes := ?denotes, unique := ?unique, outside := ?outside,
           unused := ?unused, stack := ?stack, chained := ?chained, freeListed := ?freeListed,
           cached := ?cached }
  case zero => simpa only [hzero.1, hzero.2.1, hzero.2.2] using h.zero
  case one => simpa only [hone.1, hone.2.1, hone.2.2] using h.one
  case denotes =>
    intro m hm
    obtain ⟨t, ht, hred⟩ := h.denotes m ((hused m).mp hm)
    exact ⟨t, hden ht, hred⟩
  case unique =>
    intro m m' hm hm' hsame
    have hcore₁ := hcore m hm.1
    have hcore₂ := hcore m' hm'.1
    exact h.unique m m' ((hused m).mp hm) ((hused m').mp hm')
      ⟨hcore₁.level.trans (hsame.level.trans hcore₂.level.symm),
        hcore₁.low.trans (hsame.low.trans hcore₂.low.symm),
        hcore₁.high.trans (hsame.high.trans hcore₂.high.symm)⟩
  case outside => exact fun m hm => (hlow m).trans (h.outside m hm)
  case unused =>
    intro m hm
    have hm : (k.nodes m).low = none := (hlow m).symm.trans hm
    rw [hunused m hm]
    exact h.unused m hm
  case stack => exact fun m hm => (h.stack m hm).imp_right (hused m).mpr
  case chained =>
    -- the links are the same, and no node changes its bucket
    intro b hb
    obtain ⟨l, hl, hmem⟩ := h.chained b hb
    refine ⟨l, ?_, fun m => ?_⟩
    · rw [hnext, (hlinks b).1]
      exact hl
    · rw [hmem m, hused m]
      refine and_congr_right fun hm => ?_
      rw [bucketOf_congr (hcore m hm.1)]
  case freeListed =>
    obtain ⟨l, hl, hlength, hmem⟩ := h.freeListed
    refine ⟨l, ?_, hlength, fun m => ?_⟩
    · rw [hnext]
      exact hl
    · rw [hmem m, hlow m]
  case cached =>
    intro slot a ha
    obtain ⟨t, ht, hred, hres⟩ := h.cached slot a ha
    refine ⟨t, hden ht, hred, ?_⟩
    split
    · next hc =>
      rw [if_pos hc] at hres
      exact hden hres
    · next hc =>
      rw [if_neg hc] at hres
      obtain ⟨u, hu, hredu, hres⟩ := hres
      exact ⟨u, hden hu, hredu, hden hres⟩

/-- A counter is no part of what a node denotes. -/
theorem sameCore_modifyRefcou (k : Kernel) (n r m : ℕ) : SameCore (k.nodes m)
    ((k.modifyNode n fun node => { node with refcou := r }).nodes m) := by
  rw [Kernel.modifyNode_nodes, Function.update_apply]
  split
  · next hmn => subst hmn; exact ⟨rfl, rfl, rfl⟩
  · exact .refl _

theorem refcou_modifyRefcou (k : Kernel) (n r m : ℕ) :
    ((k.modifyNode n fun node => { node with refcou := r }).nodes m).refcou =
      if m = n then r else (k.nodes m).refcou := by
  rw [Kernel.modifyNode_nodes, Function.update_apply]
  split <;> rfl

/-- The counter of a used node may change. -/
theorem Consistent.modifyRefcou (h : Consistent N k) (hn : Used k.nodes n) (r : ℕ) :
    Consistent N (k.modifyNode n fun node => { node with refcou := r }) := by
  refine h.relabel (fun m _ => sameCore_modifyRefcou k n r m) (fun m hm => ?_) (fun m hm => ?_)
    fun m => ?_
  · rw [Function.update_of_ne (by have := hn.1; omega)]
    exact ⟨rfl, rfl, rfl⟩
  · rw [Function.update_of_ne]
    rintro rfl
    exact hn.2 hm
  · rw [Function.update_apply]
    split
    · next hmn => subst hmn; exact ⟨rfl, rfl⟩
    · exact ⟨rfl, rfl⟩

/-- A full counter stays full. -/
theorem Pinned.modifyRefcou {m : ℕ} {t : Tree (Fin N)} (h : Pinned k m t) {r : ℕ}
    (hfull : (k.nodes n).refcou = maxref → r = maxref) :
    Pinned (k.modifyNode n fun node => { node with refcou := r }) m t := by
  refine ⟨h.denotes.mono fun m _ => sameCore_modifyRefcou k n r m, ?_⟩
  rw [refcou_modifyRefcou]
  split
  · next heq => exact hfull (heq ▸ h.refcou)
  · exact h.refcou

theorem Idle.modifyRefcou (h : Idle N k) (hn : Used k.nodes n) {r : ℕ}
    (hfull : (k.nodes n).refcou = maxref → r = maxref) :
    Idle N (k.modifyNode n fun node => { node with refcou := r }) := by
  have hcore := sameCore_modifyRefcou k n r
  refine { h with
    toConsistent := h.toConsistent.modifyRefcou hn r, ready := ?_
    varset := fun v => (h.varset v).modifyRefcou hfull }
  rw [Ready, Kernel.level, Kernel.level, ← (hcore 0).level, ← (hcore 1).level]
  exact h.ready

/-! ### Counted references -/

/-- The counters count the references, as far as they go. -/
def Counted (k : Kernel) (c : ℕ → ℕ) : Prop :=
  ∀ n, 2 ≤ n → (k.nodes n).refcou = maxref ∨ (k.nodes n).refcou = c n ∧ c n < maxref

/-- What has a reference is live. -/
theorem Counted.live (h : Counted k c) (hk : Tabular N k) (hn : 0 < c n) : Live k n := by
  rcases lt_or_ge n 2 with hlt | hle
  · exact hk.live_of_lt hlt
  · refine Root.live (.inr ?_)
    rcases h n hle with hfull | ⟨hcount, -⟩
    · rw [hfull]
      decide
    · omega

/-- Operations keep the counters. -/
theorem Counted.kept (h : Counted k c) (hkept : Kept k k') : Counted k' c := by
  intro n hn
  rw [hkept.refcou]
  exact h n hn

/-- The kernel of a program that owns the references. -/
structure Owned (N : ℕ) (c : ℕ → ℕ) (k : Kernel) : Prop extends Idle N k where
  counted : Counted k c

/-- Only counters changed, and none that was full. -/
structure Recounted (k k' : Kernel) : Prop where
  core : ∀ m, SameCore (k.nodes m) (k'.nodes m)
  full : ∀ m, (k.nodes m).refcou = maxref → (k'.nodes m).refcou = maxref

/-- Every node that is referred to keeps its diagram, and no full counter loses a reference. -/
structure Spares (N : ℕ) (c : ℕ → ℕ) (k k' : Kernel) : Prop where
  denotes : ∀ {n} {t : Tree (Fin N)}, 0 < c n → Denotes k.nodes n t → Denotes k'.nodes n t
  pinned : ∀ {n} {t : Tree (Fin N)}, Pinned k n t → Pinned k' n t

section Spares

variable {c' : ℕ → ℕ} {k'' : Kernel} {t : Tree (Fin N)}

theorem Recounted.refl (k : Kernel) : Recounted k k := ⟨fun _ => .refl _, fun _ => id⟩

theorem Recounted.trans (h : Recounted k k') (h' : Recounted k' k'') : Recounted k k'' :=
  ⟨fun m => (h.core m).trans (h'.core m), fun m hm => h'.full m (h.full m hm)⟩

theorem Recounted.denotes (h : Recounted k k') (hn : Denotes k.nodes n t) : Denotes k'.nodes n t :=
  hn.mono fun m _ => h.core m

theorem Recounted.spares (h : Recounted k k') : Spares N c k k' :=
  ⟨fun _ hn => h.denotes hn, fun {n} {_} hn => ⟨h.denotes hn.denotes, h.full n hn.refcou⟩⟩

theorem recounted_modifyRefcou {r : ℕ} (hfull : (k.nodes n).refcou = maxref → r = maxref) :
    Recounted k (k.modifyNode n fun node => { node with refcou := r }) := by
  refine ⟨sameCore_modifyRefcou k n r, fun m hm => ?_⟩
  rw [refcou_modifyRefcou]
  split
  · next heq => exact hfull (heq ▸ hm)
  · exact hm

theorem Spares.refl (c : ℕ → ℕ) (k : Kernel) : Spares N c k k := ⟨fun _ => id, id⟩

theorem Spares.mono (h : Spares N c' k k') (hle : c ≤ c') : Spares N c k k' :=
  ⟨fun {n} {_} hn => h.denotes (hn.trans_le (hle n)), h.pinned⟩

theorem Spares.trans (h : Spares N c k k') (h' : Spares N c k' k'') : Spares N c k k'' :=
  ⟨fun hn hden => h'.denotes hn (h.denotes hn hden), fun hn => h'.pinned (h.pinned hn)⟩

theorem Owned.held (h : Owned N c k) (hn : 0 < c n) (hden : Denotes k.nodes n t) : Held k n t :=
  ⟨h.counted.live h.toTabular hn, hden⟩

theorem Owned.kept (h : Owned N c k) (hk' : Idle N k') (hkept : Kept k k') :
    Owned N c k' ∧ Spares N c k k' :=
  ⟨⟨hk', h.counted.kept hkept⟩, fun hn hden => hkept.denotes (h.held hn hden).live hden,
    fun hn => hn.later hkept.toLater⟩

/-- A new reference, to a node of the diagram; all others are as they were. -/
def NewObject (N : ℕ) (c : ℕ → ℕ) (k : Kernel) (a : Bdd (Fin N)) (n : ℕ) (k' : Kernel) : Prop :=
  Owned N (c + Pi.single n 1) k' ∧ Spares N c k k' ∧ Denotes k'.nodes n a.tree

end Spares

/-- **A reference is added.**  Constants are not counted, and a counter that is full stays full. -/
theorem wp_bddAddref (h : Owned N c k) {t : Tree (Fin N)} (hn : Denotes k.nodes n t)
    {E : BddError → Kernel → Prop} :
    Wp (bddAddref n) (fun res k' => res = n ∧ Owned N (c + Pi.single n 1) k' ∧
      Recounted k k') E k := by
  rw [bddAddref, wp_bind, wp_get]
  split
  · next hconst =>
    -- constants are not counted
    have hconst : n < 2 := by simpa [h.running] using hconst
    refine ⟨rfl, ⟨h.toIdle, fun m hm => ?_⟩, .refl k⟩
    rw [Pi.add_apply, Pi.single_eq_of_ne (by omega), add_zero]
    exact h.counted m hm
  · next hconst =>
    -- a counter that is not full goes up by one; a full one stays
    have hused := hn.used (by omega)
    rw [if_neg (not_le.mpr (h.lt_nodesize hused)), if_neg hused.2, wp_bind, wp_modify, wp_pure]
    have hincref : k.modifyNode n .incref = k.modifyNode n fun node =>
        { node with refcou := if (k.nodes n).refcou < maxref then (k.nodes n).refcou + 1
          else (k.nodes n).refcou } := by
      rw [Kernel.modifyNode, Kernel.modifyNode, BddNode.incref]
      split <;> rfl
    have hfull : (k.nodes n).refcou = maxref → (if (k.nodes n).refcou < maxref then
        (k.nodes n).refcou + 1 else (k.nodes n).refcou) = maxref := by
      intro hfull
      rw [if_neg (by omega), hfull]
    rw [hincref]
    refine ⟨rfl, ⟨h.toIdle.modifyRefcou hused hfull, fun m hm => ?_⟩, recounted_modifyRefcou hfull⟩
    have hm := h.counted m hm
    rw [refcou_modifyRefcou, Pi.add_apply]
    split
    · next heq =>
      subst heq
      rw [Pi.single_eq_same]
      split <;> omega
    · next hne =>
      rw [Pi.single_eq_of_ne hne, add_zero]
      exact hm

/-- **A reference is removed**; it was counted, so the check of the counter does not fail.  A
counter that is full stays full. -/
theorem wp_bddDelref (h : Owned N (c + Pi.single n 1) k) {t : Tree (Fin N)}
    (hn : Denotes k.nodes n t) {E : BddError → Kernel → Prop} :
    Wp (bddDelref n) (fun res k' => res = n ∧ Owned N c k' ∧ Recounted k k') E k := by
  rw [bddDelref, wp_bind, wp_get]
  split
  · next hconst =>
    have hconst : n < 2 := by simpa [h.running] using hconst
    refine ⟨rfl, ⟨h.toIdle, fun m hm => ?_⟩, .refl k⟩
    have hm' := h.counted m hm
    rwa [Pi.add_apply, Pi.single_eq_of_ne (by omega), add_zero] at hm'
  · next hconst =>
    have hused := hn.used (by omega)
    -- the counter is full, or counts the reference that is given back
    have hpos := h.counted n hused.1
    rw [Pi.add_apply, Pi.single_eq_same] at hpos
    have hpos : (k.nodes n).refcou ≠ 0 := by
      rw [maxref] at hpos
      omega
    rw [if_neg (not_le.mpr (h.lt_nodesize hused)), if_neg hused.2, if_neg hpos, wp_bind, wp_modify,
      wp_pure]
    have hdecref : k.modifyNode n .decref = k.modifyNode n fun node =>
        { node with refcou := if (k.nodes n).refcou = maxref then maxref
          else (k.nodes n).refcou - 1 } := by
      rw [Kernel.modifyNode, Kernel.modifyNode, BddNode.decref]
      split
      · next hcond => rw [if_neg hcond.1]
      · next hcond =>
        have hfull : (k.nodes n).refcou = maxref := by omega
        rw [if_pos hfull, ← hfull]
    rw [hdecref]
    refine ⟨rfl, ⟨h.toIdle.modifyRefcou hused fun hfull => if_pos hfull, fun m hm => ?_⟩,
      recounted_modifyRefcou fun hfull => if_pos hfull⟩
    have hm := h.counted m hm
    rw [Pi.add_apply] at hm
    rw [refcou_modifyRefcou]
    split
    · next heq =>
      subst heq
      rw [Pi.single_eq_same] at hm
      split <;> omega
    · next hne => rwa [Pi.single_eq_of_ne hne, add_zero] at hm

end RulesAnalyzer.Buddy
