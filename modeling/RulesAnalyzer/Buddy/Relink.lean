import RulesAnalyzer.Buddy.NodeTable
import Mathlib.Data.List.Range

/-!
# Linking all nodes anew

The loops at the end of a garbage collection and of a resize go through the table
from the last node down.  Each node goes to the head of the chain of its bucket or
to the head of the free list, so the loop needs the buckets to be empty before, and
nothing about the links that it overwrites.

## Main definitions

* `SameContent` — nodes that only differ in their links.
* `LinkFree` — a decision about nodes that does not depend on the links.
* `Relinked` — the table after some rounds.

## Main results

* `Relinked.step`, `relinked_relink` — one round and the loop.
* `chained_relink`, `freeListed_relink` — **the chains and the free list are right.**
-/

namespace RulesAnalyzer.Buddy

open Shared

/-! ### Content and links -/

/-- The fields that are not links. -/
structure SameContent (a b : BddNode) : Prop extends SameCore a b where
  refcou : a.refcou = b.refcou

theorem SameContent.refl (a : BddNode) : SameContent a a := ⟨.refl a, rfl⟩

theorem SameContent.symm {a b : BddNode} (h : SameContent a b) : SameContent b a :=
  ⟨⟨h.level.symm, h.low.symm, h.high.symm⟩, h.refcou.symm⟩

theorem SameContent.trans {a b c : BddNode} (h : SameContent a b) (h' : SameContent b c) :
    SameContent a c := ⟨h.toSameCore.trans h'.toSameCore, h.refcou.trans h'.refcou⟩

theorem bucketOf_congr {a b : BddNode} (h : SameCore a b) (nodesize : ℕ) :
    bucketOf nodesize a = bucketOf nodesize b := by
  rw [bucketOf, bucketOf, h.level, h.low, h.high]

@[simp] theorem Kernel.modifyNode_nodes (k : Kernel) (n : ℕ) (f : BddNode → BddNode) :
    (k.modifyNode n f).nodes = Function.update k.nodes n (f (k.nodes n)) := rfl

section Insert

variable (k : Kernel) (n m : ℕ)

theorem insertBucket_nodes (b : ℕ) (hb : bucketOf k.nodesize (k.nodes n) = b) :
    (insertBucket n k).nodes m = { k.nodes m with
      hash := if m = b then n else (k.nodes m).hash
      next := if m = n then (k.nodes b).hash else (k.nodes m).next } := by
  subst hb
  simp only [insertBucket, Kernel.modifyNode_nodes, Function.update_apply, bucketOf]
  split_ifs with hb hn hn <;> simp_all

theorem insertBucket_next : (fun m => ((insertBucket n k).nodes m).next) =
    Function.update (fun m => (k.nodes m).next) n
      (k.nodes (bucketOf k.nodesize (k.nodes n))).hash := by
  funext m
  rw [insertBucket_nodes k n m _ rfl, Function.update_apply]

theorem insertBucket_hash : ((insertBucket n k).nodes m).hash =
    if m = bucketOf k.nodesize (k.nodes n) then n else (k.nodes m).hash := by
  rw [insertBucket_nodes k n m _ rfl]

theorem insertBucket_content : SameContent ((insertBucket n k).nodes m) (k.nodes m) := by
  rw [insertBucket_nodes k n m _ rfl]
  exact ⟨⟨rfl, rfl, rfl⟩, rfl⟩

theorem insertFree_next : (fun m => ((insertFree n k).nodes m).next) =
    Function.update (fun m => (k.nodes m).next) n k.freepos := by
  funext m
  simp only [insertFree, Kernel.modifyNode_nodes, Function.update_apply]
  split_ifs <;> rfl

theorem insertFree_hash : ((insertFree n k).nodes m).hash = (k.nodes m).hash := by
  simp only [insertFree, Kernel.modifyNode_nodes, Function.update_apply]
  split_ifs <;> simp_all

theorem insertFree_content : SameContent ((insertFree n k).nodes m) (k.nodes m) := by
  simp only [insertFree, Kernel.modifyNode_nodes, Function.update_apply]
  split_ifs <;> subst_vars <;> exact ⟨⟨rfl, rfl, rfl⟩, rfl⟩

end Insert

/-! ### Rounds -/

/-- What is decided about a node and done with it does not depend on its links. -/
structure LinkFree (keep : BddNode → Bool) (onKeep onDrop : BddNode → BddNode) : Prop where
  keep_congr : ∀ {a b}, SameContent a b → keep a = keep b
  onKeep_congr : ∀ {a b}, SameContent a b → SameContent (onKeep a) (onKeep b)
  onDrop_congr : ∀ {a b}, SameContent a b → SameContent (onDrop a) (onDrop b)
  links_onKeep : ∀ a, (onKeep a).hash = a.hash ∧ (onKeep a).next = a.next
  links_onDrop : ∀ a, (onDrop a).hash = a.hash ∧ (onDrop a).next = a.next
  low_onKeep : ∀ {a}, keep a = true → (onKeep a).low ≠ none
  low_onDrop : ∀ {a}, keep a = false → (onDrop a).low = none

/-- The list holds the elements of the other list that satisfy the predicate. -/
def Holds (l passed : List ℕ) (P : ℕ → Prop) : Prop := ∀ n, n ∈ l ↔ n ∈ passed ∧ P n

section Holds

variable {l passed : List ℕ} {P : ℕ → Prop} {n : ℕ}

theorem Holds.cons (h : Holds l passed P) (hn : P n) : Holds (n :: l) (n :: passed) P := by
  intro m
  rw [List.mem_cons, List.mem_cons, h m]
  constructor
  · rintro (rfl | hm)
    · exact ⟨.inl rfl, hn⟩
    · exact ⟨.inr hm.1, hm.2⟩
  · rintro ⟨rfl | hm, hP⟩
    · exact .inl rfl
    · exact .inr ⟨hm, hP⟩

theorem Holds.skip (h : Holds l passed P) (hn : ¬P n) : Holds l (n :: passed) P := by
  intro m
  rw [List.mem_cons, h m]
  constructor
  · exact fun hm => ⟨.inr hm.1, hm.2⟩
  · rintro ⟨rfl | hm, hP⟩
    · exact absurd hP hn
    · exact ⟨hm, hP⟩

theorem Holds.notMem (h : Holds l passed P) (hn : n ∉ passed) : n ∉ l :=
  fun hmem => hn ((h n).mp hmem).1

end Holds

section Relink

variable {keep : BddNode → Bool} {onKeep onDrop : BddNode → BddNode}

/-- A node before or after its round. -/
def relinkedNode (keep : BddNode → Bool) (onKeep onDrop : BddNode → BddNode) (passed : List ℕ)
    (n : ℕ) (node : BddNode) : BddNode :=
  if n ∈ passed then if keep node then onKeep node else onDrop node else node

/-- The table after the rounds for some nodes. -/
structure Relinked (keep : BddNode → Bool) (onKeep onDrop : BddNode → BddNode) (k : Kernel)
    (passed : List ℕ) (k' : Kernel) : Prop where
  content : ∀ n, SameContent (k'.nodes n) (relinkedNode keep onKeep onDrop passed n (k.nodes n))
  chained : ∀ b < k.nodesize, ∃ l, Linked (fun n => (k'.nodes n).next) (k'.nodes b).hash l ∧
    Holds l passed fun n => keep (k.nodes n) = true ∧
      bucketOf k.nodesize (onKeep (k.nodes n)) = b
  free : ∃ l, Linked (fun n => (k'.nodes n).next) k'.freepos l ∧ l.length = k'.freenum ∧
    Holds l passed fun n => keep (k.nodes n) = false
  rest : k' = { k with nodes := k'.nodes, freepos := k'.freepos, freenum := k'.freenum }

variable {k k' : Kernel} {passed : List ℕ} {n : ℕ}

/-- The nodes that do not have their round keep their content. -/
theorem content_cons {f : BddNode → BddNode} {nodes : ℕ → BddNode}
    (h : Relinked keep onKeep onDrop k passed k')
    (hnode : SameContent (f (k'.nodes n)) (relinkedNode keep onKeep onDrop [n] n (k.nodes n)))
    (hnodes : ∀ m, SameContent (nodes m) ((k'.modifyNode n f).nodes m)) (m : ℕ) :
    SameContent (nodes m)
      (relinkedNode keep onKeep onDrop (n :: passed) m (k.nodes m)) := by
  refine (hnodes m).trans ?_
  rw [Kernel.modifyNode_nodes, Function.update_apply]
  split
  · next hmn =>
    subst hmn
    simpa [relinkedNode] using hnode
  · next hmn => simpa [relinkedNode, hmn] using h.content m

/-- A change of the content leaves the links. -/
theorem links_modifyNode {f : BddNode → BddNode}
    (hf : ∀ a, (f a).hash = a.hash ∧ (f a).next = a.next) (m : ℕ) :
    ((k.modifyNode n f).nodes m).hash = (k.nodes m).hash ∧
      ((k.modifyNode n f).nodes m).next = (k.nodes m).next := by
  rw [Kernel.modifyNode_nodes, Function.update_apply]
  split
  · next h => subst h; exact hf _
  · exact ⟨rfl, rfl⟩

/-- The round of a node that goes into its bucket.  It becomes the head of the chain there, and
its link is on no other chain. -/
theorem Relinked.into_bucket (hlinks : LinkFree keep onKeep onDrop)
    (h : Relinked keep onKeep onDrop k passed k') (hn : n ∉ passed) (hpos : n ≠ 0)
    (hk : keep (k.nodes n) = true) :
    Relinked keep onKeep onDrop k (n :: passed) (insertBucket n (k'.modifyNode n onKeep)) := by
  have hsame : SameContent (k'.nodes n) (k.nodes n) := by
    simpa [relinkedNode, hn] using h.content n
  have hlink := links_modifyNode (k := k') (n := n) hlinks.links_onKeep
  have hnode : SameContent (onKeep (k'.nodes n)) (onKeep (k.nodes n)) := hlinks.onKeep_congr hsame
  have hbucket : bucketOf (k'.modifyNode n onKeep).nodesize ((k'.modifyNode n onKeep).nodes n) =
      bucketOf k.nodesize (onKeep (k.nodes n)) := by
    rw [Kernel.modifyNode_nodes, Function.update_self, bucketOf_congr hnode.toSameCore,
      h.rest]
    rfl
  have hnext : (fun m => ((insertBucket n (k'.modifyNode n onKeep)).nodes m).next) =
      Function.update (fun m => (k'.nodes m).next) n
        (k'.nodes (bucketOf k.nodesize (onKeep (k.nodes n)))).hash := by
    rw [insertBucket_next, hbucket, (hlink _).1]
    congr 1
    exact funext fun m => (hlink m).2
  refine ⟨content_cons h ?_ fun m => insertBucket_content _ n m, ?_, ?_, ?_⟩
  · simpa [relinkedNode, hk] using hnode
  · intro b hb
    obtain ⟨l, hl, hmem⟩ := h.chained b hb
    rw [hnext, insertBucket_hash, hbucket]
    -- the bucket of the node gets it as its head, the others are not touched
    by_cases hbn : b = bucketOf k.nodesize (onKeep (k.nodes n))
    · subst hbn
      rw [if_pos rfl]
      exact ⟨n :: l, hl.push (hmem.notMem hn) hpos, hmem.cons ⟨hk, rfl⟩⟩
    · rw [if_neg hbn, (hlink b).1]
      exact ⟨l, hl.update (hmem.notMem hn) _, hmem.skip fun hP => hbn hP.2.symm⟩
  · -- the link that is written is on no other chain
    obtain ⟨l, hl, hlength, hmem⟩ := h.free
    rw [hnext]
    exact ⟨l, hl.update (hmem.notMem hn) _, hlength, hmem.skip (by simp [hk])⟩
  · rw [h.rest]
    rfl

/-- The round of a node that goes into the free list. -/
theorem Relinked.into_free (hlinks : LinkFree keep onKeep onDrop)
    (h : Relinked keep onKeep onDrop k passed k') (hn : n ∉ passed) (hpos : n ≠ 0)
    (hk : keep (k.nodes n) = false) :
    Relinked keep onKeep onDrop k (n :: passed) (insertFree n (k'.modifyNode n onDrop)) := by
  have hsame : SameContent (k'.nodes n) (k.nodes n) := by
    simpa [relinkedNode, hn] using h.content n
  have hlink := links_modifyNode (k := k') (n := n) hlinks.links_onDrop
  have hnode : SameContent (onDrop (k'.nodes n)) (onDrop (k.nodes n)) := hlinks.onDrop_congr hsame
  have hnext : (fun m => ((insertFree n (k'.modifyNode n onDrop)).nodes m).next) =
      Function.update (fun m => (k'.nodes m).next) n k'.freepos := by
    rw [insertFree_next]
    congr 1
    exact funext fun m => (hlink m).2
  refine ⟨content_cons h ?_ fun m => insertFree_content _ n m, ?_, ?_, ?_⟩
  · simpa [relinkedNode, hk] using hnode
  · intro b hb
    obtain ⟨l, hl, hmem⟩ := h.chained b hb
    rw [hnext, insertFree_hash, (hlink b).1]
    exact ⟨l, hl.update (hmem.notMem hn) _, hmem.skip (by simp [hk])⟩
  · -- the free list gets the node as its head
    obtain ⟨l, hl, hlength, hmem⟩ := h.free
    rw [hnext]
    refine ⟨n :: l, hl.push (hmem.notMem hn) hpos, ?_, hmem.cons hk⟩
    rw [List.length_cons, hlength]
    rfl
  · rw [h.rest]
    rfl

/-- One round. -/
theorem Relinked.step (hlinks : LinkFree keep onKeep onDrop)
    (h : Relinked keep onKeep onDrop k passed k') (hn : n ∉ passed) (hpos : n ≠ 0) :
    Relinked keep onKeep onDrop k (n :: passed) (relinkNode keep onKeep onDrop n k') := by
  have hsame : SameContent (k'.nodes n) (k.nodes n) := by
    simpa [relinkedNode, hn] using h.content n
  rw [relinkNode, hlinks.keep_congr hsame]
  split
  · next hk => exact h.into_bucket hlinks hn hpos hk
  · next hk => exact h.into_free hlinks hn hpos (Bool.not_eq_true _ ▸ hk)

/-! ### The loop -/

/-- The loop from the last node down. -/
theorem relinked_relink (hlinks : LinkFree keep onKeep onDrop)
    (hempty : ∀ b < k.nodesize, (k.nodes b).hash = 0) :
    Relinked keep onKeep onDrop k (List.range' 2 (k.nodesize - 2))
      (relink keep onKeep onDrop k) := by
  have hloop : ∀ l : List ℕ, l.Nodup → (∀ n ∈ l, n ≠ 0) → Relinked keep onKeep onDrop k l
      (l.foldr (relinkNode keep onKeep onDrop) { k with freepos := 0, freenum := 0 }) := by
    intro l
    induction l with
    | nil =>
      intro _ _
      refine ⟨fun n => ?_, fun b hb => ⟨[], hempty b hb, fun n => by simp⟩,
        ⟨[], rfl, rfl, fun n => by simp⟩, rfl⟩
      simpa [relinkedNode] using SameContent.refl _
    | cons n l ih =>
      intro hnodup hpos
      obtain ⟨hn, hnodup⟩ := List.nodup_cons.mp hnodup
      exact (ih hnodup fun m hm => hpos m (List.mem_cons_of_mem n hm)).step hlinks hn
        (hpos n List.mem_cons_self)
  refine hloop _ List.nodup_range' fun n hn => ?_
  rw [List.mem_range'_1] at hn
  omega

variable (hlinks : LinkFree keep onKeep onDrop)
  (hempty : ∀ b < k.nodesize, (k.nodes b).hash = 0)
  (houtside : ∀ n, k.nodesize ≤ n → (k.nodes n).low = none)

include hlinks hempty

/-- The nodes of the loop. -/
theorem relink_content (hn : 2 ≤ n) (hlt : n < k.nodesize) :
    SameContent ((relink keep onKeep onDrop k).nodes n)
      (if keep (k.nodes n) then onKeep (k.nodes n) else onDrop (k.nodes n)) := by
  have h := (relinked_relink hlinks hempty).content n
  rwa [relinkedNode, if_pos (List.mem_range'_1.mpr (by omega))] at h

/-- The constants and what is not in the table. -/
theorem relink_content_outside (hn : n < 2 ∨ k.nodesize ≤ n) :
    SameContent ((relink keep onKeep onDrop k).nodes n) (k.nodes n) := by
  have h := (relinked_relink hlinks hempty).content n
  rwa [relinkedNode, if_neg (by rw [List.mem_range'_1]; omega)] at h

include houtside

/-- The nodes that are kept are used. -/
theorem used_relink : Used (relink keep onKeep onDrop k).nodes n ↔
    2 ≤ n ∧ n < k.nodesize ∧ keep (k.nodes n) = true := by
  rw [Used]
  refine and_congr_right fun hn => ?_
  by_cases hlt : n < k.nodesize
  · rw [(relink_content hlinks hempty hn hlt).low]
    split
    · next hk => simp [hk, hlt, hlinks.low_onKeep hk]
    · next hk => simp [hk, hlinks.low_onDrop (Bool.not_eq_true _ ▸ hk)]
  · rw [(relink_content_outside hlinks hempty (.inr (not_lt.mp hlt))).low]
    simp [hlt, houtside n (not_lt.mp hlt)]

/-- **The chains hold the used nodes.** -/
theorem chained_relink : Chained (relink keep onKeep onDrop k) := by
  have h := relinked_relink hlinks hempty
  have hsize : (relink keep onKeep onDrop k).nodesize = k.nodesize := by rw [h.rest]
  intro b hb
  rw [hsize] at hb ⊢
  obtain ⟨l, hl, hmem⟩ := h.chained b hb
  refine ⟨l, hl, fun n => ?_⟩
  rw [hmem n, used_relink hlinks hempty houtside, List.mem_range'_1]
  have hcontent := fun hn hlt => relink_content (n := n) hlinks hempty hn hlt
  constructor
  · rintro ⟨⟨hn, hlt⟩, hk, hbucket⟩
    have hsame := hcontent hn (by omega)
    rw [if_pos hk] at hsame
    exact ⟨⟨hn, by omega, hk⟩, by rw [bucketOf_congr hsame.toSameCore, hbucket]⟩
  · rintro ⟨⟨hn, hlt, hk⟩, hbucket⟩
    have hsame := hcontent hn hlt
    rw [if_pos hk] at hsame
    exact ⟨⟨hn, by omega⟩, hk, by rw [← bucketOf_congr hsame.toSameCore, hbucket]⟩

omit houtside in
/-- **The free list holds the other nodes.** -/
theorem freeListed_relink : FreeListed (relink keep onKeep onDrop k) := by
  have h := relinked_relink hlinks hempty
  have hsize : (relink keep onKeep onDrop k).nodesize = k.nodesize := by rw [h.rest]
  obtain ⟨l, hl, hlength, hmem⟩ := h.free
  refine ⟨l, hl, hlength, fun n => ?_⟩
  rw [hmem n, List.mem_range'_1, hsize, and_assoc]
  constructor
  · rintro ⟨hn, hlt, hk⟩
    have hcontent := relink_content hlinks hempty hn (by omega : n < k.nodesize)
    rw [hk] at hcontent
    exact ⟨hn, by omega, hcontent.low.trans (hlinks.low_onDrop hk)⟩
  · rintro ⟨hn, hlt, hlow⟩
    have hcontent := relink_content hlinks hempty hn hlt
    refine ⟨hn, by omega, ?_⟩
    by_contra hk
    rw [if_pos (Bool.not_eq_false _ ▸ hk)] at hcontent
    exact hlinks.low_onKeep (Bool.not_eq_false _ ▸ hk) (hcontent.low.symm.trans hlow)

end Relink

end RulesAnalyzer.Buddy
