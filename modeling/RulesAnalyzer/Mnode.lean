import RulesAnalyzer.Domain
import Mathlib.Data.Set.Disjoint
import Mathlib.Order.CompletePartialOrder

/-!
# Model nodes

Everything the model is made of (an address, a service, a group, the predicate of
a rule) is a node: it has a diagram, and two nodes are compared through their
diagrams.  Diagrams are canonical, so the comparisons made by the code, which
are equations between diagrams, are relations between sets of packets.

## Main definitions

* `Mnode` — a type of nodes; `Bddnode` — a node that is just a diagram.
* `Mnode.packets` — the set of packets of a node.
* `Mnode.isSubset`, `Mnode.isDisjoint`, `Mnode.compare`, … — the comparisons.

## Main results

* `Mnode.isSubset_iff`, `Mnode.isDisjoint_iff`, … — what each comparison says about the
  sets of packets.
* `Mnode.compare_iff` — the relation `compare` returns is the one that holds.
-/

namespace RulesAnalyzer

open Diagram

/-- Relations that can exist between two model nodes. -/
inductive MnodeRelationship
  | equal
  | subset
  | superset
  | disjoint
  | overlap
  deriving DecidableEq, Repr

/-- A type of model nodes. -/
class Mnode (T : Type) where
  /-- The diagram of a node. -/
  makeBdd : T → ModelBdd

/-- A node that encapsulates a diagram. -/
abbrev Bddnode := ModelBdd

instance : Mnode Bddnode := ⟨fun bdd => bdd⟩

namespace Mnode

variable {S T : Type} [Mnode S] [Mnode T]

@[simp] theorem makeBdd_bddnode (a : Bddnode) : makeBdd a = a := rfl

/-- The packets of a node. -/
def packets (a : T) : Set Packet := {pk | pk ∈ makeBdd a}

theorem mem_packets {a : T} {pk : Packet} : pk ∈ packets a ↔ pk ∈ makeBdd a := Iff.rfl

/-- **Canonicity**: a diagram is determined by its packets. -/
theorem makeBdd_eq_iff {a : S} {b : T} : makeBdd a = makeBdd b ↔ packets a = packets b := by
  rw [Bdd.eq_iff_mem, Set.ext_iff]
  rfl

/-! ### Comparing two nodes -/

/-- The node represents any value. -/
def isAny (a : T) : Bool := makeBdd a == bddTrue

/-- The node represents no value. -/
def isNone (a : T) : Bool := makeBdd a == bddFalse

/-- The node is a subset of another one. -/
def isSubset (a : S) (b : T) : Bool :=
  makeBdd a == makeBdd b || bddImp (makeBdd a) (makeBdd b) == bddTrue

/-- The node is disjoint from another one. -/
def isDisjoint (a : S) (b : T) : Bool := bddAnd (makeBdd a) (makeBdd b) == bddFalse

/-- The node overlaps with another one. -/
def overlaps (a : S) (b : T) : Bool := !isDisjoint a b

/-- The node equals another one. -/
def equal (a : S) (b : T) : Bool := makeBdd a == makeBdd b

/-- The node, or its negation. -/
def negateIf (a : T) (condition : Bool) : Bddnode :=
  if condition then bddNot (makeBdd a) else makeBdd a

/-- The relation between two diagrams. -/
def compareBdd (a b : ModelBdd) : MnodeRelationship :=
  if a = b then .equal
  else if bddImp a b = bddTrue then .subset
  else if bddImp b a = bddTrue then .superset
  else if bddAnd a b = bddFalse then .disjoint
  else .overlap

/-- The relation between two nodes. -/
def compare (a : S) (b : T) : MnodeRelationship := compareBdd (makeBdd a) (makeBdd b)

theorem isAny_iff {a : T} : isAny a = true ↔ packets a = Set.univ := by
  rw [isAny, beq_iff_eq, eq_bddTrue_iff, Set.eq_univ_iff_forall]
  rfl

theorem isNone_iff {a : T} : isNone a = true ↔ packets a = ∅ := by
  rw [isNone, beq_iff_eq, eq_bddFalse_iff, Set.eq_empty_iff_forall_notMem]
  rfl

theorem isSubset_iff {a : S} {b : T} : isSubset a b = true ↔ packets a ⊆ packets b := by
  have himp : bddImp (makeBdd a) (makeBdd b) = bddTrue ↔ packets a ⊆ packets b :=
    bddImp_eq_bddTrue_iff
  rw [isSubset, Bool.or_eq_true, beq_iff_eq, beq_iff_eq, himp, makeBdd_eq_iff]
  exact or_iff_right_of_imp fun h => h.subset

theorem isDisjoint_iff {a : S} {b : T} :
    isDisjoint a b = true ↔ Disjoint (packets a) (packets b) := by
  rw [isDisjoint, beq_iff_eq, bddAnd_eq_bddFalse_iff, Set.disjoint_left]
  rfl

theorem overlaps_iff {a : S} {b : T} :
    overlaps a b = true ↔ (packets a ∩ packets b).Nonempty := by
  rw [overlaps, Bool.not_eq_true', ← Bool.not_eq_true, isDisjoint_iff,
    Set.not_disjoint_iff_nonempty_inter]

theorem equal_iff {a : S} {b : T} : equal a b = true ↔ packets a = packets b := by
  rw [equal, beq_iff_eq, makeBdd_eq_iff]

@[simp] theorem mem_negateIf {a : T} {condition : Bool} {pk : Packet} :
    pk ∈ negateIf a condition ↔ (pk ∈ makeBdd a ↔ condition = false) := by
  cases condition <;> simp [negateIf]

/-- The set relation a value of `MnodeRelationship` stands for.  The first relation that
holds is the one that counts: the empty set is a subset, not disjoint. -/
def Related (A B : Set Packet) : MnodeRelationship → Prop
  | .equal => A = B
  | .subset => A ⊂ B
  | .superset => B ⊂ A
  | .disjoint => ¬A ⊆ B ∧ ¬B ⊆ A ∧ Disjoint A B
  | .overlap => ¬A ⊆ B ∧ ¬B ⊆ A ∧ (A ∩ B).Nonempty

/-- **`compare` returns the relation that holds.**  The relations exclude each other, so the
first test that succeeds decides. -/
theorem compare_iff {a : S} {b : T} {relation : MnodeRelationship} :
    compare a b = relation ↔ Related (packets a) (packets b) relation := by
  have hab : bddImp (makeBdd a) (makeBdd b) = bddTrue ↔ packets a ⊆ packets b :=
    bddImp_eq_bddTrue_iff
  have hba : bddImp (makeBdd b) (makeBdd a) = bddTrue ↔ packets b ⊆ packets a :=
    bddImp_eq_bddTrue_iff
  have hdis : bddAnd (makeBdd a) (makeBdd b) = bddFalse ↔ Disjoint (packets a) (packets b) := by
    rw [bddAnd_eq_bddFalse_iff, Set.disjoint_left]
    rfl
  rw [compare, compareBdd]
  -- the tests in the order of the code; each excludes those before it
  by_cases heq : packets a = packets b
  · rw [if_pos (makeBdd_eq_iff.mpr heq)]
    cases relation <;> simp [heq, Related]
  rw [if_neg (mt makeBdd_eq_iff.mp heq)]
  by_cases h1 : packets a ⊆ packets b
  · have h2 : ¬packets b ⊆ packets a := fun h2 => heq (h1.antisymm h2)
    rw [if_pos (hab.mpr h1)]
    cases relation <;> simp [heq, h1, h2, Related, Set.ssubset_def]
  rw [if_neg (mt hab.mp h1)]
  by_cases h2 : packets b ⊆ packets a
  · rw [if_pos (hba.mpr h2)]
    cases relation <;> simp [heq, h1, h2, Related, Set.ssubset_def]
  rw [if_neg (mt hba.mp h2)]
  by_cases h3 : Disjoint (packets a) (packets b)
  · have h4 : ¬(packets a ∩ packets b).Nonempty := Set.not_nonempty_iff_eq_empty.mpr h3.inter_eq
    rw [if_pos (hdis.mpr h3)]
    cases relation <;> simp [heq, h1, h2, h3, h4, Related, Set.ssubset_def]
  · have h4 : (packets a ∩ packets b).Nonempty := Set.not_disjoint_iff_nonempty_inter.mp h3
    rw [if_neg (mt hdis.mp h3)]
    cases relation <;> simp [heq, h1, h2, h3, h4, Related, Set.ssubset_def]

theorem compare_eq_equal_iff {a : S} {b : T} :
    compare a b = .equal ↔ packets a = packets b := compare_iff

end Mnode

end RulesAnalyzer
