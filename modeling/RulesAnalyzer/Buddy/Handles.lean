import RulesAnalyzer.Buddy.BitVectors
import Mathlib.Data.List.Count

/-!
# Objects that own a reference

The class `bdd` holds a root and one reference to it.  Constructors add a reference,
the destructor removes it, and the assignment moves it, unless both roots are equal;
it returns a copy that is destroyed at once.  Two objects are equal when their roots
are.

A program that uses the package through this class sees diagrams and nothing else:
whatever it constructs, copies, assigns, compares and destroys, its answers are those
of a machine whose objects are diagrams.  Some vectors are there for all the time of
a program; parts of it may compute with their bits.

## Main definitions

* `Command`, `Command.run` — the operations of the class on the objects of a program.
* `Command.meaning` — the same operations on diagrams.
* `Session` — programs.
* `Represents` — the objects own one reference each, to a node of their diagram.

## Main results

* `wp_run` — **an operation refines its meaning.**
* `wp_session` — **so does every program**, however it goes on after an answer.
-/

namespace RulesAnalyzer.Buddy

open Effect Diagram

/-- The operators of `bdd_apply`. -/
abbrev BinaryOp := {op : BddOp // op ≠ .not}

/-- A part of a program that makes an object for a diagram from the bits of the vectors, and
leaves all other objects as they were. -/
structure Builder (env : Environment) {N : ℕ} (vars : List (Bvec (Fin N))) where
  run : List (List ℕ) → KernelM Kernel ℕ
  diagram : Bdd (Fin N)
  spec : ∀ c k vectors, Owned N c k → (∀ v ∈ vectors, ∀ n ∈ v, 0 < c n) →
    List.Forall₂ (Bits N k) vectors vars →
    Wp (run vectors) (NewObject N c k diagram) Stops k

/-- An operation of a program; objects are numbered in the order of their construction. -/
inductive Command (env : Environment) {N : ℕ} (vars : List (Bvec (Fin N)))
  | create
  | constant (b : Bool)
  | ithvar (v : Fin N)
  | copy (i : ℕ)
  | apply (op : BinaryOp) (i j : ℕ)
  | not (i : ℕ)
  | assign (i j : ℕ)
  | destroy (i : ℕ)
  | equal (i j : ℕ)
  | build (builder : Builder env vars)
  | gbc

/-! ### Objects with roots -/

/-- The constructor from a root. -/
def bddConstruct (roots : List (Option ℕ)) (root : ℕ) : KernelM Kernel (List (Option ℕ)) := do
  let _ ← bddAddref root
  return roots ++ [some root]

/-- The assignment to an object with the root `m` of an object with the root `n`. -/
def bddAssign (roots : List (Option ℕ)) (i m n : ℕ) : KernelM Kernel (List (Option ℕ)) := do
  (if m ≠ n then do
    let _ ← bddDelref m
    let _ ← bddAddref n
    pure ⟨⟩
  else pure ⟨⟩)
  -- the copy that is returned
  let _ ← bddAddref n
  let _ ← bddDelref n
  return roots.set i (some n)

/-- An operation on an object; one that was destroyed is not used again. -/
def withObject {α β : Type} (objects : List (Option α)) (i : ℕ) (unused : β) (f : α → β) : β :=
  match objects.getD i none with
  | some a => f a
  | none => unused

/-- An operation on two objects. -/
def withObjects {α β : Type} (objects : List (Option α)) (i j : ℕ) (unused : β)
    (f : α → α → β) : β :=
  withObject objects i unused fun a => withObject objects j unused fun b => f a b

namespace Command

variable {env : Environment} {N : ℕ} {vars : List (Bvec (Fin N))}

/-- An operation on objects with roots. -/
def run (vectors : List (List ℕ)) (roots : List (Option ℕ)) :
    Command env vars → KernelM Kernel (List (Option ℕ) × Option Bool)
  | .create => return (← bddConstruct roots 0, none)
  | .constant b => return (← bddConstruct roots b.toNat, none)
  | .ithvar v => return (← bddConstruct roots (← bddIthvar v), none)
  | .copy i => withObject roots i (pure (roots, none)) fun n => do
    return (← bddConstruct roots n, none)
  | .apply op i j => withObjects roots i j (pure (roots, none)) fun m n => do
    return (← bddConstruct roots (← bddApply env m n op), none)
  | .not i => withObject roots i (pure (roots, none)) fun n => do
    return (← bddConstruct roots (← bddNot env n), none)
  | .assign i j => withObjects roots i j (pure (roots, none)) fun m n => do
    return (← bddAssign roots i m n, none)
  | .destroy i => withObject roots i (pure (roots, none)) fun n => do
    let _ ← bddDelref n
    return (roots.set i none, none)
  | .equal i j => withObjects roots i j (pure (roots, none)) fun m n =>
    return (roots, some (n == m))
  | .build builder => return (roots ++ [some (← builder.run vectors)], none)
  | .gbc => do
    bddGbc
    return (roots, none)

/-! ### Objects with diagrams -/

/-- The operation on diagrams. -/
def meaning (objects : List (Option (Bdd (Fin N)))) :
    Command env vars → List (Option (Bdd (Fin N))) × Option Bool
  | .create => (objects ++ [some bddFalse], none)
  | .constant b => (objects ++ [some (if b then bddTrue else bddFalse)], none)
  | .ithvar v => (objects ++ [some (ithVar v)], none)
  | .copy i => withObject objects i (objects, none) fun a => (objects ++ [some a], none)
  | .apply op i j => withObjects objects i j (objects, none) fun a b =>
    (objects ++ [some (Diagram.bddApply op.1.eval a b)], none)
  | .not i => withObject objects i (objects, none) fun a =>
    (objects ++ [some (Diagram.bddNot a)], none)
  | .assign i j => withObjects objects i j (objects, none) fun _ b =>
    (objects.set i (some b), none)
  | .destroy i => withObject objects i (objects, none) fun _ => (objects.set i none, none)
  | .equal i j => withObjects objects i j (objects, none) fun a b =>
    (objects, some (decide (a = b)))
  | .build builder => (objects ++ [some builder.diagram], none)
  | .gbc => (objects, none)

end Command

/-- A program, which may go on according to its answers. -/
inductive Session (env : Environment) {N : ℕ} (vars : List (Bvec (Fin N)))
  | stop
  | step (command : Command env vars) (next : Option Bool → Session env vars)

namespace Session

variable {env : Environment} {N : ℕ} {vars : List (Bvec (Fin N))}

/-- The operations of a program, and its answers. -/
def run (vectors : List (List ℕ)) : Session env vars → List (Option ℕ) →
    KernelM Kernel (List (Option ℕ) × List Bool)
  | .stop, roots => return (roots, [])
  | .step command next, roots => do
    let (roots, answer) ← command.run vectors roots
    let (roots, answers) ← (next answer).run vectors roots
    return (roots, answer.toList ++ answers)

/-- The operations of a program on diagrams, and its answers. -/
def meaning : Session env vars → List (Option (Bdd (Fin N))) →
    List (Option (Bdd (Fin N))) × List Bool
  | .stop, objects => (objects, [])
  | .step command next, objects =>
    let result := command.meaning objects
    let last := (next result.2).meaning result.1
    (last.1, result.2.toList ++ last.2)

end Session

/-! ### Counting references -/

/-- The number of objects with a root. -/
def references (roots : List (Option ℕ)) (n : ℕ) : ℕ := roots.count (some n)

section References

variable {roots : List (Option ℕ)} {i m n : ℕ}

theorem count_cons_root (root : Option ℕ) (n : ℕ) :
    (root :: roots).count (some n) = roots.count (some n) + if root = some n then 1 else 0 := by
  simp [List.count_cons]

theorem references_append : references (roots ++ [some n]) = references roots + Pi.single n 1 := by
  funext m
  rw [references, List.count_append, count_cons_root, List.count_nil, zero_add, Pi.add_apply,
    Pi.single_apply]
  simp only [Option.some.injEq, eq_comm]
  rfl

theorem references_set_none (h : roots.getD i none = some m) :
    references roots = references (roots.set i none) + Pi.single m 1 := by
  funext n
  rw [Pi.add_apply, Pi.single_apply, references, references]
  induction roots generalizing i with
  | nil => exact absurd h.symm (Option.some_ne_none m)
  | cons root roots ih =>
    cases i with
    | zero =>
      obtain rfl : root = some m := h
      rw [List.set_cons_zero, count_cons_root, count_cons_root, if_neg (Option.some_ne_none n).symm]
      simp only [Option.some.injEq, eq_comm, add_zero]
    | succ i =>
      rw [List.set_cons_succ, count_cons_root, count_cons_root, ih h]
      omega

theorem getD_set_self (h : roots.getD i none = some m) :
    (roots.set i (some n)).getD i none = some n := by
  have hi : i < roots.length := by
    by_contra hge
    rw [List.getD_eq_default _ _ (not_lt.mp hge)] at h
    exact absurd h.symm (Option.some_ne_none m)
  rw [List.getD_eq_getElem _ _ (by rwa [List.length_set]), List.getElem_set_self]

end References

/-! ### Objects that stand for diagrams -/

section Related

variable {α β : Type} {R : α → β → Prop} {l : List (Option α)} {l' : List (Option β)} {i : ℕ}

theorem forall₂_getD (h : List.Forall₂ (Option.Rel R) l l') (i : ℕ) :
    Option.Rel R (l.getD i none) (l'.getD i none) := by
  induction h generalizing i with
  | nil => exact .none
  | cons hab _ ih =>
    cases i with
    | zero => exact hab
    | succ i => exact ih i

theorem forall₂_set (h : List.Forall₂ (Option.Rel R) l l') {a : Option α} {b : Option β}
    (hab : Option.Rel R a b) : List.Forall₂ (Option.Rel R) (l.set i a) (l'.set i b) := by
  induction h generalizing i with
  | nil => exact .nil
  | cons hhead htail ih =>
    cases i with
    | zero => exact .cons hab htail
    | succ i => exact .cons hhead ih

end Related

variable {N : ℕ} {k k' : Kernel} {env : Environment} {vectors : List (List ℕ)}
  {vars : List (Bvec (Fin N))} {roots : List (Option ℕ)} {objects : List (Option (Bdd (Fin N)))}
  {i m n : ℕ} {a b : Bdd (Fin N)}

/-- The references of all vectors and objects. -/
def ownership (vectors : List (List ℕ)) (roots : List (Option ℕ)) : ℕ → ℕ :=
  bitReferences vectors.flatten + references roots

theorem ownership_append :
    ownership vectors (roots ++ [some n]) = ownership vectors roots + Pi.single n 1 := by
  rw [ownership, references_append, ← add_assoc, ownership]

theorem ownership_set_none (h : roots.getD i none = some m) :
    ownership vectors roots = ownership vectors (roots.set i none) + Pi.single m 1 := by
  rw [ownership, references_set_none h, ← add_assoc, ownership]

theorem ownership_set_some (h : roots.getD i none = some m) : ownership vectors
    (roots.set i (some n)) = ownership vectors (roots.set i none) + Pi.single n 1 := by
  rw [ownership_set_none (getD_set_self h), List.set_set]

theorem ownership_pos (h : roots.getD i none = some n) : 0 < ownership vectors roots n := by
  rw [ownership_set_none h]
  exact pos_single _ n

theorem ownership_pos_vector {v : List ℕ} (hv : v ∈ vectors) (hn : n ∈ v) :
    0 < ownership vectors roots n :=
  pos_add (List.count_pos_iff.mpr (List.mem_flatten_of_mem hv hn)) _

/-- The objects stand for diagrams. -/
def Related (k : Kernel) : List (Option ℕ) → List (Option (Bdd (Fin N))) → Prop :=
  List.Forall₂ (Option.Rel fun n a => Denotes k.nodes n a.tree)

/-- What spares the references keeps the objects. -/
theorem Related.spared (h : Related k roots objects)
    (hspares : Spares N (ownership vectors roots) k k') : Related k' roots objects := by
  have hpos : ∀ root ∈ roots, ∀ n, root = some n → 0 < ownership vectors roots n := by
    rintro _ hmem n rfl
    exact Nat.add_pos_right _ (List.count_pos_iff.mpr hmem)
  refine ((List.forall₂_and_left _ _).mpr ⟨hpos, h⟩).imp ?_
  rintro _ _ ⟨hpos, hrel⟩
  cases hrel with
  | some hden => exact .some (hspares.denotes (hpos _ rfl) hden)
  | none => exact .none

/-- **The vectors and objects own one reference each, to the nodes of their diagrams.** -/
structure Represents (vars : List (Bvec (Fin N))) (vectors : List (List ℕ)) (k : Kernel)
    (roots : List (Option ℕ)) (objects : List (Option (Bdd (Fin N)))) : Prop
    extends Owned N (ownership vectors roots) k where
  vectors : List.Forall₂ (Bits N k) vectors vars
  related : Related k roots objects

namespace Represents

/-- An object has a diagram, whose node is live. -/
theorem object (h : Represents vars vectors k roots objects) (hn : roots.getD i none = some n) :
    ∃ a, objects.getD i none = some a ∧ Held k n a.tree := by
  have hrel := forall₂_getD h.related i
  rw [hn] at hrel
  generalize ha : objects.getD i none = object at hrel
  cases hrel with
  | some hden => exact ⟨_, rfl, h.held (ownership_pos hn) hden⟩

theorem object_none (h : Represents vars vectors k roots objects)
    (hn : roots.getD i none = none) : objects.getD i none = none := by
  have hrel := forall₂_getD h.related i
  rw [hn] at hrel
  generalize objects.getD i none = object at hrel
  cases hrel
  rfl

/-- What spares the references keeps the vectors. -/
theorem vectors_spared (h : Represents vars vectors k roots objects)
    (hspares : Spares N (ownership vectors roots) k k') :
    List.Forall₂ (Bits N k') vectors vars := by
  have hpos : ∀ v ∈ vectors, ∀ n ∈ v, 0 < ownership vectors roots n :=
    fun v hv n hn => ownership_pos_vector hv hn
  refine ((List.forall₂_and_left _ _).mpr ⟨hpos, h.vectors⟩).imp ?_
  rintro v bits ⟨hpos, hbits⟩
  exact hbits.spared hspares hpos

/-- A change of the objects, with the references that it needs. -/
theorem change (h : Represents vars vectors k roots objects)
    (hspares : Spares N (ownership vectors roots) k k') {roots' : List (Option ℕ)}
    {objects' : List (Option (Bdd (Fin N)))} (howned : Owned N (ownership vectors roots') k')
    (hrelated : Related k' roots objects → Related k' roots' objects') :
    Represents vars vectors k' roots' objects' :=
  ⟨howned, h.vectors_spared hspares, hrelated (h.related.spared hspares)⟩

/-- What operations keep is kept. -/
theorem kept (h : Represents vars vectors k roots objects) (hk' : Idle N k')
    (hkept : Kept k k') : Represents vars vectors k' roots objects := by
  obtain ⟨howned, hspares⟩ := h.toOwned.kept hk' hkept
  exact h.change hspares howned id

end Represents

/-! ### The operations -/

/-- What a part of a program leaves: objects for the diagrams, and full counters as they were. -/
structure Leaves (vars : List (Bvec (Fin N))) (vectors : List (List ℕ)) (k : Kernel)
    (objects : List (Option (Bdd (Fin N)))) (roots : List (Option ℕ)) (k' : Kernel) : Prop
    extends Represents vars vectors k' roots objects where
  spares : Spares N 0 k k'

theorem Leaves.trans {k'' : Kernel} (h : Leaves vars vectors k' objects roots k'')
    (hspares : Spares N 0 k k') : Leaves vars vectors k objects roots k'' :=
  ⟨h.toRepresents, hspares.trans h.spares⟩

section Operations

variable {E : BddError → Kernel → Prop}

/-- **A constructor.** -/
theorem wp_bddConstruct (h : Represents vars vectors k roots objects)
    (hn : Denotes k.nodes n a.tree) :
    Wp (bddConstruct roots n) (Leaves vars vectors k (objects ++ [some a])) E k := by
  rw [bddConstruct, wp_bind]
  refine (wp_bddAddref h.toOwned hn).imp ?_
  intro _ k' ⟨_, howned, hsame⟩
  refine ⟨h.change hsame.spares (ownership_append ▸ howned) fun hrelated => ?_, hsame.spares⟩
  exact List.rel_append hrelated (.cons (.some (hsame.denotes hn)) .nil)

/-- The destructor. -/
theorem wp_destroy (h : Represents vars vectors k roots objects)
    (hn : roots.getD i none = some n) :
    Wp (bddDelref n) (fun _ k' => Represents vars vectors k' (roots.set i none)
      (objects.set i none) ∧ Recounted k k') E k := by
  obtain ⟨a, -, hheld⟩ := h.object hn
  refine (wp_bddDelref (ownership_set_none hn ▸ h.toOwned) hheld.denotes).imp ?_
  intro _ k' ⟨_, howned, hsame⟩
  exact ⟨h.change hsame.spares howned fun hrelated => forall₂_set hrelated .none, hsame⟩

/-- **The assignment.**  The old reference is given back before the new one is taken, unless the
two roots are equal. -/
theorem wp_bddAssign (h : Represents vars vectors k roots objects)
    (hm : roots.getD i none = some m) (hn : Denotes k.nodes n a.tree) :
    Wp (bddAssign roots i m n) (Leaves vars vectors k (objects.set i (some a))) E k := by
  have hset : ownership vectors (roots.set i (some n)) =
      ownership vectors (roots.set i none) + Pi.single n 1 := ownership_set_some hm
  rw [bddAssign, wp_bind]
  refine Wp.imp
    (Q := fun _ => Leaves vars vectors k (objects.set i (some a)) (roots.set i (some n)))
    (wp_ite (fun _ => ?_) fun heq => ?_) ?_
  · -- another root: the old reference is given back, the new one is taken
    rw [wp_bind]
    refine (wp_destroy h hm).imp ?_
    intro _ k₁ ⟨h₁, hsame₁⟩
    have hn₁ := hsame₁.denotes hn
    rw [wp_bind]
    refine (wp_bddAddref h₁.toOwned hn₁).imp ?_
    intro _ k₂ ⟨_, howned, hsame₂⟩
    refine ⟨h₁.change hsame₂.spares (hset ▸ howned) fun hrelated => ?_,
      (hsame₁.trans hsame₂).spares⟩
    have hrelated := forall₂_set hrelated (i := i) (.some (hsame₂.denotes hn₁))
    rwa [List.set_set, List.set_set] at hrelated
  · -- equal roots stand for equal diagrams
    obtain rfl : m = n := not_not.mp heq
    refine ⟨⟨?_, h.vectors, forall₂_set h.related (.some hn)⟩, .refl _ k⟩
    rw [hset, ← ownership_set_none hm]
    exact h.toOwned
  · -- the reference that the operator holds meanwhile
    intro _ k₁ h₁
    obtain ⟨a', -, hheld⟩ := h₁.object (getD_set_self hm)
    rw [wp_bind]
    refine (wp_bddAddref h₁.toOwned hheld.denotes).imp ?_
    intro _ k₂ ⟨_, h₂, hsame₂⟩
    rw [wp_bind]
    refine (wp_bddDelref h₂ (hsame₂.denotes hheld.denotes)).imp ?_
    intro _ k₃ ⟨_, h₃, hsame₃⟩
    have hsame := hsame₂.trans hsame₃
    exact ⟨h₁.change hsame.spares h₃ id, h₁.spares.trans hsame.spares⟩

end Operations

/-! ### Programs -/

/-- What an operation leaves: the objects and the answer of its meaning. -/
def Answers (vars : List (Bvec (Fin N))) (vectors : List (List ℕ)) (k : Kernel)
    (meaning : List (Option (Bdd (Fin N))) × Option Bool) (res : List (Option ℕ) × Option Bool)
    (k' : Kernel) : Prop :=
  res.2 = meaning.2 ∧ Leaves vars vectors k meaning.1 res.1 k'

section Programs

variable {f : ℕ → KernelM Kernel (List (Option ℕ) × Option Bool)}
  {g : Bdd (Fin N) → List (Option (Bdd (Fin N))) × Option Bool}

/-- An operation on an object that may be destroyed. -/
theorem wp_withObject (h : Represents vars vectors k roots objects)
    (hf : ∀ n a, roots.getD i none = some n → Held k n a.tree →
      Wp (f n) (Answers vars vectors k (g a)) Stops k) :
    Wp (withObject roots i (pure (roots, none)) f)
      (Answers vars vectors k (withObject objects i (objects, none) g)) Stops k := by
  cases hi : roots.getD i none with
  | none =>
    rw [withObject, withObject, hi, h.object_none hi]
    exact ⟨rfl, h, .refl _ k⟩
  | some n =>
    obtain ⟨a, ha, hheld⟩ := h.object hi
    rw [withObject, withObject, hi, ha]
    exact hf n a hi hheld

/-- A new object for the result of an operation. -/
theorem wp_newObject (h : Represents vars vectors k roots objects) {p : KernelM Kernel ℕ}
    (hp : Wp p (fun n k' => Idle N k' ∧ Kept k k' ∧ Denotes k'.nodes n a.tree) Stops k) :
    Wp (do return (← bddConstruct roots (← p), none))
      (Answers vars vectors k (objects ++ [some a], none)) Stops k := by
  rw [wp_bind]
  refine hp.imp ?_
  intro n k₁ ⟨hidle, hkept, hden⟩
  have hspares := (h.toOwned.kept hidle hkept).2
  rw [wp_bind]
  refine (wp_bddConstruct (h.kept hidle hkept) hden).imp ?_
  intro roots' k₂ h₂
  exact ⟨rfl, h₂.trans (hspares.mono zero_le)⟩

/-- A new object for a node that is there. -/
theorem wp_newRoot (h : Represents vars vectors k roots objects) (hn : Denotes k.nodes n a.tree) :
    Wp (do return (← bddConstruct roots n, none))
      (Answers vars vectors k (objects ++ [some a], none)) Stops k :=
  wp_newObject (p := pure n) h ⟨h.toIdle, .refl k, hn⟩

/-- **An operation on objects refines the operation on diagrams.**  The roots that are left have
the references of their objects, so no collection removes what an object stands for. -/
theorem wp_run (h : Represents vars vectors k roots objects) (command : Command env vars) :
    Wp (command.run vectors roots) (Answers vars vectors k (command.meaning objects)) Stops k := by
  cases command with
  | create => exact wp_newRoot (a := bddFalse) h .zero
  | constant b =>
    refine wp_newRoot h ?_
    cases b
    · exact .zero
    · exact .one
  | ithvar v =>
    exact wp_newObject h (h.wp_bddIthvar v fun n hn => ⟨h.toIdle, .refl k, hn.denotes⟩)
  | copy i => exact wp_withObject h fun n a _ hn => wp_newRoot h hn.denotes
  | apply op i j =>
    refine wp_withObject h fun m a _ hm => wp_withObject h fun n b _ hn => ?_
    exact wp_newObject h (wp_bddApply op.2 h.toIdle hm hn)
  | not i => exact wp_withObject h fun n a _ hn => wp_newObject h (wp_bddNot h.toIdle hn)
  | assign i j =>
    refine wp_withObject h fun m a hi _ => wp_withObject h fun n b _ hn => ?_
    rw [wp_bind]
    exact (wp_bddAssign h hi hn.denotes).imp fun _ _ h' => ⟨rfl, h'⟩
  | destroy i =>
    refine wp_withObject h fun n a hi _ => ?_
    rw [wp_bind]
    exact (wp_destroy h hi).imp fun _ _ h' => ⟨rfl, h'.1, h'.2.spares⟩
  | equal i j =>
    refine wp_withObject h fun m a _ hm => wp_withObject h fun n b _ hn => ?_
    have hequal : (n == m) = decide (a = b) := by
      -- a diagram has one node
      rw [Bool.eq_iff_iff, beq_iff_eq, decide_eq_true_iff]
      constructor
      · rintro rfl
        exact Bdd.ext (hm.denotes.det hn.denotes)
      · rintro rfl
        exact h.toTabular.injective hn.denotes hm.denotes
    exact ⟨congrArg some hequal, h, .refl _ k⟩
  | build builder =>
    refine wp_bind.mpr ?_
    refine (builder.spec _ k vectors h.toOwned (fun v hv n hn => ownership_pos_vector hv hn)
      h.vectors).imp ?_
    intro n k' ⟨howned, hspares, hden⟩
    refine ⟨rfl, h.change hspares (ownership_append ▸ howned) fun hrelated => ?_,
      hspares.mono zero_le⟩
    exact List.rel_append hrelated (.cons (.some hden) .nil)
  | gbc =>
    refine wp_bind.mpr ?_
    refine (wp_bddGbc_idle h.toIdle).imp ?_
    intro _ k' ⟨hidle, hkept, _⟩
    exact ⟨rfl, h.kept hidle hkept, (h.toOwned.kept hidle hkept).2.mono zero_le⟩

/-- **A program on objects refines the program on diagrams.** -/
theorem wp_session (session : Session env vars) (h : Represents vars vectors k roots objects) :
    Wp (session.run vectors roots) (fun res k' => res.2 = (session.meaning objects).2 ∧
      Leaves vars vectors k (session.meaning objects).1 res.1 k') Stops k := by
  induction session generalizing k roots objects with
  | stop => exact ⟨rfl, h, .refl _ k⟩
  | step command next ih =>
    rw [Session.run, wp_bind]
    refine (wp_run h command).imp ?_
    rintro ⟨roots₁, answer⟩ k₁ ⟨rfl, h₁⟩
    rw [wp_bind]
    refine (ih _ h₁.toRepresents).imp ?_
    rintro ⟨roots₂, answers⟩ k₂ ⟨rfl, h₂⟩
    exact ⟨rfl, h₂.trans h₁.spares⟩

/-- No objects. -/
theorem represents_nil (hk : Owned N (bitReferences vectors.flatten) k)
    (hvectors : List.Forall₂ (Bits N k) vectors vars) : Represents vars vectors k [] [] :=
  ⟨hk, hvectors, .nil⟩

end Programs

end RulesAnalyzer.Buddy
