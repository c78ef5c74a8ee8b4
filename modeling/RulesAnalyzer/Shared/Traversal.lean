import RulesAnalyzer.Shared.Hierarchy
import Mathlib.Data.List.Nodup
import Mathlib.Data.List.Range

/-!
# Traversals of shared groups

A recursive operation goes through the members of a group in order and calls itself
on the groups among them.  It runs down to some depth, and has no result when it gets
deeper.  In a heap without cycles no path is longer than the heap, so the number of
groups is a depth that is enough.

## Main definitions

* `foldTo`, `visitTo` — operations that combine the results of groups, and operations that carry
  a value through all groups.
* `Closed` — all groups that are referred to exist.
* `DepthFirst` — the items below members, in the order of the visits.

## Main results

* `foldTo_map`, `visitTo_eq` — two operations at once, and a visit as a fold over the visits.
* `foldTo_frame` — an operation only sees the groups below.
* `Acyclic.exists_foldTo` — **operations end in a heap without cycles.**
-/

namespace RulesAnalyzer.Shared

variable {κ T β γ : Type}

/-! ### Operations of some depth -/

section FoldTo

variable (empty : κ → β) (addItem : β → T → β) (addGroup : β → β → β)

/-- One member; `sub` is the result of a group. -/
def foldStep (sub : ℕ → Option β) (acc : β) : Member T → Option β
  | .item item => some (addItem acc item)
  | .group id => (sub id).map (addGroup acc)

/-- The result of a group, from those of its members. -/
def foldTo (heap : Heap κ T) : ℕ → ℕ → Option β
  | 0, _ => none
  | depth + 1, id => heap[id]?.bind fun cell =>
    cell.members.foldlM (foldStep addItem addGroup (foldTo heap depth)) (empty cell.name)

end FoldTo

/-- One member; `sub` carries the value through a group. -/
def visitStep (visit : β → T → β) (sub : β → ℕ → Option β) (acc : β) : Member T → Option β
  | .item item => some (visit acc item)
  | .group id => sub acc id

/-- A value that is carried through all groups. -/
def visitTo (visit : β → T → β) (heap : Heap κ T) : ℕ → β → ℕ → Option β
  | 0, _, _ => none
  | depth + 1, acc, id => heap[id]?.bind fun cell =>
    cell.members.foldlM (visitStep visit (visitTo visit heap depth)) acc

section Laws

variable {empty : κ → β} {addItem : β → T → β} {addGroup : β → β → β} {heap heap' : Heap κ T}

/-- **The image of a result is the result of the operation on the images.**  It is enough that
the three operations commute with the map. -/
theorem foldTo_map {empty' : κ → γ} {addItem' : γ → T → γ} {addGroup' : γ → γ → γ} (f : β → γ)
    (hempty : ∀ name, f (empty name) = empty' name)
    (hitem : ∀ acc item, f (addItem acc item) = addItem' (f acc) item)
    (hgroup : ∀ acc sub, f (addGroup acc sub) = addGroup' (f acc) (f sub)) (depth id : ℕ) :
    (foldTo empty addItem addGroup heap depth id).map f =
      foldTo empty' addItem' addGroup' heap depth id := by
  induction depth generalizing id with
  | zero => rfl
  | succ depth ih =>
    -- the image of the loop over the members of one group
    have hmembers : ∀ (members : List (Member T)) (acc : β),
        (members.foldlM (foldStep addItem addGroup (foldTo empty addItem addGroup heap depth))
          acc).map f =
        members.foldlM (foldStep addItem' addGroup' (foldTo empty' addItem' addGroup' heap depth))
          (f acc) := by
      intro members
      induction members with
      | nil => exact fun _ => rfl
      | cons member members ihm =>
        intro acc
        rw [List.foldlM_cons, List.foldlM_cons]
        cases member with
        | item item =>
          rw [foldStep, foldStep, ← hitem]
          exact ihm (addItem acc item)
        | group sub =>
          rw [foldStep, foldStep, ← ih sub]
          rcases foldTo empty addItem addGroup heap depth sub with _ | value
          · rfl
          · rw [Option.map_some, Option.map_some, Option.map_some, ← hgroup]
            exact ihm (addGroup acc value)
    rw [foldTo, foldTo]
    rcases heap[id]? with _ | cell
    · rfl
    · rw [Option.bind_some, Option.bind_some, hmembers, hempty]

/-- **A value carried through the groups is the fold over the visited items.**  Both descend in
the same way, so the members of one group are compared from any value on. -/
theorem visitTo_eq (visit : β → T → β) (depth : ℕ) (acc : β) (id : ℕ) :
    visitTo visit heap depth acc id =
      (foldTo (fun _ => []) (fun visits item => visits ++ [item]) (· ++ ·) heap depth id).map
        fun visits => visits.foldl visit acc := by
  induction depth generalizing acc id with
  | zero => rfl
  | succ depth ih =>
    -- the same for the members of one group, from any value on
    have hmembers : ∀ (members : List (Member T)) (visits : List T),
        members.foldlM (visitStep visit (visitTo visit heap depth)) (visits.foldl visit acc) =
          (members.foldlM (foldStep (fun visits item => visits ++ [item]) (· ++ ·)
            (foldTo (fun _ => []) (fun visits item => visits ++ [item]) (· ++ ·) heap depth))
            visits).map fun visits => visits.foldl visit acc := by
      intro members
      induction members with
      | nil => exact fun _ => rfl
      | cons member members ihm =>
        intro visits
        rw [List.foldlM_cons, List.foldlM_cons]
        cases member with
        | item item =>
          have hnext := ihm (visits ++ [item])
          rw [List.foldl_append] at hnext
          exact hnext
        | group sub =>
          rw [visitStep, foldStep, ih]
          rcases foldTo (fun _ => []) (fun visits item => visits ++ [item]) (· ++ ·) heap depth sub
            with _ | below
          · rfl
          · have hnext := ihm (visits ++ below)
            rw [List.foldl_append] at hnext
            exact hnext
    rw [visitTo, foldTo]
    rcases heap[id]? with _ | cell
    · rfl
    · exact hmembers cell.members []

/-- Groups that have the same results. -/
theorem foldlM_foldStep_mono {sub sub' : ℕ → Option β} {members : List (Member T)}
    (hsub : ∀ id, .group id ∈ members → ∀ value, sub id = some value → sub' id = some value)
    {acc result : β} (h : members.foldlM (foldStep addItem addGroup sub) acc = some result) :
    members.foldlM (foldStep addItem addGroup sub') acc = some result := by
  induction members generalizing acc with
  | nil => exact h
  | cons member members ih =>
    rw [List.foldlM_cons] at h ⊢
    obtain ⟨next, hnext, hrest⟩ := Option.bind_eq_some_iff.mp h
    have hnext' : foldStep addItem addGroup sub' acc member = some next := by
      cases member with
      | item item => exact hnext
      | group id =>
        obtain ⟨value, hvalue, rfl⟩ := Option.map_eq_some_iff.mp hnext
        rw [foldStep, hsub id List.mem_cons_self value hvalue, Option.map_some]
    rw [hnext']
    exact ih (fun id hid => hsub id (List.mem_cons_of_mem _ hid)) hrest

/-- **An operation only sees the groups below**: it has the same result in a heap that has them,
and at every greater depth. -/
theorem foldTo_frame {S : ℕ → Prop}
    (hagree : ∀ i cell, S i → heap[i]? = some cell → heap'[i]? = some cell)
    (hclosed : ∀ i cell, S i → heap[i]? = some cell → ∀ sub, .group sub ∈ cell.members → S sub)
    {depth depth' : ℕ} (hle : depth ≤ depth') {id : ℕ} (hid : S id) {result : β}
    (h : foldTo empty addItem addGroup heap depth id = some result) :
    foldTo empty addItem addGroup heap' depth' id = some result := by
  induction depth generalizing depth' id result with
  | zero => cases h
  | succ depth ih =>
    obtain ⟨depth', rfl⟩ : ∃ n, depth' = n + 1 :=
      Nat.exists_eq_succ_of_ne_zero (Nat.ne_zero_of_lt hle)
    rw [foldTo] at h ⊢
    obtain ⟨cell, hcell, hmembers⟩ := Option.bind_eq_some_iff.mp h
    rw [hagree id cell hid hcell, Option.bind_some]
    refine foldlM_foldStep_mono (fun sub hsub value hvalue => ?_) hmembers
    exact ih (Nat.succ_le_succ_iff.mp hle) (hclosed id cell hid hcell sub hsub) hvalue

/-! ### Heaps without cycles -/

/-- All groups that are referred to exist. -/
def Closed (heap : Heap κ T) : Prop :=
  ∀ (id : ℕ) (cell : Cell κ T), heap[id]? = some cell → Below heap.length cell.members

/-- The groups on the way down to a group, all different. -/
structure Path (heap : Heap κ T) (visited : List ℕ) (id : ℕ) : Prop where
  nodup : visited.Nodup
  lt_length : ∀ v ∈ visited, v < heap.length
  leads : ∀ v ∈ visited, Relation.TransGen (HasMember heap) v id

theorem Path.nil (heap : Heap κ T) (id : ℕ) : Path heap [] id :=
  ⟨List.nodup_nil, fun _ h => absurd h List.not_mem_nil, fun _ h => absurd h List.not_mem_nil⟩

/-- One step further down. -/
theorem Path.cons {visited : List ℕ} {id sub : ℕ} (h : Path heap visited id)
    (hacyclic : Acyclic heap) (hid : id < heap.length) (hmember : HasMember heap id sub) :
    Path heap (id :: visited) sub where
  nodup := List.nodup_cons.mpr ⟨fun hmem => hacyclic id (h.leads id hmem), h.nodup⟩
  lt_length v hv := by
    rcases List.mem_cons.mp hv with rfl | hv
    · exact hid
    · exact h.lt_length v hv
  leads v hv := by
    rcases List.mem_cons.mp hv with rfl | hv
    · exact .single hmember
    · exact (h.leads v hv).tail hmember

/-- No path is longer than the heap. -/
theorem Path.length_lt {visited : List ℕ} {id : ℕ} (h : Path heap visited id)
    (hacyclic : Acyclic heap) (hid : id < heap.length) : visited.length < heap.length := by
  have hnodup : (id :: visited).Nodup :=
    List.nodup_cons.mpr ⟨fun hmem => hacyclic id (h.leads id hmem), h.nodup⟩
  have hsub : id :: visited ⊆ List.range heap.length := by
    intro v hv
    rcases List.mem_cons.mp hv with rfl | hv
    · exact List.mem_range.mpr hid
    · exact List.mem_range.mpr (h.lt_length v hv)
  have hle := hnodup.length_le_of_subset hsub
  rwa [List.length_range, List.length_cons] at hle

theorem exists_foldlM_foldStep {sub : ℕ → Option β} {members : List (Member T)}
    (hsub : ∀ id, .group id ∈ members → ∃ value, sub id = some value) (acc : β) :
    ∃ result, members.foldlM (foldStep addItem addGroup sub) acc = some result := by
  induction members generalizing acc with
  | nil => exact ⟨acc, rfl⟩
  | cons member members ih =>
    have hrest := ih fun id hid => hsub id (List.mem_cons_of_mem _ hid)
    rw [List.foldlM_cons]
    cases member with
    | item item => exact hrest (addItem acc item)
    | group id =>
      obtain ⟨value, hvalue⟩ := hsub id List.mem_cons_self
      rw [foldStep, hvalue]
      exact hrest (addGroup acc value)

variable (empty addItem addGroup)

/-- **Operations end in a heap without cycles**, no deeper than there are groups. -/
theorem Acyclic.exists_foldTo (hacyclic : Acyclic heap) (hclosed : Closed heap) {id : ℕ}
    (hid : id < heap.length) :
    ∃ result, foldTo empty addItem addGroup heap heap.length id = some result := by
  have hpath : ∀ (depth id : ℕ) (visited : List ℕ), Path heap visited id → id < heap.length →
      heap.length ≤ depth + visited.length →
        ∃ result, foldTo empty addItem addGroup heap depth id = some result := by
    intro depth
    induction depth with
    | zero =>
      intro id visited hpath hid hdepth
      have hlt := hpath.length_lt hacyclic hid
      omega
    | succ depth ih =>
      intro id visited hpath hid hdepth
      have hcell : heap[id]? = some heap[id] := List.getElem?_eq_getElem hid
      rw [foldTo, hcell, Option.bind_some]
      refine exists_foldlM_foldStep (fun sub hsub => ?_) _
      refine ih sub (id :: visited) (hpath.cons hacyclic hid ⟨_, hcell, hsub⟩)
        (hclosed id _ hcell sub hsub) ?_
      rw [List.length_cons]
      omega
  exact hpath heap.length id [] (.nil heap id) hid (Nat.le_add_right _ _)

end Laws

/-! ### The order of the visits -/

/-- The items below members, in the order of the visits: an item when it is met, and all items
below a group before the members after it. -/
inductive DepthFirst (heap : Heap κ T) : List (Member T) → List T → Prop
  | nil : DepthFirst heap [] []
  | item {item : T} {members : List (Member T)} {visits : List T}
      (hrest : DepthFirst heap members visits) :
      DepthFirst heap (.item item :: members) (item :: visits)
  | group {id : ℕ} {cell : Cell κ T} {members : List (Member T)} {below visits : List T}
      (hcell : heap[id]? = some cell) (hbelow : DepthFirst heap cell.members below)
      (hrest : DepthFirst heap members visits) :
      DepthFirst heap (.group id :: members) (below ++ visits)

/-- A visit meets the items in this order. -/
theorem depthFirst_foldTo {heap : Heap κ T} {depth id : ℕ} {visits : List T}
    (h : foldTo (fun _ => []) (fun visits item => visits ++ [item]) (· ++ ·) heap depth id =
      some visits) : ∃ cell, heap[id]? = some cell ∧ DepthFirst heap cell.members visits := by
  induction depth generalizing id visits with
  | zero => cases h
  | succ depth ih =>
    rw [foldTo] at h
    obtain ⟨cell, hcell, hmembers⟩ := Option.bind_eq_some_iff.mp h
    -- the members of one group, behind the visits so far
    have hvisits : ∀ (members : List (Member T)) (acc visits : List T),
        members.foldlM (foldStep (fun visits item => visits ++ [item]) (· ++ ·)
          (foldTo (fun _ => []) (fun visits item => visits ++ [item]) (· ++ ·) heap depth)) acc =
            some visits → ∃ rest, DepthFirst heap members rest ∧ visits = acc ++ rest := by
      intro members
      induction members with
      | nil =>
        intro acc visits h
        obtain rfl := Option.some.inj h
        exact ⟨[], .nil, (List.append_nil acc).symm⟩
      | cons member members ihm =>
        intro acc visits h
        rw [List.foldlM_cons] at h
        obtain ⟨next, hnext, hrest⟩ := Option.bind_eq_some_iff.mp h
        obtain ⟨rest, hdepth, rfl⟩ := ihm next visits hrest
        cases member with
        | item item =>
          obtain rfl := Option.some.inj hnext
          exact ⟨item :: rest, .item hdepth, by rw [List.append_assoc, List.singleton_append]⟩
        | group sub =>
          obtain ⟨below, hbelow, rfl⟩ := Option.map_eq_some_iff.mp hnext
          obtain ⟨subcell, hsubcell, hsub⟩ := ih hbelow
          exact ⟨below ++ rest, .group hsubcell hsub hdepth, List.append_assoc _ _ _⟩
    obtain ⟨rest, hdepth, rfl⟩ := hvisits cell.members [] visits hmembers
    exact ⟨cell, hcell, hdepth⟩

end RulesAnalyzer.Shared
