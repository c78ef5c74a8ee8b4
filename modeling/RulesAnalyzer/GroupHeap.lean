import RulesAnalyzer.Application
import RulesAnalyzer.Group
import RulesAnalyzer.Shared.Traversal
import Mathlib.Data.Finset.Insert
import Mathlib.Data.List.Induction

/-!
# Groups as shared objects

A group refers to its sub-groups by pointers, so that groups share sub-groups and may
refer to one another in a circle.  Here the groups live in a heap, and the recursive
operations follow the pointers.  When the heap has no cycle, a group stands for a
hierarchy of values, and the operations compute what they compute on that.

## Main definitions

* `GroupNode`, `GroupNode.addItem`, `GroupNode.addGroup` — a group with the sets of its members.
* `GroupHeap`, `GroupCall`, `GroupHeap.build` — the groups that a sequence of calls builds.
* `GroupHeap.contains`, `GroupHeap.items`, `GroupHeap.makeBdd`, `GroupHeap.clone` — the
  operations of a group.
* `GroupHeap.tree` — the hierarchy a group stands for.
* `GroupHeap.Lawful` — what the operations have to do with each other.

## Main results

* `GroupHeap.makeBdd_eq`, `GroupHeap.items_eq`, `GroupHeap.contains_eq` — the operations on the
  hierarchy.
* `GroupHeap.copied_clone` — a copy stands for the same hierarchy.
* `GroupHeap.lawful_build` — **the laws of groups.**
-/

namespace RulesAnalyzer

open Diagram Shared

/-! ### First occurrences -/

section FirstOccurrences

variable {T : Type} [DecidableEq T]

/-- The items are those of a list, each once, in the order in which they first occur there. -/
structure FirstOccurrences (l items : List T) : Prop where
  nodup : items.Nodup
  mem_iff : ∀ t, t ∈ items ↔ t ∈ l
  order : ∀ a ∈ items, ∀ b ∈ items, items.idxOf a < items.idxOf b ↔ l.idxOf a < l.idxOf b

/-- An item that occurs before changes nothing. -/
theorem FirstOccurrences.append_of_mem {l items : List T} (h : FirstOccurrences l items) {item : T}
    (hitem : item ∈ items) : FirstOccurrences (l ++ [item]) items where
  nodup := h.nodup
  mem_iff t := by
    rw [h.mem_iff, List.mem_append, List.mem_singleton]
    refine (or_iff_left_of_imp ?_).symm
    rintro rfl
    exact (h.mem_iff t).mp hitem
  order a ha b hb := by
    rw [h.order a ha b hb, List.idxOf_append_of_mem ((h.mem_iff a).mp ha),
      List.idxOf_append_of_mem ((h.mem_iff b).mp hb)]

/-- A new item comes last.  The places of the others are the same in the longer lists. -/
theorem FirstOccurrences.append {l items : List T} (h : FirstOccurrences l items) {item : T}
    (hitem : item ∉ items) : FirstOccurrences (l ++ [item]) (items ++ [item]) where
  nodup := List.nodup_append_comm.mp (List.nodup_cons.mpr ⟨hitem, h.nodup⟩)
  mem_iff t := by rw [List.mem_append, List.mem_append, h.mem_iff]
  order a ha b hb := by
    have hitem' : item ∉ l := fun hmem => hitem ((h.mem_iff item).mpr hmem)
    have hself : (items ++ [item]).idxOf item = items.length := by
      rw [List.idxOf_append_of_notMem hitem, List.idxOf_cons_self, Nat.add_zero]
    have hself' : (l ++ [item]).idxOf item = l.length := by
      rw [List.idxOf_append_of_notMem hitem', List.idxOf_cons_self, Nat.add_zero]
    -- the places of the other items are the same in the longer lists
    have hold : ∀ t ∈ items, (items ++ [item]).idxOf t = items.idxOf t ∧
        (l ++ [item]).idxOf t = l.idxOf t ∧ items.idxOf t < items.length ∧
          l.idxOf t < l.length := by
      intro t ht
      have ht' := (h.mem_iff t).mp ht
      exact ⟨List.idxOf_append_of_mem ht, List.idxOf_append_of_mem ht',
        List.idxOf_lt_length_of_mem ht, List.idxOf_lt_length_of_mem ht'⟩
    rcases List.mem_append.mp ha with ha | ha
    · obtain ⟨haold, haold', halt, halt'⟩ := hold a ha
      rcases List.mem_append.mp hb with hb | hb
      · obtain ⟨hbold, hbold', -, -⟩ := hold b hb
        rw [haold, haold', hbold, hbold', h.order a ha b hb]
      · obtain rfl := List.mem_singleton.mp hb
        rw [haold, haold', hself, hself']
        exact iff_of_true halt halt'
    · obtain rfl := List.mem_singleton.mp ha
      rw [hself, hself']
      rcases List.mem_append.mp hb with hb | hb
      · obtain ⟨hbold, hbold', hblt, hblt'⟩ := hold b hb
        rw [hbold, hbold']
        exact iff_of_false (Nat.not_lt_of_lt hblt) (Nat.not_lt_of_lt hblt')
      · obtain rfl := List.mem_singleton.mp hb
        rw [hself, hself']
        exact iff_of_false (lt_irrefl _) (lt_irrefl _)

/-- **Unique items are listed in the order of their first occurrences.** -/
theorem firstOccurrences_foldl (l : List T) : FirstOccurrences l (l.foldl pushUnique []) := by
  induction l using List.reverseRecOn with
  | nil => exact ⟨List.nodup_nil, fun _ => Iff.rfl, fun _ _ _ _ => Iff.rfl⟩
  | append_singleton l item ih =>
    rw [List.foldl_append, List.foldl_cons, List.foldl_nil, pushUnique]
    split
    · next hitem => exact ih.append_of_mem hitem
    · next hitem => exact ih.append hitem

end FirstOccurrences

/-! ### The groups of a heap -/

/-- A group, with the sets of its direct members beside the list of them. -/
structure GroupNode (T : Type) [DecidableEq T] extends Cell String T where
  items : Finset T
  groups : Finset ℕ
  mem_items : ∀ t, t ∈ items ↔ .item t ∈ members
  mem_groups : ∀ id, id ∈ groups ↔ .group id ∈ members
  nodup : members.Nodup

section Node

variable {T : Type} [DecidableEq T]

namespace GroupNode

/-- A group without members. -/
def create (name : String) : GroupNode T where
  name := name
  members := []
  items := ∅
  groups := ∅
  mem_items _ := iff_of_false (Finset.notMem_empty _) List.not_mem_nil
  mem_groups _ := iff_of_false (Finset.notMem_empty _) List.not_mem_nil
  nodup := List.nodup_nil

/-- Adds an item, unless it is a direct member. -/
def addItem (node : GroupNode T) (item : T) : GroupNode T :=
  if h : item ∈ node.items then node
  else {
    name := node.name
    members := node.members ++ [.item item]
    items := insert item node.items
    groups := node.groups
    mem_items := fun t => by
      rw [Finset.mem_insert, node.mem_items, List.mem_append, List.mem_singleton,
        Member.item.injEq, or_comm]
    mem_groups := fun id => by
      rw [node.mem_groups, List.mem_append, List.mem_singleton]
      exact (or_iff_left nofun).symm
    nodup := List.nodup_append_comm.mp
      (List.nodup_cons.mpr ⟨fun hmem => h ((node.mem_items item).mpr hmem), node.nodup⟩) }

/-- Adds a sub-group, unless it is a direct member. -/
def addGroup (node : GroupNode T) (group : ℕ) : GroupNode T :=
  if h : group ∈ node.groups then node
  else {
    name := node.name
    members := node.members ++ [.group group]
    items := node.items
    groups := insert group node.groups
    mem_items := fun t => by
      rw [node.mem_items, List.mem_append, List.mem_singleton]
      exact (or_iff_left nofun).symm
    mem_groups := fun id => by
      rw [Finset.mem_insert, node.mem_groups, List.mem_append, List.mem_singleton,
        Member.group.injEq, or_comm]
    nodup := List.nodup_append_comm.mp
      (List.nodup_cons.mpr ⟨fun hmem => h ((node.mem_groups group).mpr hmem), node.nodup⟩) }

theorem name_addItem (node : GroupNode T) (item : T) : (node.addItem item).name = node.name := by
  unfold addItem
  split <;> rfl

theorem name_addGroup (node : GroupNode T) (group : ℕ) :
    (node.addGroup group).name = node.name := by
  unfold addGroup
  split <;> rfl

theorem members_addItem {node : GroupNode T} {item : T} (h : .item item ∉ node.members) :
    (node.addItem item).members = node.members ++ [.item item] := by
  rw [addItem, dif_neg fun hmem => h ((node.mem_items item).mp hmem)]

theorem members_addGroup {node : GroupNode T} {group : ℕ} (h : .group group ∉ node.members) :
    (node.addGroup group).members = node.members ++ [.group group] := by
  rw [addGroup, dif_neg fun hmem => h ((node.mem_groups group).mp hmem)]

theorem mem_members_addItem {node : GroupNode T} {item : T} {id : ℕ}
    (h : .group id ∈ (node.addItem item).members) : .group id ∈ node.members := by
  rw [← GroupNode.mem_groups] at h ⊢
  unfold addItem at h
  split at h <;> exact h

theorem mem_members_addGroup {node : GroupNode T} {group id : ℕ}
    (h : .group id ∈ (node.addGroup group).members) : .group id ∈ node.members ∨ id = group := by
  rw [← GroupNode.mem_groups] at h ⊢
  unfold addGroup at h
  split at h
  · exact Or.inl h
  · exact (Finset.mem_insert.mp h).symm

end GroupNode

/-- The groups that exist, each at its address. -/
abbrev GroupHeap (T : Type) [DecidableEq T] := List (GroupNode T)

/-- The calls that make groups and add members to them. -/
inductive GroupCall (T : Type)
  | newGroup (name : String)
  | newGroupOf (name : String) (item : T)
  | addItem (group : ℕ) (item : T)
  | addGroup (group member : ℕ)

namespace GroupHeap

/-- The groups without the sets of their members. -/
def cells (heap : GroupHeap T) : Heap String T := heap.map GroupNode.toCell

/-- The groups after a call.  Only groups that exist can be added to a group. -/
def after (heap : GroupHeap T) : GroupCall T → GroupHeap T
  | .newGroup name => heap ++ [.create name]
  | .newGroupOf name item => heap ++ [(GroupNode.create name).addItem item]
  | .addItem group item => heap.modify group (GroupNode.addItem · item)
  | .addGroup group member =>
    if member < heap.length then heap.modify group (GroupNode.addGroup · member) else heap

/-- The groups that a sequence of calls builds. -/
def build (calls : List (GroupCall T)) : GroupHeap T := calls.foldl after []

theorem cells_getElem? (heap : GroupHeap T) (id : ℕ) :
    heap.cells[id]? = heap[id]?.map GroupNode.toCell := List.getElem?_map ..

theorem length_cells (heap : GroupHeap T) : heap.cells.length = heap.length := List.length_map ..

/-! ### The operations -/

variable [Mnode T] (heap : GroupHeap T)

/-- Calls the callback for all items, in order. -/
def parse {β : Type} (callback : β → T → β) (acc : β) (id : ℕ) : Option β :=
  visitTo callback heap.cells heap.length acc id

/-- The callback of `items`: the items so far, and the set of them. -/
def collect (items : List T × Finset T) (item : T) : List T × Finset T :=
  if item ∈ items.2 then items else (items.1 ++ [item], insert item items.2)

/-- All unique items of a group and its sub-groups. -/
def items (id : ℕ) : Option (List T) := (heap.parse collect ([], ∅) id).map Prod.fst

/-- The diagram of a group. -/
def makeBdd (id : ℕ) : Option ModelBdd :=
  foldTo (fun _ => bddFalse) (fun condition item => bddOr condition (Mnode.makeBdd item)) bddOr
    heap.cells heap.length id

/-- The loop over the members; it stops when the item is found. -/
def containsIn (sub : ℕ → Option Bool) : List (Member T) → Option Bool
  | [] => some false
  | .item _ :: members => containsIn sub members
  | .group id :: members => (sub id).bind fun found =>
    if found then some true else containsIn sub members

/-- The item is a member of a group or of a sub-group, down to some depth. -/
def containsTo (item : T) : ℕ → ℕ → Option Bool
  | 0, _ => none
  | depth + 1, id => heap[id]?.bind fun node =>
    if item ∈ node.items then some true else containsIn (containsTo item depth) node.members

/-- The item is a member of a group or of a sub-group. -/
def contains (item : T) (id : ℕ) : Option Bool := heap.containsTo item heap.length id

omit [Mnode T] in
variable (T) in
/-- Copies the members of another group to a group; sub-groups are copied, too. -/
def assign (clone : ℕ → GroupHeap T → Option (ℕ × GroupHeap T)) (target : ℕ) :
    List (Member T) → GroupHeap T → Option (GroupHeap T)
  | [], heap => some heap
  | .item item :: members, heap =>
    assign clone target members (heap.modify target (GroupNode.addItem · item))
  | .group id :: members, heap => (clone id heap).bind fun copy =>
    assign clone target members (copy.2.modify target (GroupNode.addGroup · copy.1))

/-- A copy of a group and of its sub-groups, down to some depth. -/
def cloneTo : ℕ → ℕ → GroupHeap T → Option (ℕ × GroupHeap T)
  | 0, _, _ => none
  | depth + 1, id, heap => heap[id]?.bind fun node =>
    (assign T (cloneTo depth) heap.length node.members (heap ++ [.create node.name])).map
      fun heap' => (heap.length, heap')

/-- A copy of a group and of its sub-groups. -/
def clone (id : ℕ) : Option (ℕ × GroupHeap T) := cloneTo heap.length id heap

/-- The hierarchy a group stands for, down to some depth. -/
def tree (depth id : ℕ) : Option (Group T) :=
  foldTo Group.empty Group.addItem Group.addGroup heap.cells depth id

/-! ### The operations on the hierarchy -/

variable {heap} {depth id : ℕ} {group : Group T}

/-- An operation computes what it computes on the hierarchy. -/
theorem foldTo_eq {β : Type} {empty : String → β} {addItem : β → T → β} {addGroup : β → β → β}
    (f : Group T → β) (hempty : ∀ name, f (.empty name) = empty name)
    (hitem : ∀ group item, f (.addItem group item) = addItem (f group) item)
    (hgroup : ∀ group member, f (.addGroup group member) = addGroup (f group) (f member))
    (h : heap.tree depth id = some group) :
    foldTo empty addItem addGroup heap.cells depth id = some (f group) := by
  rw [← foldTo_map f hempty hitem hgroup]
  exact congrArg (Option.map f) h

/-- **The diagram of a group is that of the hierarchy.** -/
theorem makeBdd_eq (h : heap.tree heap.length id = some group) :
    heap.makeBdd id = some group.makeBdd :=
  foldTo_eq Group.makeBdd (fun _ => rfl) (fun _ _ => rfl) (fun _ _ => rfl) h

/-- The visited items are those of the hierarchy. -/
theorem visits_eq (h : heap.tree depth id = some group) :
    foldTo (fun _ => []) (fun visits item => visits ++ [item]) (· ++ ·) heap.cells depth id =
      some group.parse :=
  foldTo_eq Group.parse (fun _ => rfl) (fun _ _ => rfl) (fun _ _ => rfl) h

/-- **The callback is called for the items of the hierarchy.** -/
theorem parse_eq {β : Type} (callback : β → T → β) (acc : β)
    (h : heap.tree heap.length id = some group) :
    heap.parse callback acc id = some (group.parse.foldl callback acc) := by
  rw [parse, visitTo_eq, visits_eq h, Option.map_some]

omit [Mnode T] in
/-- The set keeps the items of the list. -/
theorem foldl_collect (l : List T) {items : List T × Finset T}
    (h : ∀ t, t ∈ items.2 ↔ t ∈ items.1) :
    (l.foldl collect items).1 = l.foldl pushUnique items.1 := by
  induction l generalizing items with
  | nil => rfl
  | cons item l ih =>
    rw [List.foldl_cons, List.foldl_cons, collect, pushUnique]
    by_cases hitem : item ∈ items.2
    · rw [if_pos hitem, if_pos ((h item).mp hitem)]
      exact ih h
    · rw [if_neg hitem, if_neg fun hmem => hitem ((h item).mpr hmem)]
      refine ih fun t => ?_
      rw [Finset.mem_insert, h t, List.mem_append, List.mem_singleton, or_comm]

/-- **The items of a group are those of the hierarchy.** -/
theorem items_eq (h : heap.tree heap.length id = some group) :
    heap.items id = some group.items := by
  rw [items, parse_eq collect _ h, Option.map_some, foldl_collect _ fun t => ?_]
  · rfl
  · exact iff_of_false (Finset.notMem_empty t) List.not_mem_nil

/-- The loop over the members finds the items below the groups among them.  It stops at the first
group that has the item. -/
theorem containsIn_eq {item : T} {sub : ℕ → Option Bool} {members : List (Member T)}
    (hsub : ∀ id, .group id ∈ members → ∀ value, heap.tree depth id = some value →
      sub id = some (decide (item ∈ value.parse))) {acc : Group T}
    (h : members.foldlM (foldStep Group.addItem Group.addGroup (heap.tree depth)) acc =
      some group) :
    ∃ found, containsIn sub members = some found ∧
      (item ∈ group.parse ↔ item ∈ acc.parse ∨ .item item ∈ members ∨ found = true) := by
  induction members generalizing acc with
  | nil =>
    obtain rfl := Option.some.inj h
    refine ⟨false, rfl, ?_⟩
    simp
  | cons member members ih =>
    rw [List.foldlM_cons] at h
    obtain ⟨next, hnext, hrest⟩ := Option.bind_eq_some_iff.mp h
    obtain ⟨found, hfound, hiff⟩ := ih (fun id hid => hsub id (List.mem_cons_of_mem _ hid)) hrest
    cases member with
    | item other =>
      obtain rfl := Option.some.inj hnext
      refine ⟨found, hfound, hiff.trans ?_⟩
      simp only [Group.parse, List.mem_append, List.mem_cons, List.not_mem_nil, or_false,
        Member.item.injEq, or_assoc]
    | group id =>
      obtain ⟨value, hvalue, rfl⟩ := Option.map_eq_some_iff.mp hnext
      rw [containsIn, hsub id List.mem_cons_self value hvalue, Option.bind_some]
      by_cases hitem : item ∈ value.parse
      · -- the loop stops here
        refine ⟨true, by rw [decide_eq_true hitem, if_pos rfl], ?_⟩
        refine iff_of_true (hiff.mpr (Or.inl ?_)) (Or.inr (Or.inr rfl))
        exact List.mem_append_right _ hitem
      · -- the group does not have it, and the loop goes on
        refine ⟨found, by rw [decide_eq_false hitem, if_neg Bool.false_ne_true, hfound], ?_⟩
        rw [hiff]
        simp only [Group.parse, List.mem_append, List.mem_cons, hitem, or_false, reduceCtorEq,
          false_or]

/-- A group contains the items of the hierarchy. -/
theorem containsTo_eq (item : T) (h : heap.tree depth id = some group) :
    heap.containsTo item depth id = some (decide (item ∈ group.parse)) := by
  induction depth generalizing id group with
  | zero => cases h
  | succ depth ih =>
    rw [tree, foldTo, cells_getElem?] at h
    obtain ⟨cell, hcell, hmembers⟩ := Option.bind_eq_some_iff.mp h
    obtain ⟨node, hnode, rfl⟩ := Option.map_eq_some_iff.mp hcell
    obtain ⟨found, hfound, hiff⟩ := containsIn_eq (fun sub _ value hvalue => ih hvalue) hmembers
    have hparse : item ∈ group.parse ↔ item ∈ node.items ∨ found = true := by
      rw [hiff, node.mem_items]
      exact or_iff_right List.not_mem_nil
    rw [containsTo, hnode, Option.bind_some]
    by_cases hitem : item ∈ node.items
    · rw [if_pos hitem, decide_eq_true (hparse.mpr (Or.inl hitem))]
    · rw [if_neg hitem, hfound]
      refine congrArg some ?_
      rw [Bool.eq_iff_iff, decide_eq_true_iff, hparse]
      exact (or_iff_right hitem).symm

/-- **A group contains what is among its items.** -/
theorem contains_eq (item : T) (h : heap.tree heap.length id = some group) :
    heap.contains item id = some (decide (item ∈ group.items)) := by
  rw [contains, containsTo_eq item h]
  simp only [Group.mem_items]

/-! ### Copies -/

section Copies

variable {heap' base : GroupHeap T} {depth' : ℕ}

omit [Mnode T] in
theorem getElem?_of_cells {i : ℕ} {cell : Cell String T} (h : heap.cells[i]? = some cell) :
    ∃ node, heap[i]? = some node ∧ node.toCell = cell := by
  rw [cells_getElem?] at h
  exact Option.map_eq_some_iff.mp h

/-- A group stands for the same in a larger heap. -/
theorem tree_extend
    (hext : ∀ (i : ℕ) (node : GroupNode T), heap[i]? = some node → heap'[i]? = some node)
    (hle : depth ≤ depth') (h : heap.tree depth id = some group) :
    heap'.tree depth' id = some group := by
  refine foldTo_frame (S := fun _ => True) (fun i cell _ hcell => ?_) (fun _ _ _ _ _ _ => trivial)
    hle trivial h
  obtain ⟨node, hnode, rfl⟩ := getElem?_of_cells hcell
  rw [cells_getElem?, hext i node hnode, Option.map_some]

/-- A group only refers to groups above the address, as do these. -/
def Above (heap : GroupHeap T) (address : ℕ) : Prop := ∀ i node, address ≤ i →
  heap[i]? = some node → ∀ sub, .group sub ∈ node.members → address < sub

/-- What is above an address does not see a change there. -/
theorem tree_modify {address : ℕ} (habove : heap.Above address) (f : GroupNode T → GroupNode T)
    (hid : address < id) (h : heap.tree depth id = some group) :
    GroupHeap.tree (heap.modify address f) depth id = some group := by
  refine foldTo_frame (S := fun i => address < i) (fun i cell hi hcell => ?_)
    (fun i cell hi hcell sub hsub => ?_) le_rfl hid h
  · obtain ⟨node, hnode, rfl⟩ := getElem?_of_cells hcell
    rw [cells_getElem?, List.getElem?_modify_ne f heap hi.ne, hnode, Option.map_some]
  · obtain ⟨node, hnode, rfl⟩ := getElem?_of_cells hcell
    exact habove i node hi.le hnode sub hsub

/-- The groups among members that stand for a hierarchy exist. -/
theorem lt_length_of_foldlM {members : List (Member T)} {acc : Group T}
    (h : members.foldlM (foldStep Group.addItem Group.addGroup (heap.tree depth)) acc =
      some group) : Below heap.length members := by
  intro id hid
  induction members generalizing acc with
  | nil => exact absurd hid List.not_mem_nil
  | cons member members ih =>
    rw [List.foldlM_cons] at h
    obtain ⟨next, hnext, hrest⟩ := Option.bind_eq_some_iff.mp h
    rcases List.mem_cons.mp hid with rfl | hid
    · obtain ⟨value, hvalue, -⟩ := Option.map_eq_some_iff.mp hnext
      cases depth with
      | zero => cases hvalue
      | succ depth =>
        rw [tree, foldTo] at hvalue
        obtain ⟨cell, hcell, -⟩ := Option.bind_eq_some_iff.mp hvalue
        obtain ⟨node, hnode, -⟩ := getElem?_of_cells hcell
        exact (List.getElem?_eq_some_iff.mp hnode).1
    · exact ih hrest hid

/-- The new heap has the old groups and a copy that stands for the hierarchy; the copy only
refers to other copies. -/
structure Copied (heap heap' : GroupHeap T) (depth : ℕ) (group : Group T) : Prop where
  length_lt : heap.length < heap'.length
  old : ∀ i < heap.length, heap'[i]? = heap[i]?
  above : heap'.Above heap.length
  tree : heap'.tree depth heap.length = some group

/-- A copy in the making: its members stand for what was copied so far. -/
structure Filling (base heap : GroupHeap T) (name : String) (depth : ℕ) (done : List (Member T))
    (acc : Group T) : Prop where
  length_lt : base.length < heap.length
  old : ∀ i < base.length, heap[i]? = base[i]?
  above : heap.Above base.length
  target : ∃ node, heap[base.length]? = some node ∧ node.name = name ∧
    (∀ t, .item t ∈ node.members → .item t ∈ done) ∧
    node.members.foldlM (foldStep Group.addItem Group.addGroup (heap.tree depth)) (.empty name) =
      some acc

/-- The new group, without members. -/
theorem filling_create (base : GroupHeap T) (name : String) (depth : ℕ) :
    Filling base (base ++ [.create name]) name depth [] (.empty name) where
  length_lt := by
    rw [List.length_append, List.length_singleton]
    exact Nat.lt_succ_self _
  old i hi := List.getElem?_append_left hi
  above i node hi hnode sub hsub := by
    rw [List.getElem?_append_right hi] at hnode
    obtain rfl := List.mem_singleton.mp (List.mem_of_getElem? hnode)
    exact absurd hsub List.not_mem_nil
  target := by
    refine ⟨.create name, ?_, rfl, fun t ht => absurd ht List.not_mem_nil, rfl⟩
    rw [List.getElem?_append_right le_rfl, Nat.sub_self]
    rfl

section Fill

variable {name : String} {done : List (Member T)} {acc : Group T}

/-- The members of a copy in the making stand for the same when the copy gets a member. -/
theorem foldlM_modify {address : ℕ} (habove : heap.Above address) (f : GroupNode T → GroupNode T)
    {members : List (Member T)} (hmembers : ∀ sub, .group sub ∈ members → address < sub)
    (h : members.foldlM (foldStep Group.addItem Group.addGroup (heap.tree depth)) acc =
      some group) :
    members.foldlM (foldStep Group.addItem Group.addGroup
      (GroupHeap.tree (heap.modify address f) depth)) acc = some group :=
  foldlM_foldStep_mono (fun sub hsub _ hvalue =>
    tree_modify habove f (hmembers sub hsub) hvalue) h

/-- An item is copied.  Only the group in the making changes, and no group that is read refers to
it. -/
theorem Filling.addItem (h : Filling base heap name depth done acc) {item : T}
    (hitem : .item item ∉ done) :
    Filling base (heap.modify base.length (GroupNode.addItem · item)) name depth
      (done ++ [.item item]) (acc.addItem item) := by
  obtain ⟨node, hnode, hname, hdone, hmembers⟩ := h.target
  have hnew : Member.item item ∉ node.members := fun hmem => hitem (hdone item hmem)
  refine { length_lt := ?length, old := ?old, above := ?above,
           target := ⟨node.addItem item, ?node, ?name, ?done, ?members⟩ }
  case length =>
    rw [List.length_modify]
    exact h.length_lt
  case old =>
    intro i hi
    rw [List.getElem?_modify_ne _ heap hi.ne', h.old i hi]
  case above =>
    -- only the group that is filled gets a member, and no sub-group
    intro i node' hi hnode' sub hsub
    rcases hi.eq_or_lt with rfl | hlt
    · rw [List.getElem?_modify_eq, hnode] at hnode'
      obtain rfl := Option.some.inj hnode'
      exact h.above _ node le_rfl hnode sub (GroupNode.mem_members_addItem hsub)
    · rw [List.getElem?_modify_ne _ heap hlt.ne] at hnode'
      exact h.above i node' hi hnode' sub hsub
  case node =>
    rw [List.getElem?_modify_eq, hnode]
    rfl
  case name => rw [GroupNode.name_addItem, hname]
  case done =>
    intro t ht
    rw [GroupNode.members_addItem hnew] at ht
    rcases List.mem_append.mp ht with ht | ht
    · exact List.mem_append_left _ (hdone t ht)
    · exact List.mem_append_right _ ht
  case members =>
    have hold := foldlM_modify h.above (GroupNode.addItem · item)
      (fun sub hsub => h.above _ node le_rfl hnode sub hsub) hmembers
    rw [GroupNode.members_addItem hnew, List.foldlM_append, hold]
    rfl

/-- A sub-group is copied.  Its copy lies behind all groups that were there, and the group in the
making gets it as one more member. -/
theorem Filling.addGroup (h : Filling base heap name depth done acc) (id : ℕ) {value : Group T}
    (hcopy : Copied heap heap' depth value) :
    Filling base (heap'.modify base.length (GroupNode.addGroup · heap.length)) name depth
      (done ++ [.group id]) (acc.addGroup value) := by
  obtain ⟨node, hnode, hname, hdone, hmembers⟩ := h.target
  -- the group in the making is as it was before the sub-group was copied
  have hnode' : heap'[base.length]? = some node := by rw [hcopy.old _ h.length_lt, hnode]
  have hnew : Member.group heap.length ∉ node.members := fun hmem =>
    lt_irrefl _ (lt_length_of_foldlM hmembers _ hmem)
  have hsubs : ∀ sub, .group sub ∈ node.members → base.length < sub :=
    fun sub hsub => h.above _ node le_rfl hnode sub hsub
  have habove : heap'.Above base.length := by
    intro i other hi hother sub hsub
    rcases lt_or_ge i heap.length with hlt | hge
    · rw [hcopy.old i hlt] at hother
      exact h.above i other hi hother sub hsub
    · exact h.length_lt.trans (hcopy.above i other hge hother sub hsub)
  have hextend : ∀ (i : ℕ) (other : GroupNode T), heap[i]? = some other →
      heap'[i]? = some other := by
    intro i other hother
    rwa [hcopy.old i (List.getElem?_eq_some_iff.mp hother).1]
  refine { length_lt := ?length, old := ?old, above := ?above,
           target := ⟨node.addGroup heap.length, ?node, ?name, ?done, ?members⟩ }
  case length =>
    rw [List.length_modify]
    exact h.length_lt.trans hcopy.length_lt
  case old =>
    intro i hi
    rw [List.getElem?_modify_ne _ heap' hi.ne', hcopy.old i (hi.trans h.length_lt), h.old i hi]
  case above =>
    -- the sub-group that is added lies behind the group that is filled
    intro i other hi hother sub hsub
    rcases hi.eq_or_lt with rfl | hlt
    · rw [List.getElem?_modify_eq, hnode'] at hother
      obtain rfl := Option.some.inj hother
      rcases GroupNode.mem_members_addGroup hsub with hold | rfl
      · exact hsubs sub hold
      · exact h.length_lt
    · rw [List.getElem?_modify_ne _ heap' hlt.ne] at hother
      exact habove i other hi hother sub hsub
  case node =>
    rw [List.getElem?_modify_eq, hnode']
    rfl
  case name => rw [GroupNode.name_addGroup, hname]
  case done =>
    intro t ht
    rw [GroupNode.members_addGroup hnew] at ht
    rcases List.mem_append.mp ht with ht | ht
    · exact List.mem_append_left _ (hdone t ht)
    · cases List.mem_singleton.mp ht
  case members =>
    have hold := foldlM_modify habove (GroupNode.addGroup · heap.length) hsubs
      (foldlM_foldStep_mono (fun sub _ _ => tree_extend hextend le_rfl) hmembers)
    have hvalue := tree_modify habove (GroupNode.addGroup · heap.length) h.length_lt hcopy.tree
    rw [GroupNode.members_addGroup hnew, List.foldlM_append, hold]
    show (foldStep Group.addItem Group.addGroup _ acc (.group heap.length)).bind some = _
    rw [foldStep, hvalue]
    rfl

/-- A copy that is filled is a copy of the hierarchy. -/
theorem Filling.copied (h : Filling base heap name depth done acc) :
    Copied base heap (depth + 1) acc := by
  obtain ⟨node, hnode, hname, -, hmembers⟩ := h.target
  refine ⟨h.length_lt, h.old, h.above, ?_⟩
  rw [tree, foldTo, cells_getElem?, hnode, Option.map_some, Option.bind_some, hname]
  exact hmembers

/-- All members are copied, when sub-groups are.  The members of a group are distinct, so none is
left out as one that is there. -/
theorem filling_assign {clone : ℕ → GroupHeap T → Option (ℕ × GroupHeap T)}
    (hclone : ∀ (heap : GroupHeap T) (id : ℕ) (value : Group T),
      (∀ (i : ℕ) (node : GroupNode T), base[i]? = some node → heap[i]? = some node) →
      base.tree depth id = some value →
        ∃ heap', clone id heap = some (heap.length, heap') ∧ Copied heap heap' depth value)
    {members : List (Member T)} (h : Filling base heap name depth done acc)
    (hnodup : (done ++ members).Nodup)
    (hmembers : members.foldlM (foldStep Group.addItem Group.addGroup (base.tree depth)) acc =
      some group) :
    ∃ heap', assign T clone base.length members heap = some heap' ∧
      Filling base heap' name depth (done ++ members) group := by
  induction members generalizing heap done acc with
  | nil =>
    obtain rfl := Option.some.inj hmembers
    exact ⟨heap, rfl, by rwa [List.append_nil]⟩
  | cons member members ih =>
    rw [List.foldlM_cons] at hmembers
    obtain ⟨next, hnext, hrest⟩ := Option.bind_eq_some_iff.mp hmembers
    rw [List.append_cons] at hnodup ⊢
    cases member with
    | item item =>
      obtain rfl := Option.some.inj hnext
      -- an item that was not copied yet is added at the end
      have hnew : Member.item item ∉ done := by
        have hsplit := (List.nodup_append.mp hnodup).1
        exact (List.nodup_cons.mp (List.nodup_append_comm.mp hsplit)).1
      exact ih (h.addItem hnew) hnodup hrest
    | group id =>
      obtain ⟨value, hvalue, rfl⟩ := Option.map_eq_some_iff.mp hnext
      -- the copy of a sub-group lies behind what the heap held, so the rest can still be read
      have hext : ∀ (i : ℕ) (node : GroupNode T), base[i]? = some node →
          heap[i]? = some node := by
        intro i node hnode
        rwa [h.old i (List.getElem?_eq_some_iff.mp hnode).1]
      obtain ⟨heap', hrun, hcopy⟩ := hclone heap id value hext hvalue
      obtain ⟨heap'', hassign, hfilled⟩ := ih (h.addGroup id hcopy) hnodup hrest
      refine ⟨heap'', ?_, hfilled⟩
      rw [assign, hrun, Option.bind_some]
      exact hassign

/-- **A copy stands for the same hierarchy**, and all groups that existed stay as they are. -/
theorem copied_cloneTo (h : heap.tree depth id = some group) :
    ∃ heap', cloneTo depth id heap = some (heap.length, heap') ∧
      Copied heap heap' depth group := by
  induction depth generalizing heap id group with
  | zero => cases h
  | succ depth ih =>
    rw [tree, foldTo] at h
    obtain ⟨cell, hcell, hmembers⟩ := Option.bind_eq_some_iff.mp h
    obtain ⟨node, hnode, rfl⟩ := getElem?_of_cells hcell
    obtain ⟨heap', hassign, hfilled⟩ := filling_assign
      (fun heap' id value hext hvalue => ih (tree_extend hext le_rfl hvalue))
      (filling_create heap node.name depth) node.nodup hmembers
    refine ⟨heap', ?_, hfilled.copied⟩
    rw [cloneTo, hnode, Option.bind_some, hassign, Option.map_some]

end Fill

/-- The items and the diagram of a copy are those of the group. -/
theorem copied_clone (h : heap.tree heap.length id = some group) :
    ∃ heap', heap.clone id = some (heap.length, heap') ∧
      heap'.items heap.length = some group.items ∧
      heap'.makeBdd heap.length = some group.makeBdd ∧
      ∀ i < heap.length, heap'[i]? = heap[i]? := by
  obtain ⟨heap', hrun, hcopy⟩ := copied_cloneTo h
  have htree : heap'.tree heap'.length heap.length = some group :=
    tree_extend (fun _ _ hnode => hnode) hcopy.length_lt.le hcopy.tree
  exact ⟨heap', hrun, items_eq htree, makeBdd_eq htree, hcopy.old⟩

end Copies

/-! ### The groups that are built -/

omit [Mnode T] in
/-- A change of a group that keeps its sub-groups. -/
theorem closed_modify (h : Closed heap.cells) (address : ℕ) {f : GroupNode T → GroupNode T}
    (hf : ∀ node id, .group id ∈ (f node).members → .group id ∈ node.members ∨ id < heap.length) :
    Closed (cells (heap.modify address f)) := by
  intro i cell hcell sub hsub
  obtain ⟨node, hnode, rfl⟩ := getElem?_of_cells hcell
  have hold : ∀ other : GroupNode T, heap[i]? = some other → .group sub ∈ other.members →
      sub < heap.length := by
    intro other hother hmem
    have hlt := h i other.toCell (by rw [cells_getElem?, hother, Option.map_some]) sub hmem
    rwa [length_cells] at hlt
  rw [length_cells, List.length_modify]
  by_cases hi : address = i
  · subst hi
    rw [List.getElem?_modify_eq] at hnode
    obtain ⟨other, hother, rfl⟩ := Option.map_eq_some_iff.mp hnode
    rcases hf other sub hsub with hmem | hlt
    · exact hold other hother hmem
    · exact hlt
  · rw [List.getElem?_modify_ne f heap hi] at hnode
    exact hold node hnode hsub

omit [Mnode T] in
/-- One more group, without sub-groups. -/
theorem closed_append (h : Closed heap.cells) {node : GroupNode T}
    (hnode : ∀ id, .group id ∉ node.members) : Closed (cells (heap ++ [node])) := by
  intro i cell hcell sub hsub
  obtain ⟨other, hother, rfl⟩ := getElem?_of_cells hcell
  rw [length_cells, List.length_append, List.length_singleton]
  rcases lt_or_ge i heap.length with hlt | hge
  · rw [List.getElem?_append_left hlt] at hother
    have hold := h i other.toCell (by rw [cells_getElem?, hother, Option.map_some]) sub hsub
    rw [length_cells] at hold
    exact Nat.lt_succ_of_lt hold
  · rw [List.getElem?_append_right hge] at hother
    obtain rfl := List.mem_singleton.mp (List.mem_of_getElem? hother)
    exact absurd hsub (hnode sub)

omit [Mnode T] in
/-- A call only adds groups that exist. -/
theorem closed_after (h : Closed heap.cells) (call : GroupCall T) :
    Closed (heap.after call).cells := by
  cases call with
  | newGroup name => exact closed_append h fun _ => List.not_mem_nil
  | newGroupOf name item =>
    exact closed_append h fun _ hid => List.not_mem_nil (GroupNode.mem_members_addItem hid)
  | addItem group item =>
    exact closed_modify h group fun _ _ hid => Or.inl (GroupNode.mem_members_addItem hid)
  | addGroup group member =>
    rw [after]
    split
    · next hmember =>
      refine closed_modify h group fun node id hid => ?_
      rcases GroupNode.mem_members_addGroup hid with hold | rfl
      · exact Or.inl hold
      · exact Or.inr hmember
    · exact h

omit [Mnode T] in
/-- **All groups that are referred to exist**, after any calls. -/
theorem closed_build (calls : List (GroupCall T)) : Closed (build calls).cells := by
  have hrun : ∀ (calls : List (GroupCall T)) (heap : GroupHeap T), Closed heap.cells →
      Closed (cells (calls.foldl after heap)) := by
    intro calls
    induction calls with
    | nil => exact fun _ h => h
    | cons call calls ih => exact fun heap h => ih _ (closed_after h call)
  refine hrun calls [] fun i cell hcell => ?_
  cases hcell

/-! ### The laws -/

/-- What the operations of a group have to do with each other. -/
structure Lawful (heap : GroupHeap T) (id : ℕ) (listed : List T) : Prop where
  /-- These are the items of the group. -/
  items : heap.items id = some listed
  /-- They are listed once each, in the order in which a depth-first walk first meets them. -/
  order : ∃ cell visits, heap.cells[id]? = some cell ∧
    DepthFirst heap.cells cell.members visits ∧ FirstOccurrences visits listed
  contains : ∀ item, heap.contains item id = some (decide (item ∈ listed))
  makeBdd : heap.makeBdd id =
    some (listed.foldl (fun condition item => bddOr condition (Mnode.makeBdd item)) bddFalse)
  /-- A copy is a new group with the same items and packets; the other groups stay. -/
  clone : ∃ copy heap', heap.clone id = some (copy, heap') ∧ heap.length ≤ copy ∧
    heap'.items copy = some listed ∧ heap'.makeBdd copy = heap.makeBdd id ∧
    ∀ i < heap.length, heap'[i]? = heap[i]?

/-- A group that stands for a hierarchy obeys the laws. -/
theorem lawful_of_tree (h : heap.tree heap.length id = some group) :
    Lawful heap id group.items where
  items := items_eq h
  order := by
    obtain ⟨cell, hcell, hdepth⟩ := depthFirst_foldTo (visits_eq h)
    exact ⟨cell, group.parse, hcell, hdepth, firstOccurrences_foldl group.parse⟩
  contains item := contains_eq item h
  makeBdd := by
    rw [makeBdd_eq h]
    refine congrArg some (Bdd.eq_iff_mem.mpr fun pk => ?_)
    rw [mem_makeBdd_group, Group.mem_foldl_bddOr]
    exact (or_iff_right notMem_bddFalse).symm
  clone := by
    obtain ⟨heap', hrun, hitems, hmakeBdd, hold⟩ := copied_clone h
    exact ⟨heap.length, heap', hrun, le_rfl, hitems, hmakeBdd.trans (makeBdd_eq h).symm, hold⟩

/-- **The laws of groups**: for all groups that any calls build, as long as they make no
cycle, the operations end and agree. -/
theorem lawful_build (T : Type) [DecidableEq T] [Mnode T] (calls : List (GroupCall T))
    (hacyclic : Acyclic (build calls).cells) (id : ℕ) (hid : id < (build calls).length) :
    ∃ listed, Lawful (build calls) id listed := by
  rw [← length_cells] at hid
  obtain ⟨group, hgroup⟩ := hacyclic.exists_foldTo Group.empty Group.addItem Group.addGroup
    (closed_build calls) hid
  rw [length_cells] at hgroup
  exact ⟨group.items, lawful_of_tree hgroup⟩

end GroupHeap

end Node

/-- A group with a sub-group that is added twice, and an item that both have. -/
theorem GroupHeap.lawful_build_shared : ∃ listed, GroupHeap.Lawful (GroupHeap.build
    [.newGroup "inner", .addItem 0 (OptionNode.any : Url), .newGroup "outer", .addGroup 1 0,
      .addItem 1 OptionNode.any, .addGroup 1 0]) 1 listed := by
  refine GroupHeap.lawful_build Url _ (Descending.acyclic ?_) 1 (by decide)
  intro id cell hcell sub hsub
  have hcells : GroupHeap.cells (GroupHeap.build
      [.newGroup "inner", .addItem 0 (OptionNode.any : Url), .newGroup "outer", .addGroup 1 0,
        .addItem 1 OptionNode.any, .addGroup 1 0]) =
      [⟨"inner", [.item OptionNode.any]⟩, ⟨"outer", [.group 0, .item OptionNode.any]⟩] := rfl
  rw [hcells] at hcell
  rcases id with _ | _ | id
  · obtain rfl := Option.some.inj hcell
    cases List.mem_singleton.mp hsub
  · obtain rfl := Option.some.inj hcell
    rcases List.mem_cons.mp hsub with hinner | hitem
    · rw [Member.group.inj hinner]
      exact Nat.one_pos
    · cases List.mem_singleton.mp hitem
  · cases hcell

end RulesAnalyzer
