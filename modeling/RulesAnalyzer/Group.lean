import RulesAnalyzer.Mvalue

/-!
# Groups

A group is a hierarchy of items and sub-groups, built by adding one member after
the other.  Members are pointers to shared objects in the code; here an object
is its value.  The `Any…Group` classes, whose diagram is the constant true
diagram whatever their members are, carry the reason why this is no lie: one of
their items covers everything.

## Main definitions

* `Group`, `Group.makeBdd` — groups and their diagrams.
* `Group.parse`, `Group.items` — the items of a group and its sub-groups.
* `Group.addMember`, `Group.clone` — construction and copy.

## Main results

* `mem_makeBdd_group` — **a group holds what one of its items holds.**
* `Group.clone_eq` — a copy is the same group.
-/

namespace RulesAnalyzer

open Diagram

/-! ### Unique items -/

/-- Appends an item unless the list has it already. -/
def pushUnique {T : Type} [DecidableEq T] (items : List T) (item : T) : List T :=
  if item ∈ items then items else items ++ [item]

theorem mem_foldl_pushUnique {T : Type} [DecidableEq T] {item : T} {l acc : List T} :
    item ∈ l.foldl pushUnique acc ↔ item ∈ acc ∨ item ∈ l := by
  induction l generalizing acc with
  | nil => simp
  | cons a l ih =>
    rw [List.foldl_cons, ih, List.mem_cons, pushUnique]
    split
    · next ha =>
      -- `a` is known already
      constructor
      · exact Or.imp_right Or.inr
      · intro hmem
        rcases hmem with h | rfl | h
        · exact Or.inl h
        · exact Or.inl ha
        · exact Or.inr h
    · rw [List.mem_append, List.mem_singleton, or_assoc]

/-! ### Groups -/

/-- A group hierarchy of items of type `T`. -/
inductive Group (T : Type) [Mnode T]
  /-- The group without members. -/
  | empty (name : String)
  /-- A group with one more item. -/
  | addItem (group : Group T) (item : T)
  /-- A group with one more sub-group. -/
  | addGroup (group member : Group T)
  /-- A group of one of the classes that override `make_bdd`. -/
  | any (name : String) (items : List T) (covers : ∃ item ∈ items, Mnode.makeBdd item = bddTrue)
  deriving DecidableEq

namespace Group

variable {T : Type} [Mnode T]

/-- A group with a unique member. -/
def ofItem (name : String) (item : T) : Group T := (empty name).addItem item

/-- The diagram of a group: the disjunction of its members. -/
def makeBdd : Group T → ModelBdd
  | empty _ => bddFalse
  | addItem group item => bddOr group.makeBdd (Mnode.makeBdd item)
  | addGroup group member => bddOr group.makeBdd member.makeBdd
  | any _ _ _ => bddTrue

/-- The items the parser callback visits, in order. -/
def parse : Group T → List T
  | empty _ => []
  | addItem group item => group.parse ++ [item]
  | addGroup group member => group.parse ++ member.parse
  | any _ items _ => items

/-- A copy of the group and of its sub-groups. -/
def clone : Group T → Group T
  | empty name => empty name
  | addItem group item => group.clone.addItem item
  | addGroup group member => group.clone.addGroup member.clone
  | any name items covers => any name items covers

/-- The items that are direct members. -/
def directItems : Group T → List T
  | empty _ => []
  | addItem group item => group.directItems ++ [item]
  | addGroup group _ => group.directItems
  | any _ items _ => items

instance : Mnode (Group T) := ⟨Group.makeBdd⟩

section Dedup

variable [DecidableEq T]

/-- All unique items of the group and its sub-groups. -/
def items (group : Group T) : List T :=
  group.parse.foldl pushUnique []

/-- Adds an item, unless it is a member already. -/
def addMember (group : Group T) (item : T) : Group T :=
  if item ∈ group.directItems then group else group.addItem item

end Dedup

/-! ### The diagram and the items -/

theorem directItems_subset_parse (group : Group T) : group.directItems ⊆ group.parse := by
  induction group with
  | empty name => exact List.Subset.refl _
  | addItem group item ih =>
    intro t ht
    rcases List.mem_append.mp ht with ht | ht
    · exact List.mem_append_left _ (ih ht)
    · exact List.mem_append_right _ ht
  | addGroup group member ih _ => exact fun t ht => List.mem_append_left _ (ih ht)
  | any name items covers => exact List.Subset.refl _

theorem mem_makeBdd_iff_parse {group : Group T} {pk : Packet} :
    pk ∈ group.makeBdd ↔ ∃ item ∈ group.parse, pk ∈ Mnode.makeBdd item := by
  induction group with
  | empty name => simp [makeBdd, parse]
  | addItem group item ih => simp [makeBdd, parse, ih, or_and_right, exists_or]
  | addGroup group member ihg ihm =>
    simp [makeBdd, parse, ihg, ihm, or_and_right, exists_or]
  | any name items covers =>
    obtain ⟨item, hitem, htrue⟩ := covers
    simp only [makeBdd, parse, mem_bddTrue, true_iff]
    exact ⟨item, hitem, by rw [htrue]; exact mem_bddTrue⟩

theorem mem_foldl_bddOr {l : List T} {a : ModelBdd} {pk : Packet} :
    pk ∈ l.foldl (fun condition item => bddOr condition (Mnode.makeBdd item)) a ↔
      pk ∈ a ∨ ∃ item ∈ l, pk ∈ Mnode.makeBdd item := by
  induction l generalizing a with
  | nil => simp
  | cons t l ih => simp [ih, or_assoc]

/-- **The shortcut of the any groups is the disjunction of their items.** -/
theorem makeBdd_any (name : String) (items : List T)
    (covers : ∃ item ∈ items, Mnode.makeBdd item = bddTrue) :
    (any name items covers).makeBdd =
      items.foldl (fun condition item => bddOr condition (Mnode.makeBdd item)) bddFalse := by
  refine Bdd.eq_iff_mem.mpr fun pk => ?_
  rw [mem_makeBdd_iff_parse, mem_foldl_bddOr, parse]
  simp

theorem clone_eq (group : Group T) : group.clone = group := by
  induction group with
  | empty name => rfl
  | addItem group item ih => rw [clone, ih]
  | addGroup group member ihg ihm => rw [clone, ihg, ihm]
  | any name items covers => rfl

variable [DecidableEq T]

@[simp] theorem mem_items {group : Group T} {item : T} :
    item ∈ group.items ↔ item ∈ group.parse := by
  rw [items, mem_foldl_pushUnique]
  simp

theorem mem_parse_addMember {group : Group T} {item t : T} :
    t ∈ (group.addMember item).parse ↔ t ∈ group.parse ∨ t = item := by
  unfold addMember
  split
  · next h =>
    have hitem := group.directItems_subset_parse h
    constructor
    · exact Or.inl
    · intro hmem
      rcases hmem with ht | rfl
      · exact ht
      · exact hitem
  · simp [parse]

end Group

/-- **A group holds what one of its items holds.** -/
theorem mem_makeBdd_group {T : Type} [Mnode T] [DecidableEq T] {group : Group T} {pk : Packet} :
    pk ∈ group.makeBdd ↔ ∃ item ∈ group.items, pk ∈ Mnode.makeBdd item := by
  simp only [Group.mem_items, Group.mem_makeBdd_iff_parse]

theorem supported_group {T : Type} [Mnode T] {S : Set DomainType} {group : Group T}
    (h : ∀ item ∈ group.parse, Supported S (Mnode.makeBdd item)) : Supported S group.makeBdd := by
  intro pk pk' hv
  rw [Group.mem_makeBdd_iff_parse, Group.mem_makeBdd_iff_parse]
  exact exists_congr fun item => and_congr_right fun hitem => h item hitem pk pk' hv

end RulesAnalyzer
