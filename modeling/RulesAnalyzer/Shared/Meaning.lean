import RulesAnalyzer.Effect.Triple
import RulesAnalyzer.Shared.Registry
import Mathlib.Data.Set.Basic

/-!
# What registered members stand for

When items stand for sets of points, so do members: a group stands for the points
of the items it leads to.  What a new group stands for is what its elements, or the
members found under its names, stand for.

## Main definitions

* `Registry.meaning` — the points of a member.
* `Registry.Holds` — a group that only has items, with their points.

## Main results

* `Registry.meaning_extends` — a member stands for the same in an extended registry.
* `exec_registerGroup`, `registerGroup_meaning` — **a new group of names stands for what is found
  under the names.**
* `registerMulti_meaning` — **a new group of elements stands for its elements.**
-/

namespace RulesAnalyzer.Shared

open Effect

variable {κ T P ε : Type}

namespace Registry

/-- The points of the items a member leads to. -/
def meaning (den : T → Set P) (r : Registry κ T) (member : Member T) : Set P :=
  {p | ∃ t, Leads r.heap [member] t ∧ p ∈ den t}

variable {den : T → Set P} {r r' : Registry κ T}

theorem meaning_item (t : T) : r.meaning den (.item t) = den t := by
  ext p
  simp only [meaning, Set.mem_ofPred_eq, leads_item, exists_eq_left]

/-- The points of a group are those of its members. -/
theorem mem_meaning_group {id : ℕ} {cell : Cell κ T} (hcell : r.heap[id]? = some cell) {p : P} :
    p ∈ r.meaning den (.group id) ↔ ∃ member ∈ cell.members, p ∈ r.meaning den member := by
  simp only [meaning, Set.mem_ofPred_eq, leads_group, hcell, Option.some.injEq, exists_eq_left']
  constructor
  · intro ⟨t, ht, hp⟩
    obtain ⟨member, hmember, hleads⟩ := leads_iff.mp ht
    exact ⟨member, hmember, t, hleads, hp⟩
  · intro ⟨member, hmember, t, hleads, hp⟩
    exact ⟨t, leads_iff.mpr ⟨member, hmember, hleads⟩, hp⟩

/-- **A member stands for the same in an extended registry.** -/
theorem meaning_extends (den : T → Set P) (hr : r.Sound) (hext : r.Extends r') {member : Member T}
    (h : Below r.heap.length [member]) : r'.meaning den member = r.meaning den member := by
  ext p
  simp only [meaning, Set.mem_ofPred_eq, leads_congr hr.descending hext.cells h]

/-- What is cached under a name exists. -/
theorem below_lookup (hr : r.Sound) {name : κ} {member : Member T}
    (h : r.lookup name = some member) : Below r.heap.length [member] := by
  rw [lookup] at h
  rcases hitem : r.items name with _ | t
  · rw [hitem] at h
    obtain ⟨id, hgroup, rfl⟩ := Option.map_eq_some_iff.mp h
    exact below_group.mpr (hr.lt_length hgroup)
  · rw [hitem] at h
    obtain rfl := Option.some.inj h
    exact below_item

/-- The group only has items, and its points are those of the set. -/
def Holds (den : T → Set P) (id : ℕ) (A : Set P) (r : Registry κ T) : Prop :=
  ∃ cell, r.heap[id]? = some cell ∧ (∀ member ∈ cell.members, ∃ t, member = .item t) ∧
    ∀ p, p ∈ A ↔ ∃ t, .item t ∈ cell.members ∧ p ∈ den t

/-- A group that only has items stands for the set. -/
theorem meaning_of_holds {id : ℕ} {A : Set P} (h : r.Holds den id A) :
    r.meaning den (.group id) = A := by
  obtain ⟨cell, hcell, hitems, hA⟩ := h
  ext p
  rw [mem_meaning_group hcell, hA]
  constructor
  · rintro ⟨member, hmember, hp⟩
    obtain ⟨t, rfl⟩ := hitems member hmember
    rw [meaning_item] at hp
    exact ⟨t, hmember, hp⟩
  · intro ⟨t, hmember, hp⟩
    exact ⟨.item t, hmember, by rwa [meaning_item]⟩

variable [DecidableEq T]

theorem holds_addMember {id : ℕ} {A : Set P} (h : r.Holds den id A) (t : T) :
    (r.addMember id (.item t)).Holds den id (A ∪ den t) := by
  obtain ⟨cell, hcell, hitems, hA⟩ := h
  refine ⟨{ cell with members := pushMember cell.members (.item t) }, ?_, ?_, fun p => ?_⟩
  · rw [addMember_getElem?, if_pos rfl, hcell]
    rfl
  · intro member hmember
    rcases mem_pushMember.mp hmember with hmember | rfl
    · exact hitems member hmember
    · exact ⟨t, rfl⟩
  · simp only [Set.mem_union, hA, mem_pushMember, Member.item.injEq, or_and_right, exists_or,
      exists_eq_left]

/-- Members added to a group one after the other. -/
theorem foldl_addMember_getElem? {id : ℕ} {cell : Cell κ T} (members : List (Member T))
    (hcell : r.heap[id]? = some cell) :
    ∃ cell', (members.foldl (fun r member => r.addMember id member) r).heap[id]? = some cell' ∧
      ∀ member, member ∈ cell'.members ↔ member ∈ cell.members ∨ member ∈ members := by
  induction members generalizing r cell with
  | nil => exact ⟨cell, hcell, fun _ => (or_iff_left List.not_mem_nil).symm⟩
  | cons member members ih =>
    have hadded : (r.addMember id member).heap[id]? =
        some { cell with members := pushMember cell.members member } := by
      rw [addMember_getElem?, if_pos rfl, hcell]
      rfl
    obtain ⟨cell', hcell', hmembers⟩ := ih hadded
    refine ⟨cell', hcell', fun m => ?_⟩
    rw [hmembers, mem_pushMember, List.mem_cons, or_assoc]

theorem foldl_addMember_caches (id : ℕ) (members : List (Member T)) :
    (members.foldl (fun r member => r.addMember id member) r).items = r.items ∧
      (members.foldl (fun r member => r.addMember id member) r).groups = r.groups := by
  induction members generalizing r with
  | nil => exact ⟨rfl, rfl⟩
  | cons member members ih => exact ih

end Registry

open Registry

variable [DecidableEq κ] [DecidableEq T] {den : T → Set P}

/-! ### Groups of names -/

omit [DecidableEq κ] in
/-- A group is filled with what the names have cached. -/
theorem exec_fillMembers (id : ℕ) (names : List κ) (r : Registry κ T) :
    exec (fillMembers id names : Program (Registry κ T) ε PUnit) r =
      (.ok ⟨⟩, (names.filterMap r.lookup).foldl (fun r member => r.addMember id member) r) := by
  induction names generalizing r with
  | nil => rfl
  | cons name names ih =>
    rw [fillMembers, List.forM, bind_assoc, exec_get_bind]
    rcases hlookup : r.lookup name with _ | member
    · rw [List.filterMap_cons_none hlookup]
      exact ih r
    · rw [List.filterMap_cons_some hlookup, exec_modify_bind]
      exact ih (r.addMember id member)

/-- Registration of a group of names does not raise. -/
theorem exec_registerGroup_ok (k : κ) (names : List κ) (r : Registry κ T) :
    ∃ id, exec (registerGroup k names : Program (Registry κ T) ε ℕ) r =
      (.ok id, (exec (registerGroup k names : Program (Registry κ T) ε ℕ) r).2) := by
  rcases hk : r.groups k with _ | id
  · refine ⟨r.heap.length, Prod.ext ?_ rfl⟩
    rw [registerGroup, exec_get_bind, hk, exec_modify_bind,
      exec_bind_ok (exec_fillMembers r.heap.length names (r.newGroup k))]
    rfl
  · refine ⟨id, Prod.ext ?_ rfl⟩
    rw [registerGroup, exec_get_bind, hk]
    rfl

/-- **What a new group of names holds.** -/
theorem exec_registerGroup {k : κ} {names : List κ} (hk : k ∉ names) {r : Registry κ T}
    (hnone : r.groups k = none) :
    ∃ r' cell, exec (registerGroup k names : Program (Registry κ T) ε ℕ) r =
        (.ok r.heap.length, r') ∧ r'.items = r.items ∧
      r'.groups = Function.update r.groups k (some r.heap.length) ∧
      r'.heap[r.heap.length]? = some cell ∧
      ∀ member, member ∈ cell.members ↔ ∃ name ∈ names, r.lookup name = some member := by
  -- the new group is cached, but it is none of its own members
  have hlookup : ∀ name ∈ names, (r.newGroup k).lookup name = r.lookup name := by
    intro name hname
    have hne : name ≠ k := fun h => hk (h ▸ hname)
    rw [lookup, lookup, items_newGroup, groups_newGroup, Function.update_of_ne hne]
  have hcaches := foldl_addMember_caches (r := r.newGroup k) r.heap.length
    (names.filterMap (r.newGroup k).lookup)
  obtain ⟨cell, hcell, hmembers⟩ := foldl_addMember_getElem?
    (names.filterMap (r.newGroup k).lookup) (newGroup_getElem? (r := r) (k := k))
  refine ⟨_, cell, ?_, hcaches.1, hcaches.2, hcell, fun member => ?_⟩
  · rw [registerGroup, exec_get_bind, hnone, exec_modify_bind]
    exact exec_bind_ok (exec_fillMembers r.heap.length names (r.newGroup k))
  · rw [hmembers, List.mem_filterMap, or_iff_right List.not_mem_nil]
    refine exists_congr fun name => and_congr_right fun hname => ?_
    rw [hlookup name hname]

/-- **A new group of names stands for what is found under the names.** -/
theorem registerGroup_meaning (den : T → Set P) {k : κ} {names : List κ} (hk : k ∉ names)
    {r : Registry κ T} (hr : r.Sound) (hnone : r.groups k = none) :
    ∃ r', exec (registerGroup k names : Program (Registry κ T) ε ℕ) r =
        (.ok r.heap.length, r') ∧ r'.items = r.items ∧
      r'.groups = Function.update r.groups k (some r.heap.length) ∧
      ∀ p, p ∈ r'.meaning den (.group r.heap.length) ↔
        ∃ name ∈ names, ∃ member, r.lookup name = some member ∧ p ∈ r.meaning den member := by
  obtain ⟨r', cell, hrun, hitems, hgroups, hcell, hmembers⟩ :=
    @exec_registerGroup κ T ε _ _ k names hk r hnone
  have hext : r.Extends r' := by
    have hkeeps : Under Sound Extends r
        (exec (registerGroup k names : Program (Registry κ T) ε ℕ) r).2 := keeps_registerGroup hk r
    rw [hrun] at hkeeps
    exact (hkeeps hr).2
  refine ⟨r', hrun, hitems, hgroups, fun p => ?_⟩
  rw [mem_meaning_group hcell]
  constructor
  · intro ⟨member, hmember, hp⟩
    obtain ⟨name, hname, hlookup⟩ := (hmembers member).mp hmember
    rw [meaning_extends den hr hext (below_lookup hr hlookup)] at hp
    exact ⟨name, hname, member, hlookup, hp⟩
  · intro ⟨name, hname, member, hlookup, hp⟩
    refine ⟨member, (hmembers member).mpr ⟨name, hname, hlookup⟩, ?_⟩
    rwa [meaning_extends den hr hext (below_lookup hr hlookup)]

/-! ### Groups of elements -/

section Elements

variable {ι : Type} {element : ι → κ × Except ε T} {S : ι → Set P} {J : (κ → Option T) → Prop}
  {E : Registry κ T → Prop} {l : List ι}

/-- A group is filled with elements: cached items that stand for what they should, or new
items. -/
theorem triple_fillElements
    (hcached : ∀ e ∈ l, ∀ items, J items → ∀ t, items (element e).1 = some t → den t = S e)
    (hcreated : ∀ e ∈ l, ∀ items, J items → items (element e).1 = none → ∀ t,
      (element e).2 = .ok t → den t = S e ∧ J (Function.update items (element e).1 (some t)))
    (hraise : ∀ e ∈ l, ∀ fault, (element e).2 = .error fault → ∀ r : Registry κ T, J r.items →
      r.items (element e).1 = none → E r) (id : ℕ) (groups : κ → Option ℕ) (A : Set P) :
    Triple (fun r => J r.items ∧ r.groups = groups ∧ r.Holds den id A)
      (fillElements id (l.map element))
      (fun _ r => J r.items ∧ r.groups = groups ∧
        r.Holds den id (A ∪ {p | ∃ e ∈ l, p ∈ S e})) E := by
  induction l generalizing A with
  | nil =>
    refine triple_pure fun r hr => ?_
    have hempty : A ∪ {p : P | ∃ e ∈ ([] : List ι), p ∈ S e} = A := by
      ext p
      simp
    rwa [hempty]
  | cons e l ih =>
    have hrest := ih (fun e he => hcached e (List.mem_cons_of_mem _ he))
      (fun e he => hcreated e (List.mem_cons_of_mem _ he))
      (fun e he => hraise e (List.mem_cons_of_mem _ he)) (A ∪ S e)
    have hset : A ∪ S e ∪ {p | ∃ e ∈ l, p ∈ S e} = A ∪ {p | ∃ e' ∈ e :: l, p ∈ S e'} := by
      ext p
      simp only [Set.mem_union, Set.mem_ofPred_eq, List.exists_mem_cons_iff, or_assoc]
    rw [hset] at hrest
    rw [List.map_cons, fillElements, List.forM]
    refine triple_bind (Q := fun _ r => J r.items ∧ r.groups = groups ∧
      r.Holds den id (A ∪ S e)) ?_ fun _ => hrest
    rintro r ⟨hJ, hgroups, hholds⟩
    rw [exec_bind, exec_registerItem]
    -- an element that is cached is taken as it is
    rcases hitem : r.items (element e).1 with _ | t
    · rcases hcreate : (element e).2 with fault | t
      · exact hraise e List.mem_cons_self fault hcreate r hJ hitem
      · obtain ⟨hden, hJ'⟩ := hcreated e List.mem_cons_self r.items hJ hitem t hcreate
        have hholds' : (r.setItem (element e).1 t).Holds den id A := hholds
        exact ⟨hJ', hgroups, hden ▸ holds_addMember hholds' t⟩
    · have hden := hcached e List.mem_cons_self r.items hJ t hitem
      exact ⟨hJ, hgroups, hden ▸ holds_addMember hholds t⟩

/-- **A new group of elements stands for its elements.** -/
theorem registerMulti_meaning
    (hcached : ∀ e ∈ l, ∀ items, J items → ∀ t, items (element e).1 = some t → den t = S e)
    (hcreated : ∀ e ∈ l, ∀ items, J items → items (element e).1 = none → ∀ t,
      (element e).2 = .ok t → den t = S e ∧ J (Function.update items (element e).1 (some t)))
    (hraise : ∀ e ∈ l, ∀ fault, (element e).2 = .error fault → ∀ r : Registry κ T, J r.items →
      r.items (element e).1 = none → E r) {k : κ} {r : Registry κ T} (hJ : J r.items)
    (hnone : r.groups k = none) :
    Outcome (fun id r' => id = r.heap.length ∧ J r'.items ∧
        r'.groups = Function.update r.groups k (some r.heap.length) ∧
        r'.meaning den (.group id) = {p | ∃ e ∈ l, p ∈ S e}) E
      (exec (registerMulti k (l.map element)) r) := by
  rw [registerMulti, exec_get_bind, hnone, exec_modify_bind]
  -- the group is there before its elements, and it is empty
  have hempty : (r.newGroup k).Holds den r.heap.length ∅ := by
    refine ⟨_, newGroup_getElem?, fun _ h => absurd h List.not_mem_nil, fun p => ?_⟩
    refine iff_of_false (Set.notMem_empty p) ?_
    rintro ⟨_, h, -⟩
    exact List.not_mem_nil h
  have hfill := triple_fillElements hcached hcreated hraise r.heap.length (r.newGroup k).groups ∅
    (r.newGroup k) ⟨hJ, rfl, hempty⟩
  rcases hrun : exec (fillElements r.heap.length (l.map element)) (r.newGroup k) with
    ⟨fault | _, r'⟩
  · rw [hrun] at hfill
    rwa [exec_bind_error hrun]
  · rw [hrun] at hfill
    rw [exec_bind_ok hrun]
    obtain ⟨hJ', hgroups, hholds⟩ := hfill
    refine ⟨rfl, hJ', hgroups, ?_⟩
    rw [meaning_of_holds hholds, Set.empty_union]

end Elements

end RulesAnalyzer.Shared
