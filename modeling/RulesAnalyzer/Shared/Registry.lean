import RulesAnalyzer.Effect.Program
import RulesAnalyzer.Shared.Hierarchy
import Mathlib.Logic.Function.Basic

/-!
# Registries of named items and groups

A registry caches items and groups by name.  A name that is cached is never
registered again, whatever it is registered with; a new group is cached first and
filled then, so an exception leaves a part of it in the cache.

## Main definitions

* `Registry` — the two caches and the heap of the groups.
* `registerItem`, `registerMulti`, `registerGroup` — registration of an item, of a group of
  new items, and of a group of registered names.
* `Registry.Sound`, `Extends` — the invariant, and what registration may change.

## Main results

* `keeps_registerItem`, `keeps_registerMulti`, `keeps_registerGroup` — **registration extends
  a sound registry**: no cached name and no group that exists is changed.
* `returns_registerMulti`, `groups_of_registerMulti` — a new group is filled after it was cached.
* `raises_registerMulti_iff`, `groups_of_raised` — when a registration of new items raises, and
  that it leaves its group in the cache.
-/

namespace RulesAnalyzer.Shared

open Effect

variable {κ T ε : Type} [DecidableEq κ]

/-- The caches of items and of groups, and the groups. -/
structure Registry (κ T : Type) where
  items : κ → Option T
  groups : κ → Option ℕ
  heap : Heap κ T

namespace Registry

/-- Caches an item. -/
def setItem (r : Registry κ T) (k : κ) (t : T) : Registry κ T :=
  { r with items := Function.update r.items k (some t) }

/-- Caches a new group without members. -/
def newGroup (r : Registry κ T) (k : κ) : Registry κ T :=
  { r with groups := Function.update r.groups k (some r.heap.length), heap := r.heap ++ [⟨k, []⟩] }

/-- Adds a member to a list of members, unless it is one already. -/
def pushMember [DecidableEq T] (members : List (Member T)) (member : Member T) : List (Member T) :=
  if member ∈ members then members else members ++ [member]

/-- Adds a member to a group. -/
def addMember [DecidableEq T] (r : Registry κ T) (id : ℕ) (member : Member T) : Registry κ T :=
  { r with heap := r.heap.modify id fun cell =>
      { cell with members := pushMember cell.members member } }

/-- A cached item, or else a cached group. -/
def lookup (r : Registry κ T) (k : κ) : Option (Member T) :=
  match r.items k with
  | some t => some (.item t)
  | none => (r.groups k).map .group

/-- Cached groups carry their names, and groups only refer to older groups. -/
structure Sound (r : Registry κ T) : Prop where
  named : ∀ k id, r.groups k = some id → ∃ cell, r.heap[id]? = some cell ∧ cell.name = k
  descending : Descending r.heap

/-- The second registry has all that the first one caches, and the same first `n` groups. -/
structure Grows (n : ℕ) (r r' : Registry κ T) : Prop where
  items : ∀ k t, r.items k = some t → r'.items k = some t
  groups : ∀ k id, r.groups k = some id → r'.groups k = some id
  length_le : r.heap.length ≤ r'.heap.length
  cells : ∀ i < n, r'.heap[i]? = r.heap[i]?

/-- The second registry has all that the first one has, with the same groups. -/
def Extends (r r' : Registry κ T) : Prop := Grows r.heap.length r r'

omit [DecidableEq κ] in
theorem Grows.mono {n n' : ℕ} {r r' : Registry κ T} (h : Grows n' r r') (hle : n ≤ n') :
    Grows n r r' := ⟨h.items, h.groups, h.length_le, fun i hi => h.cells i (hi.trans_le hle)⟩

omit [DecidableEq κ] in
theorem Grows.refl (n : ℕ) (r : Registry κ T) : Grows n r r :=
  ⟨fun _ _ => id, fun _ _ => id, le_rfl, fun _ _ => rfl⟩

omit [DecidableEq κ] in
theorem Grows.trans {n : ℕ} {r r' r'' : Registry κ T} (h : Grows n r r') (h' : Grows n r' r'') :
    Grows n r r'' :=
  ⟨fun k t ht => h'.items k t (h.items k t ht), fun k id hid => h'.groups k id (h.groups k id hid),
    h.length_le.trans h'.length_le, fun i hi => (h'.cells i hi).trans (h.cells i hi)⟩

instance (n : ℕ) : Std.Refl (Grows n : Registry κ T → Registry κ T → Prop) := ⟨Grows.refl n⟩

instance (n : ℕ) : IsTrans (Registry κ T) (Grows n) := ⟨fun _ _ _ => Grows.trans⟩

instance : Std.Refl (Extends : Registry κ T → Registry κ T → Prop) := ⟨fun r => Grows.refl _ r⟩

instance : IsTrans (Registry κ T) Extends :=
  ⟨fun _ _ _ h h' => Grows.trans h (h'.mono h.length_le)⟩

omit [DecidableEq κ] in
theorem Sound.lt_length {r : Registry κ T} (h : r.Sound) {k : κ} {id : ℕ}
    (hid : r.groups k = some id) : id < r.heap.length := by
  obtain ⟨cell, hcell, -⟩ := h.named k id hid
  exact (List.getElem?_eq_some_iff.mp hcell).1

/-! ### The single changes -/

section Changes

variable {n id : ℕ} {r : Registry κ T} {k : κ} {t : T} {member : Member T}

@[simp] theorem items_setItem : (r.setItem k t).items = Function.update r.items k (some t) := rfl

@[simp] theorem groups_setItem : (r.setItem k t).groups = r.groups := rfl

@[simp] theorem heap_setItem : (r.setItem k t).heap = r.heap := rfl

@[simp] theorem items_newGroup : (r.newGroup k).items = r.items := rfl

@[simp] theorem groups_newGroup :
    (r.newGroup k).groups = Function.update r.groups k (some r.heap.length) := rfl

@[simp] theorem heap_newGroup : (r.newGroup k).heap = r.heap ++ [⟨k, []⟩] := rfl

theorem sound_setItem (h : r.Sound) : (r.setItem k t).Sound := ⟨h.named, h.descending⟩

theorem grows_setItem (hk : r.items k = none) : Grows n r (r.setItem k t) where
  items k' t' ht' := by
    have hne : k' ≠ k := by
      rintro rfl
      exact Option.some_ne_none _ (ht'.symm.trans hk)
    rwa [items_setItem, Function.update_of_ne hne]
  groups _ _ := id
  length_le := le_rfl
  cells _ _ := rfl

theorem grows_newGroup (hk : r.groups k = none) : Extends r (r.newGroup k) where
  items _ _ := id
  groups k' id hid := by
    have hne : k' ≠ k := by
      rintro rfl
      exact Option.some_ne_none _ (hid.symm.trans hk)
    rwa [groups_newGroup, Function.update_of_ne hne]
  length_le := by
    rw [heap_newGroup, List.length_append]
    exact Nat.le_add_right _ _
  cells _ hi := List.getElem?_append_left hi

theorem newGroup_getElem? : (r.newGroup k).heap[r.heap.length]? = some ⟨k, []⟩ :=
  List.getElem?_concat_length

theorem sound_newGroup (h : r.Sound) (hk : r.groups k = none) : (r.newGroup k).Sound where
  named k' id hid := by
    by_cases hk' : k' = k
    · subst hk'
      rw [groups_newGroup, Function.update_self] at hid
      obtain rfl := Option.some.inj hid
      exact ⟨_, newGroup_getElem?, rfl⟩
    · rw [groups_newGroup, Function.update_of_ne hk'] at hid
      obtain ⟨cell, hcell, hname⟩ := h.named k' id hid
      exact ⟨cell, ((grows_newGroup hk).cells id (h.lt_length hid)).trans hcell, hname⟩
  descending id cell hcell := by
    obtain ⟨hid, -⟩ := List.getElem?_eq_some_iff.mp hcell
    rw [heap_newGroup, List.length_append, List.length_singleton, Nat.lt_succ_iff] at hid
    rcases hid.lt_or_eq with hlt | rfl
    · rw [(grows_newGroup hk).cells id hlt] at hcell
      exact h.descending id cell hcell
    · rw [newGroup_getElem?] at hcell
      obtain rfl := Option.some.inj hcell
      exact fun _ hmem => absurd hmem List.not_mem_nil

variable [DecidableEq T]

omit [DecidableEq κ] in
@[simp] theorem items_addMember : (r.addMember id member).items = r.items := rfl

omit [DecidableEq κ] in
@[simp] theorem groups_addMember : (r.addMember id member).groups = r.groups := rfl

omit [DecidableEq κ] in
@[simp] theorem length_addMember : (r.addMember id member).heap.length = r.heap.length :=
  List.length_modify ..

theorem mem_pushMember {members : List (Member T)} {m : Member T} :
    m ∈ pushMember members member ↔ m ∈ members ∨ m = member := by
  unfold pushMember
  split
  · next h =>
    constructor
    · exact Or.inl
    · rintro (hm | rfl)
      · exact hm
      · exact h
  · rw [List.mem_append, List.mem_singleton]

omit [DecidableEq κ] in
/-- The groups after a member is added. -/
theorem addMember_getElem? (i : ℕ) : (r.addMember id member).heap[i]? =
    if i = id then
      r.heap[i]?.map fun cell => { cell with members := pushMember cell.members member }
    else r.heap[i]? := by
  rw [addMember, List.getElem?_modify]
  split
  · next h =>
    rw [if_pos h.symm]
    rfl
  · next h =>
    rw [if_neg (Ne.symm h)]
    cases r.heap[i]? <;> rfl

omit [DecidableEq κ] in
theorem grows_addMember (hn : n ≤ id) : Grows n r (r.addMember id member) where
  items _ _ := fun h => h
  groups _ _ := fun h => h
  length_le := length_addMember.ge
  cells i hi := by rw [addMember_getElem?, if_neg (hi.trans_le hn).ne]

omit [DecidableEq κ] in
theorem sound_addMember (h : r.Sound) (hmember : Below id [member]) :
    (r.addMember id member).Sound where
  named k i hi := by
    obtain ⟨cell, hcell, hname⟩ := h.named k i hi
    rw [addMember_getElem?, hcell]
    split
    · exact ⟨_, rfl, hname⟩
    · exact ⟨cell, rfl, hname⟩
  descending i cell hcell := by
    rw [addMember_getElem?] at hcell
    split at hcell
    · next hi =>
      subst hi
      obtain ⟨old, hold, rfl⟩ := Option.map_eq_some_iff.mp hcell
      intro j hj
      rcases mem_pushMember.mp hj with hj | rfl
      · exact h.descending i old hold j hj
      · exact hmember j (List.mem_singleton_self _)
    · exact h.descending i cell hcell

end Changes

end Registry

/-! ### Registration -/

open Registry

/-- Registers an item under a name, unless the name is cached. -/
def registerItem (k : κ) (create : Except ε T) : Program (Registry κ T) ε T := do
  match (← get).items k with
  | some t => pure t
  | none =>
    let t ← MonadExcept.ofExcept create
    modify fun r => r.setItem k t
    pure t

section Groups

variable [DecidableEq T]

/-- Registers the elements of a new group and adds each to the group. -/
def fillElements (id : ℕ) (elements : List (κ × Except ε T)) : Program (Registry κ T) ε PUnit :=
  elements.forM fun element => do
    let t ← registerItem element.1 element.2
    modify fun r => r.addMember id (.item t)

/-- Registers a group of new items under a name, unless the name is cached. -/
def registerMulti (k : κ) (elements : List (κ × Except ε T)) : Program (Registry κ T) ε ℕ := do
  let r ← get
  match r.groups k with
  | some id => pure id
  | none =>
    modify fun r => r.newGroup k
    fillElements r.heap.length elements
    pure r.heap.length

/-- Adds what the names have cached to a new group. -/
def fillMembers (id : ℕ) (members : List κ) : Program (Registry κ T) ε PUnit :=
  members.forM fun name => do
    match (← get).lookup name with
    | some member => modify fun r => r.addMember id member
    | none => pure ⟨⟩

/-- Registers a group of cached items and groups under a name, unless the name is cached. -/
def registerGroup (k : κ) (members : List κ) : Program (Registry κ T) ε ℕ := do
  let r ← get
  match r.groups k with
  | some id => pure id
  | none =>
    modify fun r => r.newGroup k
    fillMembers r.heap.length members
    pure r.heap.length

end Groups

/-! ### What registration keeps -/

theorem exec_registerItem (k : κ) (create : Except ε T) (r : Registry κ T) :
    exec (registerItem k create) r = match r.items k with
      | some t => (.ok t, r)
      | none => (create, match create with
        | .ok t => r.setItem k t
        | .error _ => r) := by
  rw [registerItem, exec_get_bind]
  rcases r.items k with _ | t
  · rcases create with e | t
    · exact exec_bind_error (exec_ofExcept _ _)
    · exact exec_bind_ok (exec_ofExcept _ _)
  · rfl

theorem keeps_registerItem_grows (n : ℕ) (k : κ) (create : Except ε T) :
    Keeps (Under Sound (Grows n)) (registerItem k create) := by
  intro r hr
  rw [exec_registerItem]
  rcases hk : r.items k with _ | t
  · rcases create with e | t
    · exact ⟨hr, Grows.refl n r⟩
    · exact ⟨sound_setItem hr, grows_setItem hk⟩
  · exact ⟨hr, Grows.refl n r⟩

/-- **Registration of an item extends the registry.** -/
theorem keeps_registerItem (k : κ) (create : Except ε T) :
    Keeps (Under Sound Extends) (registerItem k create) :=
  fun r hr => keeps_registerItem_grows r.heap.length k create r hr

variable [DecidableEq T]

theorem keeps_fillElements {n id : ℕ} (hn : n ≤ id) (elements : List (κ × Except ε T)) :
    Keeps (Under Sound (Grows n)) (fillElements id elements) := by
  refine keeps_forM fun element _ => keeps_bind (keeps_registerItem_grows n _ _) fun t => ?_
  exact keeps_modify fun r hr => ⟨sound_addMember hr fun _ h => (nomatch List.mem_singleton.mp h),
    grows_addMember hn⟩

/-- **Registration of a group of new items extends the registry.** -/
theorem keeps_registerMulti (k : κ) (elements : List (κ × Except ε T)) :
    Keeps (Under Sound Extends) (registerMulti k elements) := by
  intro r hr
  rw [registerMulti, exec_get_bind]
  rcases hk : r.groups k with _ | id
  · simp only [exec_modify_bind, exec_bind_pure_snd]
    have hfill := keeps_fillElements (le_refl r.heap.length) elements (r.newGroup k)
      (sound_newGroup hr hk)
    exact ⟨hfill.1, (grows_newGroup hk).trans hfill.2⟩
  · exact ⟨hr, Grows.refl _ r⟩

/-- A new group is filled after it was cached. -/
theorem returns_registerMulti {k : κ} {elements : List (κ × Except ε T)} {r r' : Registry κ T}
    {id : ℕ} (h : Returns (registerMulti k elements) r id r') :
    (r.groups k = some id ∧ r' = r) ∨ (r.groups k = none ∧ id = r.heap.length ∧
      Returns (fillElements id elements) (r.newGroup k) ⟨⟩ r') := by
  rw [registerMulti, Returns, exec_get_bind] at h
  rcases hk : r.groups k with _ | id'
  · simp only [hk, exec_modify_bind] at h
    obtain ⟨_, t, hfill, hpure⟩ := returns_bind.mp h
    obtain ⟨rfl, rfl⟩ := returns_pure.mp hpure
    exact Or.inr ⟨rfl, rfl, hfill⟩
  · simp only [hk] at h
    obtain ⟨rfl, rfl⟩ := returns_pure.mp h
    exact Or.inl ⟨rfl, rfl⟩

/-- The group that is returned is cached under the name. -/
theorem groups_of_registerMulti {k : κ} {elements : List (κ × Except ε T)} {r r' : Registry κ T}
    (hr : r.Sound) {id : ℕ} (h : Returns (registerMulti k elements) r id r') :
    r'.groups k = some id := by
  rcases returns_registerMulti h with ⟨hk, rfl⟩ | ⟨hk, rfl, hfill⟩
  · exact hk
  · have hgrows := (keeps_fillElements (le_refl r.heap.length) elements).returns hfill
      (sound_newGroup hr hk)
    exact hgrows.2.groups k _ (Function.update_self ..)

/-! ### Registrations that raise -/

/-- An element that is not cached cannot be created. -/
def Fails (r : Registry κ T) (elements : List (κ × Except ε T)) : Prop :=
  ∃ element ∈ elements, r.items element.1 = none ∧ ∃ e, element.2 = .error e

omit [DecidableEq κ] [DecidableEq T] in
theorem fails_cons {r : Registry κ T} {element : κ × Except ε T}
    {elements : List (κ × Except ε T)} : Fails r (element :: elements) ↔
      (r.items element.1 = none ∧ ∃ e, element.2 = .error e) ∨ Fails r elements :=
  List.exists_mem_cons_iff ..

omit [DecidableEq κ] [DecidableEq T] in
/-- Only what is cached under the names of the elements matters. -/
theorem fails_congr {r r' : Registry κ T} {elements : List (κ × Except ε T)}
    (h : ∀ element ∈ elements, r'.items element.1 = r.items element.1) :
    Fails r' elements ↔ Fails r elements :=
  exists_congr fun element => and_congr_right fun hmem => by rw [h element hmem]

theorem exec_fillElements_cons (id : ℕ) (element : κ × Except ε T)
    (elements : List (κ × Except ε T)) (r : Registry κ T) :
    exec (fillElements id (element :: elements)) r =
      match exec (registerItem element.1 element.2) r with
      | (.ok t, r') => exec (fillElements id elements) (r'.addMember id (.item t))
      | (.error e, r') => (.error e, r') := by
  have hcons : (fillElements id (element :: elements) : Program (Registry κ T) ε PUnit) = (do
      let t ← registerItem element.1 element.2
      modify fun r => r.addMember id (.item t)) >>= fun _ => fillElements id elements := rfl
  rw [hcons]
  rcases hrun : exec (registerItem element.1 element.2) r with ⟨e | t, r'⟩
  · exact exec_bind_error (exec_bind_error hrun)
  · exact exec_bind_ok ((exec_bind_ok hrun).trans (exec_modify ..))

/-- **Filling a group raises exactly when an element that is not cached cannot be created**, if
the elements have different names. -/
theorem raises_fillElements_iff {id : ℕ} {elements : List (κ × Except ε T)}
    (hnames : (elements.map Prod.fst).Nodup) {r : Registry κ T} :
    (∃ e r', exec (fillElements id elements) r = (.error e, r')) ↔ Fails r elements := by
  induction elements generalizing r with
  | nil =>
    refine iff_of_false (fun ⟨e, r', h⟩ => nomatch (Prod.mk.inj h).1) ?_
    exact fun ⟨element, hmem, _⟩ => absurd hmem List.not_mem_nil
  | cons element elements ih =>
    obtain ⟨k, create⟩ := element
    obtain ⟨hk, hrest⟩ := List.nodup_cons.mp hnames
    rw [exec_fillElements_cons, exec_registerItem, fails_cons]
    rcases hitem : r.items k with _ | t
    · cases create with
      | error e => exact iff_of_true ⟨e, r, rfl⟩ (Or.inl ⟨rfl, e, rfl⟩)
      | ok t =>
        refine (ih hrest).trans ?_
        rw [or_iff_right (fun h => nomatch h.2)]
        refine fails_congr fun element hmem => ?_
        have hne : element.1 ≠ k := by
          rintro rfl
          exact hk (List.mem_map.mpr ⟨element, hmem, rfl⟩)
        rw [items_addMember, items_setItem, Function.update_of_ne hne]
    · refine (ih hrest).trans ?_
      rw [or_iff_right (fun h => nomatch h.1)]
      exact fails_congr fun _ _ => rfl

theorem raises_registerMulti_iff {k : κ} {elements : List (κ × Except ε T)}
    (hnames : (elements.map Prod.fst).Nodup) {r : Registry κ T} :
    (∃ e r', exec (registerMulti k elements) r = (.error e, r')) ↔
      r.groups k = none ∧ Fails r elements := by
  rw [registerMulti, exec_get_bind]
  rcases hk : r.groups k with _ | id
  · have hfails : Fails (r.newGroup k) elements ↔ Fails r elements := fails_congr fun _ _ => rfl
    have hraises := @raises_fillElements_iff κ T ε _ _ r.heap.length elements hnames (r.newGroup k)
    rw [← hfails, ← hraises, and_iff_right rfl]
    simp only [exec_modify_bind]
    rcases hfill : exec (fillElements r.heap.length elements) (r.newGroup k) with ⟨e | _, r'⟩
    · rw [exec_bind_error hfill]
      exact iff_of_true ⟨e, r', rfl⟩ ⟨e, r', rfl⟩
    · rw [exec_bind_ok hfill]
      exact iff_of_false (fun ⟨_, _, h⟩ => nomatch (Prod.mk.inj h).1)
        (fun ⟨_, _, h⟩ => nomatch (Prod.mk.inj h).1)
  · exact iff_of_false (fun ⟨_, _, h⟩ => nomatch (Prod.mk.inj h).1) (fun h => nomatch h.1)

/-- Filling a group leaves the names of the groups alone. -/
theorem keeps_groups_fillElements (id : ℕ) (elements : List (κ × Except ε T)) :
    Keeps (Through groups Eq) (fillElements id elements : Program (Registry κ T) ε PUnit) := by
  refine keeps_forM fun element _ => keeps_bind (fun r => ?_) fun t => keeps_modify fun r => rfl
  rw [exec_registerItem]
  rcases r.items element.1 with _ | t
  · rcases element.2 with e | t <;> rfl
  · rfl

/-- **A registration that raises leaves its group in the cache.** -/
theorem groups_of_raised {k : κ} {elements : List (κ × Except ε T)} {r r' : Registry κ T} {e : ε}
    (h : exec (registerMulti k elements) r = (.error e, r')) :
    r.groups k = none ∧ r'.groups k = some r.heap.length := by
  rw [registerMulti, exec_get_bind] at h
  rcases hk : r.groups k with _ | id
  · simp only [hk, exec_modify_bind] at h
    have hsame := keeps_groups_fillElements r.heap.length elements (r.newGroup k)
    rcases hfill : exec (fillElements r.heap.length elements) (r.newGroup k) with ⟨e' | _, t⟩
    · rw [exec_bind_error hfill] at h
      obtain rfl := (Prod.mk.inj h).2
      rw [hfill] at hsame
      have hgroups : (r.newGroup k).groups = t.groups := hsame
      exact ⟨rfl, hgroups ▸ Function.update_self ..⟩
    · rw [exec_bind_ok hfill] at h
      exact nomatch (Prod.mk.inj h).1
  · simp only [hk] at h
    exact nomatch (Prod.mk.inj h).1

/-- The last group, which is being filled, is cached under `k`. -/
structure Filling (k : κ) (id : ℕ) (r : Registry κ T) : Prop where
  sound : r.Sound
  cached : r.groups k = some id
  last : r.heap.length = id + 1

omit [DecidableEq κ] [DecidableEq T] in
/-- Another name only has an older group cached. -/
theorem Filling.below_lookup {k name : κ} {id : ℕ} {r : Registry κ T} (h : Filling k id r)
    (hne : name ≠ k) {member : Member T} (hlookup : r.lookup name = some member) :
    Below id [member] := by
  intro j hj
  obtain rfl := List.mem_singleton.mp hj
  rw [lookup] at hlookup
  rcases hitem : r.items name with _ | t
  · rw [hitem] at hlookup
    obtain ⟨j', hgroup, hj'⟩ := Option.map_eq_some_iff.mp hlookup
    obtain rfl := Member.group.inj hj'
    have hlt := h.sound.lt_length hgroup
    rw [h.last, Nat.lt_succ_iff] at hlt
    refine hlt.lt_of_ne ?_
    rintro rfl
    obtain ⟨cell, hcell, hname⟩ := h.sound.named name j' hgroup
    obtain ⟨cell', hcell', hname'⟩ := h.sound.named k j' h.cached
    obtain rfl := Option.some.inj (hcell.symm.trans hcell')
    exact hne (hname.symm.trans hname')
  · rw [hitem] at hlookup
    exact nomatch Option.some.inj hlookup

omit [DecidableEq κ] in
theorem keeps_fillMembers {n id : ℕ} {k : κ} (hn : n ≤ id) {members : List κ} (hk : k ∉ members) :
    Keeps (Under (Filling k id) (Grows n))
      (fillMembers id members : Program (Registry κ T) ε PUnit) := by
  refine keeps_forM fun name hname r hr => ?_
  rw [exec_get_bind]
  rcases hlookup : r.lookup name with _ | member
  · simp only [exec_pure]
    exact ⟨hr, Grows.refl n r⟩
  · have hbelow := hr.below_lookup (fun h => hk (h ▸ hname)) hlookup
    simp only [exec_modify]
    exact ⟨⟨sound_addMember hr.sound hbelow, hr.cached, length_addMember.trans hr.last⟩,
      grows_addMember hn⟩

/-- **Registration of a group of cached members extends the registry**, when the group is not
its own member. -/
theorem keeps_registerGroup {k : κ} {members : List κ} (hk : k ∉ members) :
    Keeps (Under Sound Extends) (registerGroup k members : Program (Registry κ T) ε ℕ) := by
  intro r hr
  rw [registerGroup, exec_get_bind]
  rcases hcached : r.groups k with _ | id
  · simp only [exec_modify_bind, exec_bind_pure_snd]
    have hfilling : Filling k r.heap.length (r.newGroup k) :=
      ⟨sound_newGroup hr hcached, Function.update_self .., List.length_append⟩
    have hfill : Under (Filling k r.heap.length) (Grows r.heap.length) (r.newGroup k)
        (exec (fillMembers r.heap.length members : Program _ ε PUnit) (r.newGroup k)).2 :=
      keeps_fillMembers le_rfl hk (r.newGroup k)
    exact ⟨(hfill hfilling).1.sound, (grows_newGroup hcached).trans (hfill hfilling).2⟩
  · exact ⟨hr, Grows.refl _ r⟩

end RulesAnalyzer.Shared
