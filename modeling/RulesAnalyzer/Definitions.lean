import RulesAnalyzer.Contents
import RulesAnalyzer.FirewallFactory

/-!
# The definitions of the store

What the addresses, the services and the applications of the store contain, as sets
of packets, and the names of a row that are loaded into the caches of the network.

## Main definitions

* `valuedReading`, `valuedScope` — objects that list values.
* `Network.addressSet`, `Network.serviceSet` — the packets of a text.

## Main results

* `describes_valued` — **objects that list values are registered as the store defines them.**
-/

namespace RulesAnalyzer

open Effect Shared

/-! ### Objects that list values -/

section Valued

variable {T P : Type} (create : String → String → Except Fault T)
  (isLiteral : String → Except Fault Bool) (resolver : GenericResolver ValuedObject)
  (den : T → Set P) (contains : String → Set P) (start : Registry String T) (names : Set String)

/-- An object with several values is registered as a group, its values under generated names. -/
def valuedReading : Reading ValuedObject P where
  literal := contains
  key := ValuedObject.name
  isGroup object := object.values.length > 1
  elements object :=
    if object.values.length > 1 then
      object.values.zipIdx.map fun value => (indexedName object.name value.2, contains value.1)
    else object.values.map fun value => (object.name, contains value)

/-- Names of values that are loaded. -/
def valuedScope [DecidableEq T] : Scope (Registry String T) T ValuedObject P :=
  ⟨valuedReference create isLiteral resolver, valuedReading contains, den, start, names⟩

/-- All values of the objects that are registered as new groups can be read, or are cached. -/
def Scope.Decodes {σ : Type} (scope : Scope σ T ValuedObject P) : Prop := ∀ name object,
  scope.Looked name → scope.reference.resolver.objects name = some object →
  object.values.length > 1 → scope.start.groups object.name = none →
  ∀ value ∈ object.values.zipIdx,
    (∃ t, create (indexedName object.name value.2) value.1 = .ok t) ∨
      scope.start.items (indexedName object.name value.2) ≠ none

variable {create isLiteral resolver den contains start names}

theorem object_valuedReading_group {object : ValuedObject} (h : object.values.length > 1) :
    (valuedReading contains).object object =
      {p | ∃ value ∈ object.values.zipIdx, p ∈ contains value.1} := by
  ext p
  simp [Reading.object, valuedReading, if_pos h]

theorem object_valuedReading_item {object : ValuedObject} {value : String}
    (h : object.values = [value]) : (valuedReading contains).object object = contains value := by
  ext p
  have hone : ¬[value].length > 1 := Nat.lt_irrefl 1
  simp only [Reading.object, valuedReading, h, if_neg hone, Set.mem_ofPred_eq, List.map_singleton,
    List.mem_singleton, exists_eq_left]

/-- A value is registered, when the cache may hold it under the name. -/
theorem triple_registerValue {scope : Scope (Registry String T) T ValuedObject P}
    (hc : scope.Consistent) {E : Registry String T → Prop} (hraised : ∀ r, scope.Inv r → E r)
    {k value : String} {S : Set P} (hcaches : scope.Caches k S)
    (hcreate : ∀ t, create k value = .ok t → scope.den t = S) :
    Triple scope.Inv (registerValue create k value)
      (fun t r => scope.Inv r ∧ r.items k = some t ∧ scope.den t = S) E := by
  intro r hr
  rw [registerValue, exec_registerItem]
  rcases hitem : r.items k with _ | t
  · rcases hvalue : create k value with fault | t
    · exact hraised r hr
    · have hden := hcreate t hvalue
      refine ⟨hr.setItem hitem (hden ▸ hcaches), ?_, hden⟩
      rw [Registry.items_setItem, Function.update_self]
  · exact ⟨hr, hitem, hr.den_item hc hcaches hitem⟩

/-- Several values are registered as a group, when the cache may hold the group and its
elements. -/
theorem triple_registerValues [DecidableEq T] {scope : Scope (Registry String T) T ValuedObject P}
    (hc : scope.Consistent) {E : Registry String T → Prop} {name : String} {values : List String}
    (hcaches : scope.CachesGroup name {p | ∃ value ∈ values.zipIdx, p ∈ contains value.1})
    (helement : scope.start.groups name = none → ∀ value ∈ values.zipIdx,
      scope.Caches (indexedName name value.2) (contains value.1))
    (hcreate : ∀ value ∈ values.zipIdx, ∀ t,
      create (indexedName name value.2) value.1 = .ok t → scope.den t = contains value.1)
    (hraise : scope.start.groups name = none → ∀ value ∈ values.zipIdx, ∀ fault,
      create (indexedName name value.2) value.1 = .error fault →
      ∀ r : Registry String T, scope.ItemsInv r.items →
        r.items (indexedName name value.2) = none → E r) :
    Triple scope.Inv (registerValues create name values)
      (fun id r => scope.Inv r ∧ r.groups name = some id ∧
        r.meaning scope.den (.group id) = {p | ∃ value ∈ values.zipIdx, p ∈ contains value.1})
      E := by
  intro r hr
  rcases hcached : r.groups name with _ | id
  · -- a new group
    have hstart : scope.start.groups name = none := by
      rcases hsome : scope.start.groups name with _ | id
      · rfl
      · exact absurd ((hr.extended.groups _ _ hsome).symm.trans hcached) (Option.some_ne_none id)
    -- one element after the other; an element that is cached is used again, so it must agree
    have hmulti := @registerMulti_meaning _ _ _ _ _ _ scope.den _
      (fun value : String × ℕ => (indexedName name value.2,
        create (indexedName name value.2) value.1)) (fun value => contains value.1)
      scope.ItemsInv E values.zipIdx
      (fun value hvalue items hitems t ht =>
        hc.den_item (helement hstart value hvalue) (hitems.allowed _ t ht))
      (fun value hvalue items hitems hnone t ht => by
        have hden := hcreate value hvalue t ht
        exact ⟨hden, hitems.update hnone (hden ▸ helement hstart value hvalue)⟩)
      (hraise hstart) name r hr.itemsInv hcached
    have hkeeps := keeps_registerMulti name (indexedElements create name values) r hr.sound
    refine (hmulti.and_state (R := fun r' => r'.Sound ∧ r.Extends r') hkeeps).mono ?_ fun _ h => h
    rintro _ r' ⟨⟨rfl, hitems, hgroups, hmeaning⟩, hsound, hext⟩
    refine ⟨hr.newGroup hsound hext hitems.allowed hgroups (hmeaning ▸ hcaches), ?_, hmeaning⟩
    rw [hgroups, Function.update_self]
  · -- a cached group
    have hrun : exec (registerValues create name values) r = (.ok id, r) := by
      rw [registerValues, registerMulti, exec_get_bind, hcached]
      rfl
    rw [hrun]
    exact ⟨hr, hcached, hr.meaning_group hc hcaches hcached⟩

section Describes

variable [DecidableEq T] {E : Registry String T → Prop}
  (hcreate : ∀ name value t, create name value = .ok t → den t = contains value)
  (hc : (valuedScope create isLiteral resolver den contains start names).Consistent)

include hcreate hc

/-- An object with several values is registered as a group.  Its elements are cached under
indexed names, of which none may have been taken with another meaning. -/
theorem triple_registerValues_object
    (hdecodes : (∀ r, E r) ∨
      (valuedScope create isLiteral resolver den contains start names).Decodes create)
    {name : String} {object : ValuedObject}
    (hlooked : (valuedScope create isLiteral resolver den contains start names).Looked name)
    (hobject : resolver.objects name = some object) (hgroup : object.values.length > 1) :
    Triple (valuedScope create isLiteral resolver den contains start names).Inv
      (registerValues create object.name object.values)
      (fun id r => (valuedScope create isLiteral resolver den contains start names).Inv r ∧
        (valuedScope create isLiteral resolver den contains start names).Ready r name (.group id))
      E := by
  have hkind : (valuedReading contains).isGroup object = true := decide_eq_true hgroup
  have hset := @object_valuedReading_group _ contains object hgroup
  refine (@triple_registerValues _ _ create contains _ _ hc E object.name object.values
    (hset ▸ .object hlooked hobject hkind) (fun hstart value hvalue => ?_)
    (fun value _ t ht => hcreate _ _ t ht)
    (fun hstart value hvalue fault hfault r hr hnone => ?_)).mono (fun _ hs => hs)
    (fun id r hr => ⟨hr.1, .group hobject hkind hr.2.1 (hr.2.2.trans hset.symm)⟩) fun _ hs => hs
  · -- each value is cached under its indexed name
    refine .element (e := (indexedName object.name value.2, contains value.1)) hlooked hobject
      (fun _ => hstart) ?_
    simp only [valuedScope, valuedReading, if_pos hgroup]
    exact List.mem_map_of_mem (f := fun value : String × ℕ =>
      (indexedName object.name value.2, contains value.1)) hvalue
  · -- a value that cannot be read is cached already
    rcases hdecodes with hall | hdecodes
    · exact hall r
    · rcases hdecodes name object hlooked hobject hgroup hstart value hvalue with
        ⟨t, ht⟩ | hsome
      · cases hfault.symm.trans ht
      · obtain ⟨t, ht⟩ := Option.ne_none_iff_exists'.mp hsome
        exact absurd ((hr.extended _ _ ht).symm.trans hnone) (Option.some_ne_none t)

variable (hraised : ∀ r,
  (valuedScope create isLiteral resolver den contains start names).Inv r → E r)

include hraised

/-- An object with one value is registered as the value, under the name of the object. -/
theorem triple_registerValue_object {name value : String} {object : ValuedObject}
    (hlooked : (valuedScope create isLiteral resolver den contains start names).Looked name)
    (hobject : resolver.objects name = some object) (hvalues : object.values = [value]) :
    Triple (valuedScope create isLiteral resolver den contains start names).Inv
      (registerValue create object.name value)
      (fun t r => (valuedScope create isLiteral resolver den contains start names).Inv r ∧
        (valuedScope create isLiteral resolver den contains start names).Ready r name (.item t))
      E := by
  have hkind : (valuedReading contains).isGroup object = false :=
    decide_eq_false (by simp [hvalues])
  have hcaches : (valuedScope create isLiteral resolver den contains start names).Caches
      object.name (contains value) := by
    refine .element (e := (object.name, contains value)) hlooked hobject ?_ ?_
    · exact fun h => absurd (hkind.symm.trans h) Bool.false_ne_true
    · simp only [valuedScope, valuedReading, hvalues]
      exact List.mem_singleton_self _
  refine (triple_registerValue hc hraised hcaches fun t ht => hcreate _ _ t ht).mono
    (fun _ hs => hs) (fun t r hr => ⟨hr.1, ?_⟩) fun _ hs => hs
  exact .item hobject hkind hr.2.1 (hr.2.2.trans (object_valuedReading_item hvalues).symm)

/-- **Objects that list values are registered as the store defines them.** -/
theorem describes_valued
    (hdecodes : (∀ r, E r) ∨
      (valuedScope create isLiteral resolver den contains start names).Decodes create) :
    (valuedScope create isLiteral resolver den contains start names).Describes id
      (fun _ => True) E (Under Registry.Sound Registry.Extends) where
  keeping := keeping_valuedReference create isLiteral resolver
  extended _ _ hs hR := (hR hs.2.sound).2
  raised r hr := hraised r hr.2
  literal name hname hliteral := by
    refine (triple_registerValue hc hraised (.literal hname hliteral)
      fun t ht => hcreate _ _ t ht).mono (fun _ hs => hs.2) (fun t r hr => ?_) (fun _ hs => hs)
    exact ⟨⟨trivial, hr.1⟩, hr.2.2⟩
  object name object hlooked hobject := by
    show Triple _ (registerValued create object) _ _
    unfold registerValued
    split
    · next hgroup =>
      -- several values are a group
      have htriple := triple_registerValues_object hcreate hc hdecodes hlooked hobject hgroup
      exact triple_map (htriple.mono (fun _ hs => hs.2) (fun id r hr => ⟨⟨trivial, hr.1⟩, hr.2⟩)
        fun _ hs => hs)
    · next hgroup =>
      rcases hvalues : object.values with _ | ⟨value, rest⟩
      · -- an object without values
        exact triple_throw fun r hr => hraised r hr.2
      · -- one value is an item under the name of the object
        have hrest : rest = [] := by
          rw [hvalues, List.length_cons] at hgroup
          exact List.length_eq_zero_iff.mp (by omega)
        subst hrest
        have htriple := triple_registerValue_object hcreate hc hraised hlooked hobject hvalues
        show Triple _ (Member.item <$> registerValue create object.name value) _ _
        exact triple_map (htriple.mono (fun _ hs => hs.2) (fun t r hr => ⟨⟨trivial, hr.1⟩, hr.2⟩)
          fun _ hs => hs)
  pool pool r := by
    obtain ⟨id, hrun⟩ := @exec_registerGroup_ok _ _ Fault _ _ pool.name pool.members r
    exact ⟨_, exec_bind_ok hrun, rfl, fun _ h => h⟩
  getGroup _ _ := rfl

end Describes

/-! Names in a list that is closed under the members of pools. -/

section Listed

/-- The names that the values of a name are registered under, when they get names of their own. -/
def elementNames (resolver : GenericResolver ValuedObject) (name : String) : List String :=
  match resolver.objects name with
  | some object =>
    if object.values.length > 1 then
      object.values.zipIdx.map fun value => indexedName object.name value.2
    else []
  | none => []

/-- All names that are loaded are literals or in the list.  The list has with a pool its members,
all its names are found, and no two keys of them are the same. -/
structure Listed (isLiteral : String → Except Fault Bool) (resolver : GenericResolver ValuedObject)
    (names : Set String) (list : List String) : Prop where
  roots : ∀ name ∈ names, isLiteral name = .ok false → name ∈ list
  members : ∀ name ∈ list, ∀ pool, resolver.pool name = some pool →
    ∀ member ∈ pool.members, member ∈ list
  found : ∀ name ∈ list, resolver.Found name
  own : ∀ name ∈ list, ∀ object, resolver.objects name = some object → object.name = name
  apart : (list ++ list.flatMap (elementNames resolver)).Nodup
  literals : ∀ name ∈ names, isLiteral name = .ok true →
    name ∉ list ++ list.flatMap (elementNames resolver)

/-- The elements of the names that are registered as groups. -/
def listedElements (resolver : GenericResolver ValuedObject) (contains : String → Set P)
    (list : List String) : List (String × Set P) :=
  list.flatMap fun name => match resolver.objects name with
    | some object =>
      if object.values.length > 1 then
        object.values.zipIdx.map fun value => (indexedName object.name value.2, contains value.1)
      else []
    | none => []

theorem map_fst_listedElements (list : List String) :
    (listedElements resolver contains list).map Prod.fst =
      list.flatMap (elementNames resolver) := by
  rw [listedElements, List.map_flatMap]
  congr
  funext name
  rw [elementNames]
  rcases resolver.objects name with _ | object
  · rfl
  · dsimp only
    split
    · rw [List.map_map]
      rfl
    · rfl

variable {list : List String} (h : Listed isLiteral resolver names list)

include h

theorem Listed.notMem_names (contains : String → Set P) {k : String} (hk : k ∈ names)
    (hliteral : isLiteral k = .ok true) :
    k ∉ list ∧ ∀ S, (k, S) ∉ listedElements resolver contains list := by
  have hnot := h.literals k hk hliteral
  rw [List.mem_append, not_or] at hnot
  refine ⟨hnot.1, fun S hS => hnot.2 ?_⟩
  rw [← @map_fst_listedElements _ resolver contains]
  exact List.mem_map_of_mem hS

theorem Listed.notMem_elements {k : String} (hk : k ∈ list) (S : Set P) :
    (k, S) ∉ listedElements resolver contains list := by
  intro hS
  refine (List.nodup_append.mp h.apart).2.2 k hk k ?_ rfl
  rw [← @map_fst_listedElements _ resolver contains]
  exact List.mem_map_of_mem hS

variable [DecidableEq T]

theorem Listed.looked {name : String}
    (hlooked : (valuedScope create isLiteral resolver den contains start names).Looked name) :
    name ∈ list := by
  obtain ⟨root, hroot, hliteral, hreaches⟩ := hlooked
  have hmem := h.roots root hroot hliteral
  clear hroot hliteral
  induction hreaches with
  | self => exact hmem
  | member hobject hpool hmember _ ih => exact ih (h.members _ hmem _ hpool _ hmember)

/-- A name puts what it means under its own key, or its elements under theirs.  So the keys of a
list of names can be listed. -/
theorem Listed.caches {k : String} {S : Set P}
    (hcaches : (valuedScope create isLiteral resolver den contains start names).Caches k S) :
    (k ∈ names ∧ isLiteral k = .ok true ∧ S = contains k) ∨
      (k ∈ list ∧ ∃ value, resolver.objects k = some ⟨k, [value]⟩ ∧ S = contains value) ∨
      (k, S) ∈ listedElements resolver contains list := by
  cases hcaches with
  | literal hname hliteral => exact Or.inl ⟨hname, hliteral, rfl⟩
  | @element name object e hlooked hobject hnew he =>
    have hname := h.looked hlooked
    have hown := h.own name hname object hobject
    refine Or.inr ?_
    by_cases hgroup : object.values.length > 1
    · simp only [valuedScope, valuedReading, if_pos hgroup] at he
      refine Or.inr (List.mem_flatMap.mpr ⟨name, hname, ?_⟩)
      have hobject' : resolver.objects name = some object := hobject
      rw [hobject']
      simp only [if_pos hgroup]
      exact he
    · simp only [valuedScope, valuedReading, if_neg hgroup] at he
      obtain ⟨value, hvalue, rfl⟩ := List.mem_map.mp he
      -- the object has no second value, so its only value is the one that is meant
      obtain ⟨first, hvalues⟩ : ∃ first, object.values = [first] :=
        List.length_eq_one_iff.mp (by have := List.length_pos_of_mem hvalue; omega)
      rw [hvalues] at hvalue
      obtain rfl := List.mem_singleton.mp hvalue
      obtain ⟨key, values⟩ := object
      obtain rfl : key = name := hown
      obtain rfl : values = [value] := hvalues
      exact Or.inl ⟨hname, value, hobject, rfl⟩

theorem Listed.caches_unique {k : String} {S S' : Set P}
    (hS : (valuedScope create isLiteral resolver den contains start names).Caches k S)
    (hS' : (valuedScope create isLiteral resolver den contains start names).Caches k S') :
    S = S' := by
  rcases h.caches hS with ⟨hk, hliteral, rfl⟩ | ⟨hk, value, hobject, rfl⟩ | helement
  · obtain ⟨hlist, helements⟩ := h.notMem_names contains hk hliteral
    rcases h.caches hS' with ⟨-, -, rfl⟩ | ⟨hk', -⟩ | helement'
    · rfl
    · exact absurd hk' hlist
    · exact absurd helement' (helements S')
  · rcases h.caches hS' with ⟨hk', hliteral, -⟩ | ⟨-, value', hobject', rfl⟩ | helement'
    · exact absurd hk (h.notMem_names contains hk' hliteral).1
    · obtain ⟨-, hvalues⟩ := ValuedObject.mk.inj (Option.some.inj (hobject.symm.trans hobject'))
      rw [(List.cons.inj hvalues).1]
    · exact absurd helement' (h.notMem_elements hk S')
  · rcases h.caches hS' with ⟨hk', hliteral, -⟩ | ⟨hk', -⟩ | helement'
    · exact absurd helement ((h.notMem_names contains hk' hliteral).2 S)
    · exact absurd helement (h.notMem_elements hk' S)
    · have hnodup : ((listedElements resolver contains list).map Prod.fst).Nodup := by
        rw [map_fst_listedElements]
        exact (List.nodup_append.mp h.apart).2.1
      exact (Prod.mk.inj (List.inj_on_of_nodup_map hnodup helement helement' rfl)).2

theorem Listed.caches_name {name : String} (hname : name ∈ list) {S : Set P}
    (hcaches : (valuedScope create isLiteral resolver den contains start names).Caches name S) :
    S = (valuedReading contains).contents resolver name := by
  rcases h.caches hcaches with ⟨hk, hliteral, -⟩ | ⟨-, value, hobject, rfl⟩ | helement
  · exact absurd hname (h.notMem_names contains hk hliteral).1
  · exact ((Reading.contents_object hobject).trans (object_valuedReading_item rfl)).symm
  · exact absurd helement (h.notMem_elements hname S)

theorem Listed.cachesGroup {k : String} {S : Set P}
    (hcaches :
      (valuedScope create isLiteral resolver den contains start names).CachesGroup k S) :
    k ∈ list ∧ S = (valuedReading contains).contents resolver k := by
  cases hcaches with
  | @object name object hlooked hobject _ =>
    have hname := h.looked hlooked
    obtain rfl : object.name = name := h.own name hname object hobject
    exact ⟨hname, (Reading.contents_object hobject).symm⟩
  | pool hlooked _ _ => exact ⟨h.looked hlooked, rfl⟩

/-- **Names of a list do not meet in the caches**, as long as those that are cached at the start
are objects with one value and mean the same. -/
theorem Listed.consistent
    (hitems : ∀ k ∈ list, ∀ t, start.items k = some t →
      ∃ value, resolver.objects k = some ⟨k, [value]⟩ ∧ den t = contains value)
    (helements : ∀ k ∈ list.flatMap (elementNames resolver), start.items k = none)
    (hliterals : ∀ k ∈ names, isLiteral k = .ok true → ∀ t, start.items k = some t →
      den t = contains k)
    (hgroups : ∀ k ∈ list, start.groups k = none) :
    (valuedScope create isLiteral resolver den contains start names).Consistent where
  caches _ _ _ := h.caches_unique
  items k S t hS ht := by
    -- a key is a literal, an object with one value, or an element
    rcases h.caches hS with ⟨hk, hliteral, rfl⟩ | ⟨hk, value, hobject, rfl⟩ | helement
    · exact hliterals k hk hliteral t ht
    · obtain ⟨value', hobject', hden⟩ := hitems k hk t ht
      obtain ⟨-, hvalues⟩ := ValuedObject.mk.inj (Option.some.inj (hobject.symm.trans hobject'))
      exact hden.trans (congrArg contains (List.cons.inj hvalues).1.symm)
    · have hk : k ∈ list.flatMap (elementNames resolver) := by
        rw [← @map_fst_listedElements _ resolver contains]
        exact List.mem_map_of_mem helement
      exact nomatch (helements k hk).symm.trans ht
  cachesGroup k S S' hS hS' := by rw [(h.cachesGroup hS).2, (h.cachesGroup hS').2]
  groups k S id hS hid := nomatch (hgroups k (h.cachesGroup hS).1).symm.trans hid
  named name object hnew hobject := by
    obtain ⟨root, pool, hlooked, -, hpool, -, hmember⟩ := hnew
    exact h.own name (h.members root (h.looked hlooked) pool hpool name hmember) object hobject
  unshadowed name hnew := by
    obtain ⟨root, pool, hlooked, -, hpool, -, hmember⟩ := hnew
    have hname := h.members root (h.looked hlooked) pool hpool name hmember
    refine ⟨fun t ht => ?_, fun S hS => h.caches_name hname hS⟩
    obtain ⟨value, hobject, hden⟩ := hitems name hname t ht
    exact hden.trans ((Reading.contents_object hobject).trans (object_valuedReading_item rfl)).symm
  missing name hnew hmissing := by
    obtain ⟨root, pool, hlooked, -, hpool, -, hmember⟩ := hnew
    have hname := h.members root (h.looked hlooked) pool hpool name hmember
    exact absurd (h.found name hname) hmissing

/-- All values of the list are read when they are registered. -/
theorem Listed.decodes
    (hreads : ∀ name ∈ list, ∀ object, resolver.objects name = some object →
      object.values.length > 1 → ∀ value ∈ object.values.zipIdx,
        ∃ t, create (indexedName object.name value.2) value.1 = .ok t) :
    (valuedScope create isLiteral resolver den contains start names).Decodes create :=
  fun name object hlooked hobject hlength _ value hvalue =>
    Or.inl (hreads name (h.looked hlooked) object hobject hlength value hvalue)

end Listed

end Valued

/-! ### Addresses and services -/

/-- The value of a text: what the text reads as, or else the builtin object of that name. -/
def textValue {T : Type} (create : String → String → Except Fault T) (builtin : String → Option T)
    (text : String) : Option T :=
  match create text text with
  | .ok t => some t
  | .error _ => builtin text

section TextValue

variable {T : Type} {create : String → String → Except Fault T} {builtin : String → Option T}
  {text : String}

theorem textValue_of_create {t : T} (h : create text text = .ok t) :
    textValue create builtin text = some t := by rw [textValue, h]

theorem textValue_of_builtin (h : (create text text).toOption = none) :
    textValue create builtin text = builtin text := by
  rcases hcreate : create text text with fault | t
  · rw [textValue, hcreate]
  · rw [hcreate] at h
    exact nomatch h

end TextValue

namespace Network

variable (config : ModelConfig) (side : Side)

/-- The packets with an address of the text. -/
def addressSet (text : String) : Set Packet :=
  {pk | ∃ address : IpAddress side, textValue (createAddress config side)
    (freshRegistry config (.address side)).items text = some address ∧ address.Holds pk}

/-- The packets of a service of the text. -/
def serviceSet (text : String) : Set Packet :=
  {pk | ∃ service : Service, textValue Service.create (freshRegistry config .service).items text =
    some service ∧ service.Matches pk}

/-- The packets of a registered address. -/
def addressPackets (address : Item (.address side)) : Set Packet :=
  {pk | (address : IpAddress side).Holds pk}

/-- The packets of a registered service. -/
def servicePackets (service : Item .service) : Set Packet := {pk | (service : Service).Matches pk}

variable {config side}

theorem addressSet_eq {text : String} {address : IpAddress side}
    (h : textValue (createAddress config side) (freshRegistry config (.address side)).items text =
      some address) : addressSet config side text = addressPackets side address := by
  ext pk
  constructor
  · intro ⟨address', haddress', hpk⟩
    obtain rfl := Option.some.inj (h.symm.trans haddress')
    exact hpk
  · exact fun hpk => ⟨address, h, hpk⟩

theorem serviceSet_eq {text : String} {service : Service}
    (h : textValue Service.create (freshRegistry config .service).items text = some service) :
    serviceSet config text = servicePackets service := by
  ext pk
  constructor
  · intro ⟨service', hservice', hpk⟩
    obtain rfl := Option.some.inj (h.symm.trans hservice')
    exact hpk
  · exact fun hpk => ⟨service, h, hpk⟩

/-- **An address only depends on its text.** -/
theorem addressPackets_create {name text : String} {address : Item (.address side)}
    (h : createAddress config side name text = .ok address) :
    addressPackets side address = addressSet config side text := by
  obtain ⟨-, hrange⟩ := IpAddress.create_eq_ok.mp h
  have hvalue : createAddress config side text text =
      .ok (⟨text, IpAddress.range address⟩ : IpAddress side) :=
    IpAddress.create_eq_ok.mpr ⟨rfl, hrange⟩
  exact (addressSet_eq (textValue_of_create hvalue)).symm

/-- **A service only depends on its text.** -/
theorem servicePackets_create {name text : String} {service : Item .service}
    (h : Service.create name text = .ok service) :
    servicePackets service = serviceSet config text := by
  obtain ⟨range, hrange, -⟩ := Service.create_eq_ok.mp h
  have hvalue : Service.create text text = .ok (Service.ofProtocol text range.1 range.2) :=
    Service.create_eq_ok.mpr ⟨range, hrange, rfl⟩
  rw [serviceSet_eq (textValue_of_create hvalue)]
  exact Set.ext fun pk => Service.create_matches h hvalue pk

end Network

namespace FirewallFactory

open Network

variable (config : ModelConfig) (store : ObjectStore)

/-- The names of addresses of one side that are loaded. -/
def addressScope (side : Side) (start : Registry String (Item (.address side)))
    (names : Set String) :
    Scope (Registry String (Item (.address side))) (Item (.address side)) ValuedObject Packet :=
  valuedScope (createAddress config side)
    (fun name => .ok (isIpAddress config.inet name config.ipModel config.strictIpParser))
    store.addressResolver (addressPackets side) (addressSet config side) start names

/-- The names of services that are loaded. -/
def serviceScope (start : Registry String (Item .service)) (names : Set String) :
    Scope (Registry String (Item .service)) (Item .service) ValuedObject Packet :=
  valuedScope Service.create isProtocolPort store.serviceResolver servicePackets
    (serviceSet config) start names

variable {config store}

/-- A triple of a program on the registry of one kind. -/
theorem triple_onKindNames {α : Type} {k : Kind}
    {p : Program (Registry String (Item k) × List String) Fault α}
    {P E : Registry String (Item k) → Prop} {Q : α → Registry String (Item k) → Prop}
    (h : Triple (fun s => P s.1) p (fun a s => Q a s.1) (fun s => E s.1)) :
    Triple (fun s => P (s.1.registries k)) (onKindNames k p) (fun a s => Q a (s.1.registries k))
      (fun s => E (s.1.registries k)) := by
  refine triple_zoom h (fun _ hs => hs) (fun s _ a t ht => ?_) (fun s _ t ht => ?_)
  · rwa [registries_setRegistry]
  · rwa [registries_setRegistry]

/-- Names of values of one kind are built into members that mean what the names denote. -/
theorem triple_onKindNames_build {k : Kind} {create : String → String → Except Fault (Item k)}
    {isLiteral : String → Except Fault Bool} {resolver : GenericResolver ValuedObject}
    {den : Item k → Set Packet} {contains : String → Set Packet}
    {start : Registry String (Item k)} {names : Set String} {list : List String}
    {E : Registry String (Item k) → Prop}
    (hcreate : ∀ name value t, create name value = .ok t → den t = contains value)
    (hc : (valuedScope create isLiteral resolver den contains start names).Consistent)
    (hraised : ∀ r, (valuedScope create isLiteral resolver den contains start names).Inv r → E r)
    (hdecodes : (∀ r, E r) ∨
      (valuedScope create isLiteral resolver den contains start names).Decodes create)
    (hnames : ∀ name ∈ list, name ∈ names) :
    Triple (fun s =>
        (valuedScope create isLiteral resolver den contains start names).Inv (s.1.registries k))
      (onKindNames k ((valuedReference create isLiteral resolver).build list))
      (fun members s =>
        (valuedScope create isLiteral resolver den contains start names).Inv (s.1.registries k) ∧
          (valuedScope create isLiteral resolver den contains start names).Means
            (s.1.registries k) list members)
      (fun s => E (s.1.registries k)) := by
  set scope := valuedScope create isLiteral resolver den contains start names
  have hbuild : Triple (fun s => scope.Inv s.1)
      ((valuedReference create isLiteral resolver).build list)
      (fun members s => scope.Inv s.1 ∧ scope.Means s.1 list members) (fun s => E s.1) :=
    (Scope.triple_build (describes_valued hcreate hc hraised hdecodes) hc hnames).mono
      (fun _ hs => ⟨trivial, hs⟩) (fun _ _ hs => ⟨hs.1.2, hs.2⟩) fun _ h => h
  exact triple_onKindNames (P := scope.Inv)
    (Q := fun members r => scope.Inv r ∧ scope.Means r list members) hbuild

/-- **The addresses of a row mean what the names denote.** -/
theorem triple_buildAddressGroup {side : Side} {start : Registry String (Item (.address side))}
    {names : Set String} {addresses : List String}
    {E : Registry String (Item (.address side)) → Prop}
    (hc : (addressScope config store side start names).Consistent)
    (hraised : ∀ r, (addressScope config store side start names).Inv r → E r)
    (hdecodes : (∀ r, E r) ∨ (addressScope config store side start names).Decodes
      (createAddress config side))
    (hnames : ∀ name ∈ addresses, name ∈ names) :
    Triple (fun s => (addressScope config store side start names).Inv (s.1.registries _))
      (buildAddressGroup config store side addresses)
      (fun members s => (addressScope config store side start names).Inv (s.1.registries _) ∧
        (addressScope config store side start names).Means (s.1.registries _) addresses members)
      (fun s => E (s.1.registries _)) :=
  triple_onKindNames_build (fun _ _ _ ht => addressPackets_create ht) hc hraised hdecodes hnames

/-- **The services of a row mean what the names denote.** -/
theorem triple_buildServiceGroup {start : Registry String (Item .service)} {names : Set String}
    {rule : RuleObject} {E : Registry String (Item .service) → Prop}
    (hc : (serviceScope config store start names).Consistent)
    (hraised : ∀ r, (serviceScope config store start names).Inv r → E r)
    (hdecodes : (∀ r, E r) ∨ (serviceScope config store start names).Decodes Service.create)
    (hrule : rule.defaultAppServices = false) (hnames : ∀ name ∈ rule.services, name ∈ names) :
    Triple (fun s => (serviceScope config store start names).Inv (s.1.registries _))
      (buildServiceGroup store rule)
      (fun members s => (serviceScope config store start names).Inv (s.1.registries _) ∧
        (serviceScope config store start names).Means (s.1.registries _) rule.services members)
      (fun s => E (s.1.registries _)) := by
  rw [buildServiceGroup, if_neg (Bool.eq_false_iff.mp hrule)]
  exact triple_onKindNames_build (fun _ _ _ ht => servicePackets_create ht) hc hraised hdecodes
    hnames

end FirewallFactory

end RulesAnalyzer
