import RulesAnalyzer.Shared.Meaning

/-!
# Where registries can have points

A registration of names out of a set only puts something with points into the caches
under the names of the set.  A new group of names has points only when one of its
names has something with points cached, so a name that can only be filled from empty
names stays empty.

## Main definitions

* `Registry.CachedAs` — a member is what is cached under a name.
* `Registry.Within` — only names of a set have something with points in the caches.

## Main results

* `keeps_registerItem_within`, `keeps_registerMulti_within`, `keeps_registerGroup_within` —
  **registrations of names of the set keep the caches within the set.**
-/

namespace RulesAnalyzer.Shared

open Effect

variable {κ T P ε : Type}

namespace Registry

/-- The member is cached under the name. -/
def CachedAs (r : Registry κ T) (k : κ) : Member T → Prop
  | .item t => r.items k = some t
  | .group id => r.groups k = some id

/-- The caches extend those at the start, and only names of the set have something with points
there. -/
structure Within (start : Registry κ T) (den : T → Set P) (names : Set κ) (r : Registry κ T) :
    Prop where
  sound : r.Sound
  extended : start.Extends r
  items : ∀ k t, r.items k = some t → (den t).Nonempty → k ∈ names
  groups : ∀ k id, r.groups k = some id → (r.meaning den (.group id)).Nonempty → k ∈ names

/-- New items are only cached under names of the set, and no new groups. -/
structure NewItems (names : Set κ) (r r' : Registry κ T) : Prop where
  items : ∀ k t, r'.items k = some t → r.items k = some t ∨ k ∈ names
  groups : r'.groups = r.groups

instance (names : Set κ) : Std.Refl (NewItems names : Registry κ T → Registry κ T → Prop) :=
  ⟨fun _ => ⟨fun _ _ => Or.inl, rfl⟩⟩

instance (names : Set κ) : IsTrans (Registry κ T) (NewItems names) where
  trans _ _ _ h h' := by
    refine ⟨fun k t ht => ?_, h'.groups.trans h.groups⟩
    rcases h'.items k t ht with ht | hk
    · exact h.items k t ht
    · exact Or.inr hk

variable {start r r' : Registry κ T} {den : T → Set P} {names : Set κ} {k : κ}
  {member : Member T}

theorem CachedAs.extends (hext : r.Extends r') (h : r.CachedAs k member) :
    r'.CachedAs k member := by
  cases member with
  | item t => exact hext.items k t h
  | group id => exact hext.groups k id h

theorem CachedAs.below (hr : r.Sound) (h : r.CachedAs k member) : Below r.heap.length [member] := by
  cases member with
  | item t => exact below_item
  | group id => exact below_group.mpr (hr.lt_length h)

theorem cachedAs_of_lookup (h : r.lookup k = some member) : r.CachedAs k member := by
  rw [lookup] at h
  rcases hitem : r.items k with _ | t
  · rw [hitem] at h
    obtain ⟨id, hgroup, rfl⟩ := Option.map_eq_some_iff.mp h
    exact hgroup
  · rw [hitem] at h
    obtain rfl := Option.some.inj h
    exact hitem

/-- **A name under which something with points is cached is in the set.** -/
theorem Within.mem (h : Within start den names r) (hcached : r.CachedAs k member)
    (hpoints : (r.meaning den member).Nonempty) : k ∈ names := by
  cases member with
  | item t =>
    rw [meaning_item] at hpoints
    exact h.items k t hcached hpoints
  | group id => exact h.groups k id hcached hpoints

/-- New items and new groups with points are cached under names of the set. -/
theorem Within.grow (h : Within start den names r) (hr' : r'.Sound) (hext : r.Extends r')
    (hitems : ∀ k t, r'.items k = some t → r.items k = some t ∨ ((den t).Nonempty → k ∈ names))
    (hgroups : ∀ k id, r'.groups k = some id → r.groups k = some id ∨
      ((r'.meaning den (.group id)).Nonempty → k ∈ names)) : Within start den names r' where
  sound := hr'
  extended := Trans.trans h.extended hext
  items k t ht hpoints := by
    rcases hitems k t ht with hold | hnew
    · exact h.items k t hold hpoints
    · exact hnew hpoints
  groups k id hid hpoints := by
    rcases hgroups k id hid with hold | hnew
    · -- a group that existed has the points it had
      rw [meaning_extends den h.sound hext (below_group.mpr (h.sound.lt_length hold))] at hpoints
      exact h.groups k id hold hpoints
    · exact hnew hpoints

theorem Within.groups_start (h : Within start den names r) (hnone : r.groups k = none) :
    start.groups k = none := by
  rcases hsome : start.groups k with _ | id
  · rfl
  · exact absurd ((h.extended.groups _ _ hsome).symm.trans hnone) (Option.some_ne_none id)

variable [DecidableEq κ]

theorem Within.setItem (h : Within start den names r) (hnone : r.items k = none) {t : T}
    (hk : (den t).Nonempty → k ∈ names) : Within start den names (r.setItem k t) := by
  refine h.grow (sound_setItem h.sound) (grows_setItem hnone) (fun k' t' ht' => ?_)
    fun _ _ => Or.inl
  rw [items_setItem] at ht'
  by_cases hk' : k' = k
  · subst hk'
    rw [Function.update_self] at ht'
    obtain rfl := Option.some.inj ht'
    exact Or.inr hk
  · rw [Function.update_of_ne hk'] at ht'
    exact Or.inl ht'

/-- After a new group is cached. -/
theorem Within.newGroup (h : Within start den names r) (hr' : r'.Sound) (hext : r.Extends r')
    (hitems : ∀ k t, r'.items k = some t → r.items k = some t ∨ k ∈ names) {id : ℕ}
    (hgroups : r'.groups = Function.update r.groups k (some id))
    (hk : (r'.meaning den (.group id)).Nonempty → k ∈ names) : Within start den names r' := by
  refine h.grow hr' hext (fun k t ht => (hitems k t ht).imp_right fun hk _ => hk)
    fun k' id' hid' => ?_
  rw [hgroups] at hid'
  by_cases hk' : k' = k
  · subst hk'
    rw [Function.update_self] at hid'
    obtain rfl := Option.some.inj hid'
    exact Or.inr hk
  · rw [Function.update_of_ne hk'] at hid'
    exact Or.inl hid'

end Registry

open Registry

variable [DecidableEq κ] {start : Registry κ T} {den : T → Set P} {names : Set κ} {k : κ}

/-- **An item is registered under a name of the set.** -/
theorem keeps_registerItem_within {create : Except ε T}
    (hk : ∀ t, create = .ok t → (den t).Nonempty → k ∈ names) :
    Keeps (Under (Within start den names) Extends) (registerItem k create) := by
  intro r hr
  rw [exec_registerItem]
  rcases hnone : r.items k with _ | t
  · rcases create with e | t
    · exact ⟨hr, refl r⟩
    · exact ⟨hr.setItem hnone (hk t rfl), grows_setItem hnone⟩
  · exact ⟨hr, refl r⟩

/-- The item that is returned is cached under the name. -/
theorem items_of_registerItem {create : Except ε T} {r r' : Registry κ T} {t : T}
    (h : Returns (registerItem k create) r t r') : r'.items k = some t := by
  rw [Returns, exec_registerItem] at h
  rcases hitem : r.items k with _ | t'
  · simp only [hitem] at h
    rcases create with e | t'
    · cases (Prod.mk.inj h).1
    · obtain ⟨hok, rfl⟩ := Prod.mk.inj h
      obtain rfl := Except.ok.inj hok
      exact Function.update_self ..
  · simp only [hitem] at h
    obtain ⟨hok, rfl⟩ := Prod.mk.inj h
    obtain rfl := Except.ok.inj hok
    exact hitem

variable [DecidableEq T]

theorem newItems_fillElements (id : ℕ) {elements : List (κ × Except ε T)}
    (helements : ∀ element ∈ elements, element.1 ∈ names) :
    Keeps (NewItems names) (fillElements id elements) := by
  refine keeps_forM fun element helement => keeps_bind (fun r => ?_) fun t =>
    keeps_modify fun r => ⟨fun _ _ => Or.inl, rfl⟩
  rw [exec_registerItem]
  rcases r.items element.1 with _ | t
  · rcases element.2 with e | t
    · exact refl r
    · refine ⟨fun k t' ht' => ?_, rfl⟩
      rw [items_setItem] at ht'
      by_cases hk : k = element.1
      · exact Or.inr (hk ▸ helements element helement)
      · rw [Function.update_of_ne hk] at ht'
        exact Or.inl ht'
  · exact refl r

/-- **A group of new items is registered under names of the set**, unless it is cached. -/
theorem keeps_registerMulti_within {elements : List (κ × Except ε T)}
    (hk : start.groups k = none → k ∈ names ∧ ∀ element ∈ elements, element.1 ∈ names) :
    Keeps (Under (Within start den names) Extends) (registerMulti k elements) := by
  intro r hr
  have hkeeps := keeps_registerMulti k elements r hr.sound
  rcases hnone : r.groups k with _ | id
  · obtain ⟨hname, helements⟩ := hk (hr.groups_start hnone)
    have hrun : (exec (registerMulti k elements) r).2 =
        (exec (fillElements r.heap.length elements) (r.newGroup k)).2 := by
      rw [registerMulti, exec_get_bind, hnone, exec_modify_bind, exec_bind_pure_snd]
    -- the elements are registered one after the other, also when one of them raises
    have hnew := newItems_fillElements r.heap.length helements (r.newGroup k)
    rw [hrun] at hkeeps ⊢
    refine ⟨hr.newGroup hkeeps.1 hkeeps.2 (fun k t ht => hnew.items k t ht) hnew.groups
      fun _ => hname, hkeeps.2⟩
  · have hrun : exec (registerMulti k elements) r = (.ok id, r) := by
      rw [registerMulti, exec_get_bind, hnone]
      rfl
    rw [hrun]
    exact ⟨hr, refl r⟩

/-- **A group of names is registered**: it has points only when one of the names has. -/
theorem keeps_registerGroup_within {members : List κ} (hnot : k ∉ members)
    (hk : start.groups k = none → ∀ member ∈ members, member ∈ names → k ∈ names) :
    Keeps (Under (Within start den names) Extends)
      (registerGroup k members : Program (Registry κ T) ε ℕ) := by
  intro r hr
  have hkeeps : Under Sound Extends r
      (exec (registerGroup k members : Program (Registry κ T) ε ℕ) r).2 :=
    keeps_registerGroup hnot r
  rcases hnone : r.groups k with _ | id
  · obtain ⟨r', hrun, hitems, hgroups, hmeaning⟩ :=
      @registerGroup_meaning κ T P ε _ _ den k members hnot r hr.sound hnone
    rw [hrun] at hkeeps ⊢
    obtain ⟨hr', hext⟩ := hkeeps hr.sound
    refine ⟨hr.newGroup hr' hext (fun k t ht => Or.inl (hitems ▸ ht)) hgroups ?_, hext⟩
    rintro ⟨p, hp⟩
    obtain ⟨member, hmember, found, hlookup, hfound⟩ := (hmeaning p).mp hp
    exact hk (hr.groups_start hnone) member hmember
      (hr.mem (cachedAs_of_lookup hlookup) ⟨p, hfound⟩)
  · have hrun : exec (registerGroup k members : Program (Registry κ T) ε ℕ) r = (.ok id, r) := by
      rw [registerGroup, exec_get_bind, hnone]
      rfl
    rw [hrun]
    exact ⟨hr, refl r⟩

end RulesAnalyzer.Shared
