import RulesAnalyzer.References
import RulesAnalyzer.Shared.Meaning

/-!
# What names denote

A name of a policy row denotes what the objects of the store below it contain.  The
loader does not look at the definitions again for a name that is cached, and it
caches the elements of an object under generated names, so a name means what it
denotes only as long as no two of the names that are loaded meet in a cache.

## Main definitions

* `Reading`, `Reading.contents` — what objects contain, and what a name denotes in the store.
* `Scope`, `Scope.Caches`, `Scope.CachesGroup` — names that are loaded into caches, and what
  they put there.
* `Scope.Consistent` — no two names meet in a cache with different contents.
* `Scope.Inv` — the invariant: the caches only hold what the definitions say.

## Main results

* `Scope.triple_build` — **a criterion means what its names denote.**
-/

namespace RulesAnalyzer

open Effect Shared

/-! ### What objects contain -/

/-- What literals and objects contain, and how objects are registered. -/
structure Reading (O P : Type) where
  /-- The points of a literal. -/
  literal : String → Set P
  /-- The name an object is registered under. -/
  key : O → String
  /-- The object is registered as a group. -/
  isGroup : O → Bool
  /-- The items of an object, each with the name it is registered under and its points. -/
  elements : O → List (String × Set P)

namespace Reading

variable {σ T O P : Type} (reading : Reading O P) (resolver : GenericResolver O)

/-- The points of an object. -/
def object (object : O) : Set P := {p | ∃ e ∈ reading.elements object, p ∈ e.2}

/-- What a name denotes in the store: the points of all objects below it. -/
def contents (name : String) : Set P :=
  {p | ∃ below object, resolver.Reaches name below ∧ resolver.objects below = some object ∧
    p ∈ reading.object object}

/-- What a name of a criterion means: literals come first. -/
def means (reference : Reference σ T O) (name : String) : Set P :=
  match reference.isLiteral name with
  | .ok true => reading.literal name
  | _ => reading.contents reference.resolver name

variable {reading resolver} {name : String}

theorem contents_object {object : O} (hobject : resolver.objects name = some object) :
    reading.contents resolver name = reading.object object := by
  ext p
  constructor
  · intro ⟨below, object', hbelow, hobject', hp⟩
    obtain rfl := hbelow.eq_of_object (hobject ▸ Option.some_ne_none object)
    obtain rfl := Option.some.inj (hobject.symm.trans hobject')
    exact hp
  · exact fun hp => ⟨name, object, .self name, hobject, hp⟩

theorem mem_contents_pool {pool : PoolObject} (hobject : resolver.objects name = none)
    (hpool : resolver.pool name = some pool) {p : P} : p ∈ reading.contents resolver name ↔
      ∃ member ∈ pool.members, p ∈ reading.contents resolver member := by
  constructor
  · intro ⟨below, object, hbelow, hsome, hp⟩
    cases hbelow with
    | self => exact absurd (hsome.symm.trans hobject) (Option.some_ne_none object)
    | member _ hpool' hmember hbelow =>
      obtain rfl := Option.some.inj (hpool.symm.trans hpool')
      exact ⟨_, hmember, below, object, hbelow, hsome, hp⟩
  · intro ⟨member, hmember, below, object, hbelow, hsome, hp⟩
    exact ⟨below, object, .member hobject hpool hmember hbelow, hsome, hp⟩

theorem means_of_literal {reference : Reference σ T O}
    (h : reference.isLiteral name = .ok true) :
    reading.means reference name = reading.literal name := by rw [means, h]

theorem means_of_name {reference : Reference σ T O}
    (h : reference.isLiteral name = .ok false) :
    reading.means reference name = reading.contents reference.resolver name := by rw [means, h]

/-- A name that is not found denotes nothing. -/
theorem notMem_contents (hobject : resolver.objects name = none)
    (hpool : resolver.pool name = none) (p : P) : p ∉ reading.contents resolver name := by
  rintro ⟨below, object, hbelow, hsome, -⟩
  cases hbelow with
  | self => exact absurd (hsome.symm.trans hobject) (Option.some_ne_none object)
  | member _ hpool' _ _ => exact absurd (hpool'.symm.trans hpool) (Option.some_ne_none _)

end Reading

/-! ### What names put in the caches -/

/-- Names that are looked up and loaded into caches. -/
structure Scope (σ T O P : Type) where
  reference : Reference σ T O
  reading : Reading O P
  /-- The points of an item. -/
  den : T → Set P
  /-- The caches at the start. -/
  start : Registry String T
  /-- The names that are loaded. -/
  names : Set String

namespace Scope

variable {σ T O P : Type} (scope : Scope σ T O P)

/-- The name is looked up in the store for one of the names. -/
def Looked (name : String) : Prop := ∃ root ∈ scope.names,
  scope.reference.isLiteral root = .ok false ∧ scope.reference.resolver.Reaches root name

/-- An item with the points may be cached under the key: a literal, or an element of an object. -/
inductive Caches : String → Set P → Prop
  | literal {name : String} (hname : name ∈ scope.names)
      (hliteral : scope.reference.isLiteral name = .ok true) :
      Caches name (scope.reading.literal name)
  | element {name : String} {object : O} {e : String × Set P} (hlooked : scope.Looked name)
      (hobject : scope.reference.resolver.objects name = some object)
      (hnew : scope.reading.isGroup object = true →
        scope.start.groups (scope.reading.key object) = none)
      (he : e ∈ scope.reading.elements object) : Caches e.1 e.2

/-- A group with the points may be cached under the key: an object with several elements, or a
pool. -/
inductive CachesGroup : String → Set P → Prop
  | object {name : String} {object : O} (hlooked : scope.Looked name)
      (hobject : scope.reference.resolver.objects name = some object)
      (hgroup : scope.reading.isGroup object = true) :
      CachesGroup (scope.reading.key object) (scope.reading.object object)
  | pool {name : String} {pool : PoolObject} (hlooked : scope.Looked name)
      (hobject : scope.reference.resolver.objects name = none)
      (hpool : scope.reference.resolver.pool name = some pool) :
      CachesGroup name (scope.reading.contents scope.reference.resolver name)

/-- The name is a member of a pool that is loaded and not cached at the start. -/
def NewMember (name : String) : Prop := ∃ root pool, scope.Looked root ∧
  scope.reference.resolver.objects root = none ∧
  scope.reference.resolver.pool root = some pool ∧ scope.start.groups root = none ∧
  name ∈ pool.members

/-- The names do not meet in the caches with different contents. -/
structure Consistent : Prop where
  /-- Items under one key have the same points. -/
  caches : ∀ k S S', scope.Caches k S → scope.Caches k S' → S = S'
  /-- Items that are cached at the start have the points of the definitions. -/
  items : ∀ k S t, scope.Caches k S → scope.start.items k = some t → scope.den t = S
  /-- Groups under one key have the same points. -/
  cachesGroup : ∀ k S S', scope.CachesGroup k S → scope.CachesGroup k S' → S = S'
  /-- Groups that are cached at the start have the points of the definitions. -/
  groups : ∀ k S id, scope.CachesGroup k S → scope.start.groups k = some id →
    scope.start.meaning scope.den (.group id) = S
  /-- The objects of pools are registered under the names the pools have for them. -/
  named : ∀ name object, scope.NewMember name →
    scope.reference.resolver.objects name = some object → scope.reading.key object = name
  /-- What is cached as an item under the name of a member has the contents of the member. -/
  unshadowed : ∀ name, scope.NewMember name →
    (∀ t, scope.start.items name = some t →
      scope.den t = scope.reading.contents scope.reference.resolver name) ∧
    ∀ S, scope.Caches name S → S = scope.reading.contents scope.reference.resolver name
  /-- So has what is cached as a group under the name of a member that is not found. -/
  missing : ∀ name, scope.NewMember name → ¬scope.reference.resolver.Found name →
    (∀ id, scope.start.groups name = some id → scope.start.meaning scope.den (.group id) =
      scope.reading.contents scope.reference.resolver name) ∧
    ∀ S, scope.CachesGroup name S → S = scope.reading.contents scope.reference.resolver name

/-- The caches extend those at the start with what the names put there. -/
structure Inv (r : Registry String T) : Prop where
  soundStart : scope.start.Sound
  sound : r.Sound
  extended : scope.start.Extends r
  items : ∀ k t, r.items k = some t → scope.start.items k = some t ∨ scope.Caches k (scope.den t)
  groups : ∀ k id, r.groups k = some id → scope.start.groups k = some id ∨
    scope.CachesGroup k (r.meaning scope.den (.group id))

/-- What the invariant says of the items: they extend those at the start. -/
structure ItemsInv (items : String → Option T) : Prop where
  allowed : ∀ k t, items k = some t →
    scope.start.items k = some t ∨ scope.Caches k (scope.den t)
  extended : ∀ k t, scope.start.items k = some t → items k = some t

/-- The name is registered as the member, and the member means what the name denotes. -/
inductive Ready (r : Registry String T) (name : String) : Member T → Prop
  | item {object : O} {t : T} (hobject : scope.reference.resolver.objects name = some object)
      (hkind : scope.reading.isGroup object = false)
      (hitem : r.items (scope.reading.key object) = some t)
      (hden : scope.den t = scope.reading.object object) : Ready r name (.item t)
  | group {object : O} {id : ℕ} (hobject : scope.reference.resolver.objects name = some object)
      (hkind : scope.reading.isGroup object = true)
      (hgroup : r.groups (scope.reading.key object) = some id)
      (hden : r.meaning scope.den (.group id) = scope.reading.object object) :
      Ready r name (.group id)
  | pool {pool : PoolObject} {id : ℕ} (hobject : scope.reference.resolver.objects name = none)
      (hpool : scope.reference.resolver.pool name = some pool)
      (hgroup : r.groups name = some id)
      (hden : r.meaning scope.den (.group id) =
        scope.reading.contents scope.reference.resolver name) : Ready r name (.group id)

variable {scope} {r r' : Registry String T} {name : String} {member : Member T}

theorem Looked.of_member {pool : PoolObject} (h : scope.Looked name)
    (hobject : scope.reference.resolver.objects name = none)
    (hpool : scope.reference.resolver.pool name = some pool) {m : String} (hm : m ∈ pool.members) :
    scope.Looked m := by
  obtain ⟨root, hroot, hliteral, hreaches⟩ := h
  exact ⟨root, hroot, hliteral, hreaches.member_right hobject hpool hm⟩

/-- The caches at the start satisfy the invariant. -/
theorem inv_start (h : scope.start.Sound) : scope.Inv scope.start where
  soundStart := h
  sound := h
  extended := refl scope.start
  items _ _ := Or.inl
  groups _ _ := Or.inl

theorem Consistent.den_item (hc : scope.Consistent) {k : String} {S : Set P} {t : T}
    (hS : scope.Caches k S)
    (h : scope.start.items k = some t ∨ scope.Caches k (scope.den t)) : scope.den t = S := by
  rcases h with hstart | hcaches
  · exact hc.items k S t hS hstart
  · exact hc.caches k _ S hcaches hS

/-- **A cached item has the points of the definition.** -/
theorem Inv.den_item (h : scope.Inv r) (hc : scope.Consistent) {k : String} {S : Set P} {t : T}
    (hS : scope.Caches k S) (ht : r.items k = some t) : scope.den t = S :=
  hc.den_item hS (h.items k t ht)

theorem Inv.itemsInv (h : scope.Inv r) : scope.ItemsInv r.items := ⟨h.items, h.extended.items⟩

/-- The items after a new item is cached. -/
theorem ItemsInv.update {items : String → Option T} (h : scope.ItemsInv items) {k : String} {t : T}
    (hk : items k = none) (hcaches : scope.Caches k (scope.den t)) :
    scope.ItemsInv (Function.update items k (some t)) := by
  refine ⟨fun k' t' ht' => ?_, fun k' t' ht' => ?_⟩
  · by_cases hk' : k' = k
    · subst hk'
      rw [Function.update_self] at ht'
      obtain rfl := Option.some.inj ht'
      exact Or.inr hcaches
    · rw [Function.update_of_ne hk'] at ht'
      exact h.allowed k' t' ht'
  · have hk' : k' ≠ k := by
      rintro rfl
      exact absurd ((h.extended _ _ ht').symm.trans hk) (Option.some_ne_none t')
    rw [Function.update_of_ne hk']
    exact h.extended k' t' ht'

/-- A group that is cached at the start still stands for the same. -/
theorem Inv.meaning_start (h : scope.Inv r) {k : String} {id : ℕ}
    (hid : scope.start.groups k = some id) :
    r.meaning scope.den (.group id) = scope.start.meaning scope.den (.group id) :=
  Registry.meaning_extends scope.den h.soundStart h.extended
    (below_group.mpr (h.soundStart.lt_length hid))

/-- **A cached group has the points of the definition.** -/
theorem Inv.meaning_group (h : scope.Inv r) (hc : scope.Consistent) {k : String} {S : Set P}
    {id : ℕ} (hS : scope.CachesGroup k S) (hid : r.groups k = some id) :
    r.meaning scope.den (.group id) = S := by
  rcases h.groups k id hid with hstart | hcaches
  · rw [h.meaning_start hstart]
    exact hc.groups k S id hS hstart
  · exact hc.cachesGroup k _ S hcaches hS

/-- A registered name means what it denotes. -/
theorem Ready.meaning (h : scope.Ready r name member) :
    r.meaning scope.den member = scope.reading.contents scope.reference.resolver name := by
  cases h with
  | item hobject _ _ hden => rw [Registry.meaning_item, hden, Reading.contents_object hobject]
  | group hobject _ _ hden => rw [hden, Reading.contents_object hobject]
  | pool _ _ _ hden => exact hden

theorem Ready.below (hr : r.Sound) (h : scope.Ready r name member) :
    Below r.heap.length [member] := by
  cases h with
  | item _ _ _ _ => exact below_item
  | group _ _ hgroup _ => exact below_group.mpr (hr.lt_length hgroup)
  | pool _ _ hgroup _ => exact below_group.mpr (hr.lt_length hgroup)

/-- A registered name stays registered. -/
theorem Ready.extends (hr : r.Sound) (hext : r.Extends r') (h : scope.Ready r name member) :
    scope.Ready r' name member := by
  -- an extended registry has the same groups, with the same meaning
  have hmeaning := Registry.meaning_extends scope.den hr hext (h.below hr)
  cases h with
  | item hobject hkind hitem hden => exact .item hobject hkind (hext.items _ _ hitem) hden
  | group hobject hkind hgroup hden =>
    exact .group hobject hkind (hext.groups _ _ hgroup) (hmeaning.trans hden)
  | pool hobject hpool hgroup hden =>
    exact .pool hobject hpool (hext.groups _ _ hgroup) (hmeaning.trans hden)

/-- A group that exists, in an extended registry. -/
theorem Inv.groups_extends (h : scope.Inv r) (hext : r.Extends r') {k : String} {id : ℕ}
    (hid : r.groups k = some id) : scope.start.groups k = some id ∨
      scope.CachesGroup k (r'.meaning scope.den (.group id)) := by
  rw [Registry.meaning_extends scope.den h.sound hext (below_group.mpr (h.sound.lt_length hid))]
  exact h.groups k id hid

/-- The invariant after a new item is cached. -/
theorem Inv.setItem (h : scope.Inv r) {k : String} {t : T} (hk : r.items k = none)
    (hcaches : scope.Caches k (scope.den t)) : scope.Inv (r.setItem k t) := by
  have hext : r.Extends (r.setItem k t) := Registry.grows_setItem hk
  exact ⟨h.soundStart, Registry.sound_setItem h.sound, Trans.trans h.extended hext,
    (h.itemsInv.update hk hcaches).allowed, fun k' id hid => h.groups_extends hext hid⟩

/-- The invariant after a new group is cached. -/
theorem Inv.newGroup (h : scope.Inv r) (hr' : r'.Sound) (hext : r.Extends r') {k : String} {id : ℕ}
    (hitems : ∀ k t, r'.items k = some t →
      scope.start.items k = some t ∨ scope.Caches k (scope.den t))
    (hgroups : r'.groups = Function.update r.groups k (some id))
    (hcaches : scope.CachesGroup k (r'.meaning scope.den (.group id))) : scope.Inv r' := by
  refine ⟨h.soundStart, hr', Trans.trans h.extended hext, hitems, fun k' id' hid' => ?_⟩
  rw [hgroups] at hid'
  by_cases hk' : k' = k
  · subst hk'
    rw [Function.update_self] at hid'
    obtain rfl := Option.some.inj hid'
    exact Or.inr hcaches
  · rw [Function.update_of_ne hk'] at hid'
    exact h.groups_extends hext hid'

/-! ### Loading names -/

/-- All names of the list that are found are registered. -/
def Loaded (r : Registry String T) (names : List String) : Prop :=
  ∀ name ∈ names, scope.reference.resolver.Found name → ∃ member, scope.Ready r name member

theorem Loaded.extends (hr : r.Sound) (hext : r.Extends r') {names : List String}
    (h : scope.Loaded r names) : scope.Loaded r' names := by
  intro name hname hfound
  obtain ⟨member, hready⟩ := h name hname hfound
  exact ⟨member, hready.extends hr hext⟩

/-- **What is found for a member of a new pool means what the member denotes.**  An item hides a
group of the same name, so the two caches are looked at in this order. -/
theorem Inv.meaning_lookup (hinv : scope.Inv r) (hc : scope.Consistent)
    (hnew : scope.NewMember name)
    (hloaded : scope.reference.resolver.Found name → ∃ member, scope.Ready r name member) {p : P} :
    (∃ member, r.lookup name = some member ∧ p ∈ r.meaning scope.den member) ↔
      p ∈ scope.reading.contents scope.reference.resolver name := by
  have hsome : ∀ {member : Member T}, r.lookup name = some member →
      r.meaning scope.den member = scope.reading.contents scope.reference.resolver name →
      ((∃ member, r.lookup name = some member ∧ p ∈ r.meaning scope.den member) ↔
        p ∈ scope.reading.contents scope.reference.resolver name) := by
    intro member hlookup hmeaning
    rw [hlookup, ← hmeaning]
    simp only [Option.some.injEq, exists_eq_left']
  -- items are looked at before groups
  rcases hitem : r.items name with _ | t
  · have hlookup : r.lookup name = (r.groups name).map .group := by rw [Registry.lookup, hitem]
    by_cases hfound : scope.reference.resolver.Found name
    · -- the store has the member, and it was registered before the pool
      obtain ⟨member, hready⟩ := hloaded hfound
      refine @hsome member ?_ hready.meaning
      rw [hlookup]
      cases hready with
      | item hobject hkind hsome hden =>
        rw [hc.named name _ hnew hobject] at hsome
        exact absurd (hsome.symm.trans hitem) (Option.some_ne_none _)
      | group hobject hkind hgroup hden =>
        rw [hc.named name _ hnew hobject] at hgroup
        rw [hgroup, Option.map_some]
      | pool hobject hpool hgroup hden => rw [hgroup, Option.map_some]
    · obtain ⟨hstart, hcaches⟩ := hc.missing name hnew hfound
      rcases hgroup : r.groups name with _ | id
      · -- nothing is found
        rw [hlookup, hgroup, Option.map_none]
        obtain ⟨hobject, hpool⟩ := not_or.mp hfound
        refine iff_of_false ?_ (Reading.notMem_contents (not_not.mp hobject) (not_not.mp hpool) p)
        rintro ⟨member, h, -⟩
        cases h
      · -- the store does not have it: a group of before is used if it agrees
        refine @hsome (.group id) (by rw [hlookup, hgroup, Option.map_some]) ?_
        rcases hinv.groups name id hgroup with hold | hnew
        · rw [hinv.meaning_start hold]
          exact hstart id hold
        · exact hcaches _ hnew
  · -- an item that is cached under the name of the member hides the group
    obtain ⟨hstart, hcaches⟩ := hc.unshadowed name hnew
    refine @hsome (.item t) (by rw [Registry.lookup, hitem]) ?_
    rw [Registry.meaning_item]
    rcases hinv.items name t hitem with hold | hnew
    · exact hstart t hold
    · exact hcaches _ hnew

/-- A new group of a pool stands for what the pool contains. -/
theorem Inv.meaning_newPool (hinv : scope.Inv r) (hc : scope.Consistent)
    {pool : PoolObject} (hlooked : scope.Looked name)
    (hobject : scope.reference.resolver.objects name = none)
    (hpool : scope.reference.resolver.pool name = some pool) (hnone : r.groups name = none)
    (hloaded : scope.Loaded r pool.members) {A : Set P}
    (hmeaning : ∀ p, p ∈ A ↔ ∃ m ∈ pool.members, ∃ member, r.lookup m = some member ∧
      p ∈ r.meaning scope.den member) :
    A = scope.reading.contents scope.reference.resolver name := by
  have hstart : scope.start.groups name = none := by
    rcases hsome : scope.start.groups name with _ | id
    · rfl
    · exact absurd ((hinv.extended.groups _ _ hsome).symm.trans hnone) (Option.some_ne_none id)
  ext p
  rw [hmeaning, Reading.mem_contents_pool hobject hpool]
  refine exists_congr fun m => and_congr_right fun hm => ?_
  exact hinv.meaning_lookup hc ⟨name, pool, hlooked, hobject, hpool, hstart, hm⟩ (hloaded m hm)

variable (scope) in
/-- The state has the invariant, and what else is kept. -/
def Good (registry : σ → Registry String T) (I : σ → Prop) (s : σ) : Prop :=
  I s ∧ scope.Inv (registry s)

variable (scope) in
/-- The registrations of the reference work on the caches as the reading says; `E` holds after
an exception. -/
structure Describes [DecidableEq T] (registry : σ → Registry String T) (I E : σ → Prop)
    (R : σ → σ → Prop) :
    Prop where
  keeping : scope.reference.Keeping R
  extended : ∀ s s', scope.Good registry I s → R s s' → (registry s).Extends (registry s')
  raised : ∀ s, scope.Good registry I s → E s
  literal : ∀ name ∈ scope.names, scope.reference.isLiteral name = .ok true →
    Triple (scope.Good registry I) (scope.reference.registerLiteral name)
      (fun t s => scope.Good registry I s ∧ scope.den t = scope.reading.literal name) E
  object : ∀ name object, scope.Looked name →
    scope.reference.resolver.objects name = some object →
    Triple (scope.Good registry I) (scope.reference.registerObject object)
      (fun member s => scope.Good registry I s ∧ scope.Ready (registry s) name member) E
  pool : ∀ (pool : PoolObject) s, ∃ s', exec (scope.reference.registerPool pool) s = (.ok ⟨⟩, s') ∧
    registry s' = (exec (registerGroup pool.name pool.members :
      Program (Registry String T) Fault ℕ) (registry s)).2 ∧
    (pool.name ∉ pool.members → I s → I s')
  getGroup : ∀ s name, scope.reference.getGroup s name = (registry s).groups name

section Describes

variable [DecidableEq T] {registry : σ → Registry String T} {I E : σ → Prop} {R : σ → σ → Prop}

/-- A pool is registered, when the names of its members are.  The members are found in the
caches, and what they mean together is what the pool denotes. -/
theorem triple_registerPool (hd : scope.Describes registry I E R) (hc : scope.Consistent)
    {pool : PoolObject} (hlooked : scope.Looked name)
    (hobject : scope.reference.resolver.objects name = none)
    (hpool : scope.reference.resolver.pool name = some pool) (hnot : pool.name ∉ pool.members) :
    Triple (fun s => scope.Good registry I s ∧ scope.Loaded (registry s) pool.members)
      (scope.reference.registerPool pool)
      (fun _ s => scope.Good registry I s ∧ ∃ member, scope.Ready (registry s) name member) E := by
  rintro s ⟨⟨hI, hinv⟩, hloaded⟩
  obtain ⟨s', hrun, hregistry, hI'⟩ := hd.pool pool s
  rw [hrun]
  have hname := GenericResolver.pool_name hpool
  rcases hgroup : (registry s).groups pool.name with _ | id
  · -- a new group
    obtain ⟨r', hexec, hitems, hgroups, hmeaning⟩ :=
      @registerGroup_meaning _ _ _ Fault _ _ scope.den _ _ hnot _ hinv.sound hgroup
    rw [hexec] at hregistry
    obtain ⟨hsound, hext⟩ : r'.Sound ∧ (registry s).Extends r' := by
      have hkeeps : Under Registry.Sound Registry.Extends (registry s)
          (exec (registerGroup pool.name pool.members : Program _ Fault ℕ) (registry s)).2 :=
        keeps_registerGroup hnot (registry s)
      rw [hexec] at hkeeps
      exact hkeeps hinv.sound
    -- the members are those that were found, and they mean what the store says
    have hden : r'.meaning scope.den (.group (registry s).heap.length) =
        scope.reading.contents scope.reference.resolver name :=
      hinv.meaning_newPool hc hlooked hobject hpool (hname ▸ hgroup) hloaded hmeaning
    have hinv' : scope.Inv r' := by
      refine hinv.newGroup hsound hext (fun k t ht => hinv.items k t (hitems ▸ ht)) hgroups ?_
      rw [hden, hname]
      exact .pool hlooked hobject hpool
    refine ⟨⟨hI' hnot hI, hregistry ▸ hinv'⟩, .group (registry s).heap.length, ?_⟩
    rw [hregistry]
    refine .pool hobject hpool ?_ hden
    rw [hgroups, hname, Function.update_self]
  · -- a cached group
    have hsame : registry s' = registry s := by
      rw [hregistry, registerGroup, exec_get_bind, hgroup]
      rfl
    refine ⟨⟨hI' hnot hI, hsame ▸ hinv⟩, .group id, ?_⟩
    rw [hname] at hgroup
    rw [hsame]
    exact .pool hobject hpool hgroup
      (hinv.meaning_group hc (.pool hlooked hobject hpool) hgroup)

/-- A pool that is registered is found among the groups. -/
theorem triple_registeredGroup (hd : scope.Describes registry I E R)
    (hobject : scope.reference.resolver.objects name = none) :
    Triple (fun s => scope.Good registry I s ∧ ∃ member, scope.Ready (registry s) name member)
      (scope.reference.registeredGroup name)
      (fun member s => scope.Good registry I s ∧ scope.Ready (registry s) name member) E := by
  rintro s ⟨hs, member, hready⟩
  obtain ⟨id, rfl, hid⟩ : ∃ id, member = .group id ∧
      scope.reference.getGroup s name = some id := by
    rw [hd.getGroup]
    cases hready with
    | item hobject' => exact absurd (hobject'.symm.trans hobject) (Option.some_ne_none _)
    | group hobject' => exact absurd (hobject'.symm.trans hobject) (Option.some_ne_none _)
    | pool _ _ hgroup _ => exact ⟨_, rfl, hgroup⟩
  rw [Reference.registeredGroup, exec_get_bind, hid]
  exact ⟨hs, hready⟩

/-- A pool is resolved without an effect on the caches. -/
theorem triple_resolve (hd : scope.Describes registry I E R) (pool : PoolObject) :
    Triple (fun s => scope.Good registry I s.1)
      (Reference.onUnresolved (scope.reference.resolver.resolve pool))
      (fun members s => scope.Good registry I s.1 ∧
        ∃ below, scope.reference.resolver.Expands pool.members below ∧
          members = below ++ [.pool pool]) (fun s => E s.1) := by
  intro s hs
  rw [Reference.onUnresolved, exec_zoom]
  rcases hresolve : exec (scope.reference.resolver.resolve pool) s.2 with ⟨fault | members, u⟩
  · exact hd.raised s.1 hs
  · exact ⟨hs, GenericResolver.expands_of_resolve hresolve⟩

variable [Std.Refl R] [IsTrans σ R]

/-- A name that is registered stays registered while the names after it are. -/
theorem triple_registerMembers_cons (hd : scope.Describes registry I E R) {names : List String}
    {members : List (PoolMember O)} (hexpands : scope.reference.resolver.Expands names members)
    (htriple : Triple (scope.Good registry I) (members.forM scope.reference.registerMember)
      (fun _ s => scope.Good registry I s ∧ scope.Loaded (registry s) names) E) :
    Triple (fun s => scope.Good registry I s ∧ ∃ member, scope.Ready (registry s) name member)
      (members.forM scope.reference.registerMember)
      (fun _ s => scope.Good registry I s ∧ scope.Loaded (registry s) (name :: names)) E := by
  have hkeeps := hd.keeping.registerMembers fun pool hpool => hexpands.notMem hpool
  have hframe := htriple.frame (F := fun s => ∃ member, scope.Ready (registry s) name member)
    hkeeps fun s s' hs hR ⟨member, hready⟩ =>
      ⟨member, hready.extends hs.2.sound (hd.extended s s' hs hR)⟩
  refine hframe.mono (fun _ hs => hs) (fun _ s hs => ⟨hs.1.1, fun n hn hfound => ?_⟩)
    fun _ hs => hs
  rcases List.mem_cons.mp hn with rfl | hn
  · exact hs.2
  · exact hs.1.2 n hn hfound

/-- **All names of a list that is expanded are registered.**  The induction is on the derivation
of the list, in which the members of a pool stand before the pool. -/
theorem triple_registerMembers (hd : scope.Describes registry I E R) (hc : scope.Consistent)
    {names : List String} {members : List (PoolMember O)}
    (h : scope.reference.resolver.Expands names members)
    (hlooked : ∀ name ∈ names, scope.Looked name) :
    Triple (scope.Good registry I) (members.forM scope.reference.registerMember)
      (fun _ s => scope.Good registry I s ∧ scope.Loaded (registry s) names) E := by
  induction h with
  | nil => exact triple_pure fun s hs => ⟨hs, fun _ h => absurd h List.not_mem_nil⟩
  | object hobject hnames ih =>
    rw [List.forM]
    refine triple_bind ?_ fun _ => triple_registerMembers_cons hd hnames
      (ih fun n hn => hlooked n (List.mem_cons_of_mem _ hn))
    refine triple_bind (hd.object _ _ (hlooked _ List.mem_cons_self) hobject) fun member => ?_
    exact triple_pure fun s hs => ⟨hs.1, member, hs.2⟩
  | @pool name names pool below members hobject hpool hbelow hnames ihbelow ih =>
    have hname := hlooked name List.mem_cons_self
    -- a pool is not below itself, so it is registered after its members
    have hnot : pool.name ∉ pool.members := by
      obtain rfl := GenericResolver.pool_name hpool
      exact hbelow.notMem_self hobject hpool
    refine triple_forM_append (ihbelow fun n hn => hname.of_member hobject hpool hn) ?_
    rw [List.forM]
    exact triple_bind (triple_registerPool hd hc hname hobject hpool hnot) fun _ =>
      triple_registerMembers_cons hd hnames
        (ih fun n hn => hlooked n (List.mem_cons_of_mem _ hn))
  | missing hobject hpool hnames ih =>
    refine (ih fun n hn => hlooked n (List.mem_cons_of_mem _ hn)).mono (fun _ hs => hs)
      (fun _ s hs => ⟨hs.1, fun n hn hfound => ?_⟩) (fun _ hs => hs)
    rcases List.mem_cons.mp hn with rfl | hn
    · -- a name that the store does not have is not registered
      exact absurd hfound (not_or.mpr ⟨not_not.mpr hobject, not_not.mpr hpool⟩)
    · exact hs.2 n hn hfound

/-- The pool is registered with all that is below it. -/
theorem triple_registerMembers_pool (hd : scope.Describes registry I E R) (hc : scope.Consistent)
    {pool : PoolObject} (hlooked : scope.Looked name)
    (hobject : scope.reference.resolver.objects name = none)
    (hpool : scope.reference.resolver.pool name = some pool) {below : List (PoolMember O)}
    (hbelow : scope.reference.resolver.Expands pool.members below) :
    Triple (scope.Good registry I)
      ((below ++ [PoolMember.pool pool]).forM scope.reference.registerMember)
      (fun _ s => scope.Good registry I s ∧ ∃ member, scope.Ready (registry s) name member) E := by
  -- a pool that was listed is not below itself
  have hnot : pool.name ∉ pool.members := by
    obtain rfl := GenericResolver.pool_name hpool
    exact hbelow.notMem_self hobject hpool
  exact triple_forM_append
    (triple_registerMembers hd hc hbelow fun n hn => hlooked.of_member hobject hpool hn)
    (triple_forM_singleton (triple_registerPool hd hc hlooked hobject hpool hnot))

end Describes

/-! ### The criterion -/

variable (scope) in
/-- The member a name of the criterion stands for. -/
def Stands (r : Registry String T) (name : String) : Option (Member T) → Prop
  | some member => (∃ literal, scope.reference.isLiteral name = .ok literal) ∧
      Below r.heap.length [member] ∧
      r.meaning scope.den member = scope.reading.means scope.reference name
  | none => scope.reference.isLiteral name = .ok false ∧
      ¬scope.reference.resolver.Found name

variable (scope) in
/-- The members of a criterion are those its names stand for. -/
structure Means (r : Registry String T) (names : List String) (members : List (Member T)) :
    Prop where
  read : ∀ name ∈ names, ∃ literal, scope.reference.isLiteral name = .ok literal
  below : Below r.heap.length members
  of_name : ∀ name ∈ names, scope.reference.isLiteral name = .ok true ∨
    scope.reference.resolver.Found name →
    ∃ member ∈ members, r.meaning scope.den member = scope.reading.means scope.reference name
  of_member : ∀ member ∈ members, ∃ name ∈ names,
    r.meaning scope.den member = scope.reading.means scope.reference name

theorem Means.extends (hr : r.Sound) (hext : r.Extends r') {names : List String}
    {members : List (Member T)} (h : scope.Means r names members) :
    scope.Means r' names members := by
  have hmeaning : ∀ member ∈ members, r'.meaning scope.den member = r.meaning scope.den member :=
    fun member hmember =>
      Registry.meaning_extends scope.den hr hext (below_iff.mp h.below member hmember)
  refine ⟨h.read, h.below.mono hext.length_le, fun name hname hfound => ?_,
    fun member hmember => ?_⟩
  · obtain ⟨member, hmember, hmeans⟩ := h.of_name name hname hfound
    exact ⟨member, hmember, (hmeaning member hmember).trans hmeans⟩
  · obtain ⟨name, hname, hmeans⟩ := h.of_member member hmember
    exact ⟨name, hname, (hmeaning member hmember).trans hmeans⟩

theorem Means.read_snoc {names : List String} {members : List (Member T)}
    (h : scope.Means r names members) {literal : Bool}
    (hliteral : scope.reference.isLiteral name = .ok literal) :
    ∀ n ∈ names ++ [name], ∃ literal, scope.reference.isLiteral n = .ok literal := by
  intro n hn
  rcases List.mem_append.mp hn with hn | hn
  · exact h.read n hn
  · obtain rfl := List.mem_singleton.mp hn
    exact ⟨literal, hliteral⟩

/-- The criterion after a name that is not found. -/
theorem Means.snoc_none {names : List String} {members : List (Member T)}
    (h : scope.Means r names members) (hstands : scope.Stands r name none) :
    scope.Means r (names ++ [name]) members where
  read := h.read_snoc hstands.1
  below := h.below
  of_name n hn hfound := by
    rcases List.mem_append.mp hn with hn | hn
    · exact h.of_name n hn hfound
    · obtain rfl := List.mem_singleton.mp hn
      rcases hfound with hliteral | hfound
      · cases hliteral.symm.trans hstands.1
      · exact absurd hfound hstands.2
  of_member m hm := by
    obtain ⟨n, hn, hmeans⟩ := h.of_member m hm
    exact ⟨n, List.mem_append_left _ hn, hmeans⟩

/-- The criterion after a name that stands for a member. -/
theorem Means.snoc_some [DecidableEq T] {names : List String} {members : List (Member T)}
    (h : scope.Means r names members) (hstands : scope.Stands r name (some member)) :
    scope.Means r (names ++ [name]) (Registry.pushMember members member) where
  read := hstands.1.elim fun _ => h.read_snoc
  below := by
    refine below_iff.mpr fun m hm => ?_
    rcases Registry.mem_pushMember.mp hm with hm | rfl
    · exact below_iff.mp h.below m hm
    · exact hstands.2.1
  of_name n hn hfound := by
    rcases List.mem_append.mp hn with hn | hn
    · obtain ⟨m, hm, hmeans⟩ := h.of_name n hn hfound
      exact ⟨m, Registry.mem_pushMember.mpr (Or.inl hm), hmeans⟩
    · obtain rfl := List.mem_singleton.mp hn
      exact ⟨member, Registry.mem_pushMember.mpr (Or.inr rfl), hstands.2.2⟩
  of_member m hm := by
    rcases Registry.mem_pushMember.mp hm with hm | rfl
    · obtain ⟨n, hn, hmeans⟩ := h.of_member m hm
      exact ⟨n, List.mem_append_left _ hn, hmeans⟩
    · exact ⟨name, List.mem_append_right _ (List.mem_singleton_self name), hstands.2.2⟩

/-- **The points of a criterion are those its names mean.** -/
theorem Means.iff {names : List String} {members : List (Member T)}
    (h : scope.Means r names members) {p : P} :
    (∃ member ∈ members, p ∈ r.meaning scope.den member) ↔
      ∃ name ∈ names, p ∈ scope.reading.means scope.reference name := by
  constructor
  · intro ⟨member, hmember, hp⟩
    obtain ⟨name, hname, hmeans⟩ := h.of_member member hmember
    exact ⟨name, hname, hmeans ▸ hp⟩
  · intro ⟨name, hname, hp⟩
    have hknown : scope.reference.isLiteral name = .ok true ∨
        scope.reference.resolver.Found name := by
      obtain ⟨literal, hliteral⟩ := h.read name hname
      cases literal with
      | true => exact Or.inl hliteral
      | false =>
        refine Or.inr (Classical.byContradiction fun hmissing => ?_)
        obtain ⟨hobject, hpool⟩ := not_or.mp hmissing
        rw [Reading.means_of_name hliteral] at hp
        exact Reading.notMem_contents (not_not.mp hobject) (not_not.mp hpool) p hp
    obtain ⟨member, hmember, hmeans⟩ := h.of_name name hname hknown
    exact ⟨member, hmember, hmeans ▸ hp⟩

section Build

variable [DecidableEq T] {registry : σ → Registry String T} {I E : σ → Prop} {R : σ → σ → Prop}
  [Std.Refl R] [IsTrans σ R]

/-- The group of a pool that is looked up is registered. -/
theorem triple_referencePool (hd : scope.Describes registry I E R) (hc : scope.Consistent)
    {pool : PoolObject} (hlooked : scope.Looked name)
    (hobject : scope.reference.resolver.objects name = none)
    (hpool : scope.reference.resolver.pool name = some pool) :
    Triple (fun s => scope.Good registry I s.1) (scope.reference.referencePool name pool)
      (fun member s => scope.Good registry I s.1 ∧ scope.Ready (registry s.1) name member)
      (fun s => E s.1) := by
  refine triple_bind (triple_resolve hd pool) fun members => ?_
  refine triple_bind (Q := fun _ s => scope.Good registry I s.1 ∧
    ∃ member, scope.Ready (registry s.1) name member) ?_ fun _ => ?_
  · rintro s ⟨hs, below, hbelow, rfl⟩
    have hzoom : Triple (fun s : σ × List String => scope.Good registry I s.1)
        (Reference.onRegistry
          ((below ++ [PoolMember.pool pool]).forM scope.reference.registerMember))
        (fun _ s => scope.Good registry I s.1 ∧
          ∃ member, scope.Ready (registry s.1) name member) (fun s => E s.1) :=
      triple_zoom (triple_registerMembers_pool hd hc hlooked hobject hpool hbelow)
        (fun _ hs => hs) (fun _ _ _ _ ht => ht) fun _ _ _ ht => ht
    exact hzoom s hs
  · exact triple_zoom (triple_registeredGroup hd hobject) (fun _ hs => hs)
      (fun _ _ _ _ ht => ht) fun _ _ _ ht => ht

/-- What a name of the criterion stands for when it is looked up. -/
theorem triple_referenceName (hd : scope.Describes registry I E R) (hc : scope.Consistent)
    (hname : name ∈ scope.names) (hliteral : scope.reference.isLiteral name = .ok false) :
    Triple (fun s => scope.Good registry I s.1) (scope.reference.referenceName name)
      (fun option s => scope.Good registry I s.1 ∧ scope.Stands (registry s.1) name option)
      (fun s => E s.1) := by
  have hlooked : scope.Looked name := ⟨name, hname, hliteral, .self name⟩
  have hmeans := @Reading.means_of_name _ _ _ _ scope.reading _ _ hliteral
  have hready : ∀ {r : Registry String T} {member : Member T}, r.Sound →
      scope.Ready r name member → scope.Stands r name (some member) :=
    fun hr hready => ⟨⟨false, hliteral⟩, hready.below hr, hready.meaning.trans hmeans.symm⟩
  rw [Reference.referenceName]
  rcases hobject : scope.reference.resolver.objects name with _ | object
  · rcases hpool : scope.reference.resolver.pool name with _ | pool
    · -- the name is noted
      intro s hs
      exact ⟨hs, hliteral, not_or.mpr ⟨not_not.mpr hobject, not_not.mpr hpool⟩⟩
    · -- the pool is expanded, and registered with all that is below it
      exact triple_map ((triple_referencePool hd hc hlooked hobject hpool).mono (fun _ hs => hs)
        (fun _ _ hs => ⟨hs.1, hready hs.1.2.sound hs.2⟩) fun _ hs => hs)
  · exact triple_map (triple_zoom (hd.object name object hlooked hobject) (fun _ hs => hs)
      (fun _ _ _ _ ht => ⟨ht.1, hready ht.1.2.sound ht.2⟩) fun _ _ _ ht => ht)

/-- **What a name of the criterion stands for.** -/
theorem triple_refer (hd : scope.Describes registry I E R) (hc : scope.Consistent)
    (hname : name ∈ scope.names) :
    Triple (fun s => scope.Good registry I s.1) (scope.reference.refer name)
      (fun option s => scope.Good registry I s.1 ∧ scope.Stands (registry s.1) name option)
      (fun s => E s.1) := by
  rw [Reference.refer]
  refine triple_bind (Q := fun literal s => scope.Good registry I s.1 ∧
    scope.reference.isLiteral name = .ok literal) ?_ fun literal => ?_
  · exact triple_ofExcept (fun literal hliteral s hs => ⟨hs, hliteral⟩)
      fun s hs => hd.raised s.1 hs
  · rintro s ⟨hs, hliteral⟩
    cases literal with
    | true =>
      refine triple_map (P := fun s => scope.Good registry I s.1) ?_ s hs
      refine triple_zoom (hd.literal name hname hliteral) (fun _ hs => hs) (fun _ _ t s' ht => ?_)
        fun _ _ _ ht => ht
      refine ⟨ht.1, ⟨true, hliteral⟩, below_item, ?_⟩
      rw [Registry.meaning_item, ht.2, Reading.means_of_literal hliteral]
    | false => exact triple_referenceName hd hc hname hliteral s hs

/-- **A criterion means what its names denote.** -/
theorem triple_build (hd : scope.Describes registry I E R) (hc : scope.Consistent)
    {names : List String} (hnames : ∀ name ∈ names, name ∈ scope.names) :
    Triple (fun s => scope.Good registry I s.1) (scope.reference.build names)
      (fun members s => scope.Good registry I s.1 ∧ scope.Means (registry s.1) names members)
      (fun s => E s.1) := by
  have hfold := @triple_foldlM _ _ _ _ (fun s : σ × List String => E s.1)
    (fun members name => do
      let member ← scope.reference.refer name
      pure (match member with
        | some member => Registry.pushMember members member
        | none => members))
    (fun done members s => scope.Good registry I s.1 ∧ scope.Means (registry s.1) done members)
    names (fun done name members hname => ?_) [] []
  · refine hfold.mono (fun s hs => ⟨hs, ?_⟩) (fun _ _ hs => hs) fun _ hs => hs
    exact ⟨fun _ h => absurd h List.not_mem_nil, fun _ h => absurd h List.not_mem_nil,
      fun _ h => absurd h List.not_mem_nil, fun _ h => absurd h List.not_mem_nil⟩
  · -- what the names before stand for stays
    have hframe := (triple_refer hd hc (hnames name hname)).frame
      (F := fun s => scope.Means (registry s.1) done members) (hd.keeping.refer name)
      fun s s' hs hR hmeans => hmeans.extends hs.2.sound (hd.extended s.1 s'.1 hs hR)
    refine triple_bind hframe fun option => triple_pure fun s hs => ⟨hs.1.1, ?_⟩
    cases option with
    | none => exact hs.2.snoc_none hs.1.2
    | some member => exact hs.2.snoc_some hs.1.2

end Build

end Scope

end RulesAnalyzer
