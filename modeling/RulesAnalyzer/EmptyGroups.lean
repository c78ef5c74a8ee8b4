import RulesAnalyzer.Criteria
import RulesAnalyzer.Shared.Filling

/-!
# Groups without items

A row is turned down when one of its groups has no items.  Whether a name of the row
can bring an item can be told before the row is loaded: a literal can, an object can
unless an empty group is cached under its name, and a pool can when it is cached with
items, or when a name of its members has something cached or may get it.

## Main definitions

* `Scope.Fillable` — something with points is cached under a key, or may be while names are loaded.
* `Scope.Yields` — a name of a criterion that may bring an item.
* `RuleObject.Unfilled` — a criterion of the row has no name that yields.

## Main results

* `Scope.yields_of_build` — **a member with points stands for a name that yields.**
* `FirewallFactory.not_filled_of_unfilled` — **a row with a criterion none of whose names
  yields has an empty group.**
-/

namespace RulesAnalyzer

open Effect Shared

namespace Scope

variable {σ T O P : Type} (scope : Scope σ T O P)

/-! ### Names that yield -/

/-- Something with points is cached under the key at the start, or may be when the names are
loaded: a literal, an element of an object, an object with several elements, or a pool that has
a member like this. -/
inductive Fillable : String → Prop
  | item {k : String} {t : T} (h : scope.start.items k = some t) (hden : (scope.den t).Nonempty) :
      Fillable k
  | group {k : String} {id : ℕ} (h : scope.start.groups k = some id)
      (hmeaning : (scope.start.meaning scope.den (.group id)).Nonempty) : Fillable k
  | caches {k : String} {S : Set P} (h : scope.Caches k S) (hS : S.Nonempty) : Fillable k
  | object {name : String} {object : O} (hlooked : scope.Looked name)
      (hobject : scope.reference.resolver.objects name = some object)
      (hgroup : scope.reading.isGroup object = true)
      (hnew : scope.start.groups (scope.reading.key object) = none) :
      Fillable (scope.reading.key object)
  | pool {name member : String} {pool : PoolObject} (hlooked : scope.Looked name)
      (hobject : scope.reference.resolver.objects name = none)
      (hpool : scope.reference.resolver.pool name = some pool)
      (hnew : scope.start.groups name = none) (hmember : member ∈ pool.members)
      (hfillable : Fillable member) : Fillable name

/-- The name may bring an item. -/
inductive Yields (name : String) : Prop
  | literal (h : scope.reference.isLiteral name = .ok true)
  | object {object : O} (h : scope.reference.isLiteral name = .ok false)
      (hobject : scope.reference.resolver.objects name = some object)
      (hfillable : scope.Fillable (scope.reading.key object))
  | pool (h : scope.reference.isLiteral name = .ok false)
      (hobject : scope.reference.resolver.objects name = none)
      (hpool : scope.reference.resolver.pool name ≠ none) (hfillable : scope.Fillable name)

/-- Only keys that are fillable have something with points in the caches. -/
abbrev Tight (r : Registry String T) : Prop :=
  Registry.Within scope.start scope.den scope.Fillable r

/-- The registrations of the reference only fill keys that are fillable. -/
structure Fills [DecidableEq T] (registry : σ → Registry String T) : Prop where
  literal : ∀ name ∈ scope.names, scope.reference.isLiteral name = .ok true →
    Keeps (Through registry (Under scope.Tight Registry.Extends))
      (scope.reference.registerLiteral name)
  object : ∀ name object, scope.Looked name →
    scope.reference.resolver.objects name = some object →
    Keeps (Through registry (Under scope.Tight Registry.Extends))
      (scope.reference.registerObject object)
  pool : ∀ (pool : PoolObject) s, registry (exec (scope.reference.registerPool pool) s).2 =
    (exec (registerGroup pool.name pool.members : Program (Registry String T) Fault ℕ)
      (registry s)).2
  getGroup : ∀ s name, scope.reference.getGroup s name = (registry s).groups name
  cachedLiteral : ∀ name s t s', Returns (scope.reference.registerLiteral name) s t s' →
    (registry s').CachedAs name (.item t)
  cachedObject : ∀ object s member s', (registry s).Sound →
    Returns (scope.reference.registerObject object) s member s' →
    (registry s').CachedAs (scope.reading.key object) member

variable {scope} [DecidableEq T] {registry : σ → Registry String T}

omit [DecidableEq T] in
/-- The caches at the start are tight. -/
theorem tight_start (h : scope.start.Sound) : scope.Tight scope.start where
  sound := h
  extended := refl scope.start
  items _ _ ht hden := .item ht hden
  groups _ _ hid hmeaning := .group hid hmeaning

omit [DecidableEq T] in
/-- **A name below which nothing is found and nothing is cached does not yield.** -/
theorem not_yields_of_missing
    (hliteral : ∀ name ∈ scope.names, scope.reference.isLiteral name = .ok false)
    (hnone : ∀ name, scope.Looked name → scope.reference.resolver.objects name = none ∧
      scope.start.items name = none ∧ scope.start.groups name = none) {name : String}
    (hname : name ∈ scope.names) : ¬scope.Yields name := by
  have hempty : ∀ k, scope.Fillable k → ¬scope.Looked k := by
    intro k hk
    induction hk with
    | item h _ => exact fun hlooked => nomatch h.symm.trans (hnone _ hlooked).2.1
    | group h _ => exact fun hlooked => nomatch h.symm.trans (hnone _ hlooked).2.2
    | caches h _ =>
      cases h with
      | literal hin htrue => exact nomatch htrue.symm.trans (hliteral _ hin)
      | element hlooked hobject => exact nomatch hobject.symm.trans (hnone _ hlooked).1
    | object hlooked hobject => exact nomatch hobject.symm.trans (hnone _ hlooked).1
    | pool hlooked hobject hpool _ hmember _ ih =>
      exact absurd (hlooked.of_member hobject hpool hmember) ih
  have hlooked : scope.Looked name := ⟨name, hname, hliteral name hname, .self name⟩
  intro hyields
  cases hyields with
  | literal h => exact nomatch h.symm.trans (hliteral name hname)
  | object _ hobject _ => exact nomatch hobject.symm.trans (hnone name hlooked).1
  | pool _ _ _ hfillable => exact hempty name hfillable hlooked

/-! ### Loading names -/

section Fills

variable (hfills : scope.Fills registry)

include hfills

/-- A pool is registered: it is filled when one of its members is. -/
theorem keeps_registerPool_tight {name : String} {pool : PoolObject} (hlooked : scope.Looked name)
    (hobject : scope.reference.resolver.objects name = none)
    (hpool : scope.reference.resolver.pool name = some pool) (hnot : pool.name ∉ pool.members) :
    Keeps (Through registry (Under scope.Tight Registry.Extends))
      (scope.reference.registerPool pool) := by
  intro s hs
  rw [hfills.pool]
  refine keeps_registerGroup_within hnot (fun hnew member hmember hfillable => ?_) _ hs
  obtain rfl := GenericResolver.pool_name hpool
  exact .pool hlooked hobject hpool hnew hmember hfillable

/-- **All that is below names that are looked up is registered under fillable keys.** -/
theorem keeps_registerMembers_tight {names : List String} {members : List (PoolMember O)}
    (h : scope.reference.resolver.Expands names members)
    (hlooked : ∀ name ∈ names, scope.Looked name) :
    Keeps (Through registry (Under scope.Tight Registry.Extends))
      (members.forM scope.reference.registerMember) := by
  refine keeps_forM fun member hmember => ?_
  induction h with
  | nil => exact absurd hmember List.not_mem_nil
  | object hobject _ ih =>
    rcases List.mem_cons.mp hmember with rfl | hmember
    · exact keeps_bind (hfills.object _ _ (hlooked _ List.mem_cons_self) hobject)
        fun _ => keeps_pure _
    · exact ih (fun n hn => hlooked n (List.mem_cons_of_mem _ hn)) hmember
  | pool hobject hpool hbelow _ ihbelow ih =>
    have hname := hlooked _ List.mem_cons_self
    rcases List.mem_append.mp hmember with hmember | hmember
    · exact ihbelow (fun n hn => hname.of_member hobject hpool hn) hmember
    · rcases List.mem_cons.mp hmember with rfl | hmember
      · refine keeps_registerPool_tight hfills hname hobject hpool ?_
        obtain rfl := GenericResolver.pool_name hpool
        exact hbelow.notMem_self hobject hpool
      · exact ih (fun n hn => hlooked n (List.mem_cons_of_mem _ hn)) hmember
  | missing _ _ _ ih => exact ih (fun n hn => hlooked n (List.mem_cons_of_mem _ hn)) hmember

/-- **The member a name stands for is cached under a key that is only fillable when the name
yields.** -/
theorem yields_of_refers {name : String} (hname : name ∈ scope.names) {s s' : σ}
    {member : Option (Member T)} (hs : scope.Tight (registry s))
    (h : scope.reference.Refers name s member s') :
    (scope.Tight (registry s') ∧ (registry s).Extends (registry s')) ∧
      ∀ m, member = some m →
        ∃ k, (registry s').CachedAs k m ∧ (scope.Fillable k → scope.Yields name) := by
  cases h with
  | literal hliteral hrun =>
    refine ⟨(hfills.literal name hname hliteral).returns hrun hs, ?_⟩
    rintro _ ⟨⟩
    exact ⟨name, hfills.cachedLiteral _ _ _ _ hrun, fun _ => .literal hliteral⟩
  | object hliteral hobject hrun =>
    have hlooked : scope.Looked name := ⟨name, hname, hliteral, .self name⟩
    refine ⟨(hfills.object name _ hlooked hobject).returns hrun hs, ?_⟩
    rintro _ ⟨⟩
    exact ⟨_, hfills.cachedObject _ _ _ _ hs.sound hrun, .object hliteral hobject⟩
  | @pool pool _ _ _ hliteral hobject hpool hbelow hrun hgroup =>
    have hlooked : scope.Looked name := ⟨name, hname, hliteral, .self name⟩
    have hexpands : scope.reference.resolver.Expands [name] _ :=
      .pool hobject hpool hbelow .nil
    refine ⟨(keeps_registerMembers_tight hfills hexpands fun n hn => ?_).returns hrun hs, ?_⟩
    · obtain rfl := List.mem_singleton.mp hn
      exact hlooked
    · rintro _ ⟨⟩
      refine ⟨name, (hfills.getGroup _ _).symm.trans hgroup, .pool hliteral hobject ?_⟩
      exact hpool ▸ Option.some_ne_none pool
  | missing _ _ _ => exact ⟨⟨hs, refl _⟩, nofun⟩

/-- **A member of a criterion that has points stands for a name that yields.**  Each member is
cached under a key, and a key that can be filled belongs to a name that yields. -/
theorem yields_of_build {names : List String} (hnames : ∀ name ∈ names, name ∈ scope.names)
    {s s' : σ × List String} {members : List (Member T)}
    (h : Returns (scope.reference.build names) s members s') (hstart : scope.start.Sound)
    (hs : scope.start = registry s.1) :
    Below (registry s'.1).heap.length members ∧ (registry s'.1).Sound ∧
      ∀ member ∈ members, ((registry s'.1).meaning scope.den member).Nonempty →
        ∃ name ∈ names, scope.Yields name := by
  -- along the names, every member so far is cached under a key that fits a name
  have hbuilt : (∀ name ∈ names, name ∈ scope.names) → scope.Tight (registry s'.1) ∧
      ∀ member ∈ members, ∃ name ∈ names, ∃ k, (registry s'.1).CachedAs k member ∧
        (scope.Fillable k → scope.Yields name) := by
    refine Reference.returns_build (P := fun names members s =>
      (∀ name ∈ names, name ∈ scope.names) → scope.Tight (registry s.1) ∧
        ∀ member ∈ members, ∃ name ∈ names, ∃ k, (registry s.1).CachedAs k member ∧
          (scope.Fillable k → scope.Yields name)) ?_ ?_ h
    · intro names name members s member s' hdone hrun hin
      obtain ⟨hs, hmembers⟩ := hdone fun n hn => hin n (List.mem_append_left _ hn)
      have hname := hin name (List.mem_append_right _ (List.mem_singleton_self name))
      obtain ⟨⟨hs', hext⟩, hmember⟩ :=
        yields_of_refers hfills hname hs (Reference.refers_of_returns hrun)
      -- keys stay where they are when more is registered
      have hold : ∀ m ∈ members, ∃ n ∈ names ++ [name], ∃ k, (registry s'.1).CachedAs k m ∧
          (scope.Fillable k → scope.Yields n) := by
        intro m hm
        obtain ⟨n, hn, k, hcached, hyields⟩ := hmembers m hm
        exact ⟨n, List.mem_append_left _ hn, k, hcached.extends hext, hyields⟩
      refine ⟨hs', fun m hm => ?_⟩
      cases member with
      | none => exact hold m hm
      | some member =>
        rcases Registry.mem_pushMember.mp hm with hm | rfl
        · exact hold m hm
        · exact ⟨name, List.mem_append_right _ (List.mem_singleton_self name), hmember m rfl⟩
    · exact fun _ => ⟨hs ▸ tight_start hstart, fun _ h => absurd h List.not_mem_nil⟩
  obtain ⟨htight, hmembers⟩ := hbuilt hnames
  refine ⟨below_iff.mpr fun member hmember => ?_, htight.sound, fun member hmember hpoints => ?_⟩
  · obtain ⟨_, _, _, hcached, -⟩ := hmembers member hmember
    exact hcached.below htight.sound
  · obtain ⟨name, hname, k, hcached, hyields⟩ := hmembers member hmember
    exact ⟨name, hname, hyields (htight.mem hcached hpoints)⟩

end Fills

end Scope

/-! ### Values -/

section Valued

variable {T P : Type} [DecidableEq T] {create : String → String → Except Fault T}
  {isLiteral : String → Except Fault Bool} {resolver : GenericResolver ValuedObject}
  {den : T → Set P} {contains : String → Set P} {start : Registry String T} {names : Set String}

/-- An object that lists values is cached under its own name. -/
theorem cachedAs_registerValued {object : ValuedObject} {r r' : Registry String T}
    {member : Member T} (hr : r.Sound)
    (h : Returns (registerValued create object) r member r') : r'.CachedAs object.name member := by
  unfold registerValued at h
  split at h
  · obtain ⟨id, hrun, rfl⟩ := returns_map.mp h
    exact groups_of_registerMulti hr hrun
  · split at h
    · obtain ⟨t, hrun, rfl⟩ := returns_map.mp h
      exact items_of_registerItem hrun
    · exact absurd h returns_throw

variable (create isLiteral resolver) in
/-- **Values are registered under keys that are fillable.**  An object with one value is cached
under its name, one with several values under its indexed names. -/
theorem fills_valued (hcontains : ∀ value, (contains value).Nonempty) :
    (valuedScope create isLiteral resolver den contains start names).Fills id where
  literal name hname hliteral :=
    keeps_registerItem_within fun _ _ _ => .caches (.literal hname hliteral) (hcontains name)
  object name object hlooked hobject := by
    show Keeps _ (registerValued create object)
    unfold registerValued
    split
    · next hgroup =>
      -- several values: each element is cached under its indexed name
      refine keeps_map _ (keeps_registerMulti_within fun hnew => ?_)
      refine ⟨.object hlooked hobject (decide_eq_true hgroup) hnew, fun element helement => ?_⟩
      obtain ⟨value, hvalue, rfl⟩ := List.mem_map.mp helement
      refine .caches (.element (e := (indexedName object.name value.2, contains value.1)) hlooked
        hobject (fun _ => hnew) ?_) (hcontains value.1)
      simp only [valuedScope, valuedReading, if_pos hgroup]
      exact List.mem_map_of_mem (f := fun value : String × ℕ =>
        (indexedName object.name value.2, contains value.1)) hvalue
    · next hgroup =>
      split
      · next value rest hvalues =>
        -- one value is cached under the name of the object
        refine keeps_map _ (keeps_registerItem_within fun _ _ _ => ?_)
        refine .caches (.element (e := (object.name, contains value)) hlooked hobject
          (fun hkind => absurd (of_decide_eq_true hkind) hgroup) ?_) (hcontains value)
        have hsingle : ¬(value :: rest).length > 1 := hvalues ▸ hgroup
        simp only [valuedScope, valuedReading, hvalues, if_neg hsingle]
        exact List.mem_cons_self
      · exact keeps_throw _
  pool pool r := exec_bind_pure_snd _ _ r
  getGroup _ _ := rfl
  cachedLiteral _ _ _ _ h := items_of_registerItem h
  cachedObject _ _ _ _ hr h := cachedAs_registerValued hr h

end Valued

/-! ### Registrations in the network -/

namespace Network

variable {P : Type} {k : Kind} {name : String} {create : Program Network Fault (Item k)}

/-- A new item is registered under a name of the set. -/
theorem keeps_registerNew_within {start : Registry String (Item k)} {den : Item k → Set P}
    {names : Set String} (hleaves : Keeps (Leaves k) create)
    (hk : ∀ nw item nw', Returns create nw item nw' → (den item).Nonempty → name ∈ names) :
    Keeps (Through (fun nw : Network => nw.registries k)
      (Under (Registry.Within start den names) Registry.Extends)) (registerNew k name create) := by
  intro nw hnw
  have htight : Registry.Within start den names (nw.registries k) := hnw
  rw [exec_registerNew]
  rcases hnone : (nw.registries k).items name with _ | item
  · -- the registry of the kind is as it was when the item is cached
    have hsame := (hleaves nw).symm
    rcases hrun : exec create nw with ⟨fault | item, nw'⟩
    · rw [hrun] at hsame
      have hsame : nw'.registries k = nw.registries k := hsame
      show Registry.Within start den names (nw'.registries k) ∧
        (nw.registries k).Extends (nw'.registries k)
      rw [hsame]
      exact ⟨htight, refl _⟩
    · rw [hrun] at hsame
      have hsame : nw'.registries k = nw.registries k := hsame
      show Registry.Within start den names ((nw'.setRegistry k _).registries k) ∧
        (nw.registries k).Extends ((nw'.setRegistry k _).registries k)
      rw [registries_setRegistry, hsame]
      exact ⟨htight.setItem hnone (hk nw item nw' hrun), Registry.grows_setItem hnone⟩
  · exact ⟨htight, refl _⟩

/-- The item that is returned is cached under the name. -/
theorem items_of_registerNew {nw nw' : Network} {item : Item k}
    (h : Returns (registerNew k name create) nw item nw') :
    (nw'.registries k).items name = some item := by
  rcases returns_registerNew h with ⟨hcached, rfl⟩ | ⟨nw₁, -, rfl⟩
  · exact hcached
  · rw [registries_setRegistry, Registry.items_setItem, Function.update_self]

/-- A group of names is registered in the registry of its kind. -/
theorem registries_registerGroupOf (pool : PoolObject) (nw : Network) :
    (exec (registerGroupOf k pool.name pool.members) nw).2.registries k =
      (exec (registerGroup pool.name pool.members : Program (Registry String (Item k)) Fault ℕ)
        (nw.registries k)).2 := by
  rw [registerGroupOf, exec_onKind, registries_setRegistry]

/-- An application without services has none to count. -/
theorem services_of_registerAppServices {texts : List String} {nw nw' : Network}
    {services : ServiceGroup} (h : Returns (registerAppServices texts) nw services nw')
    (hservices : services.items ≠ []) : texts ≠ [] := by
  rintro rfl
  obtain ⟨rfl, -⟩ := returns_foldlM_nil.mp h
  exact hservices rfl

end Network

/-! ### The names of a row -/

namespace FirewallFactory

open Network

variable (config : ModelConfig) (store : ObjectStore) (nw : Network) (names : Set String)

/-- Everything counts. -/
def all {α : Type} (_ : α) : Set Unit := Set.univ

/-- The names of addresses; all addresses count. -/
def addressItems (side : Side) :
    Scope (Registry String (Item (.address side))) (Item (.address side)) ValuedObject Unit :=
  ⟨addressReference config store side, valuedReading all, all, nw.registries (.address side), names⟩

/-- The names of services; all services count. -/
def serviceItems : Scope (Registry String (Item .service)) (Item .service) ValuedObject Unit :=
  ⟨serviceReference store, valuedReading all, all, nw.registries .service, names⟩

/-- An object is registered under a key, as an item that counts when the object does. -/
def namedReading {O : Type} (key : O → String) (counts : O → Set Unit) : Reading O Unit where
  literal := all
  key := key
  isGroup _ := false
  elements object := [(key object, counts object)]

/-- The names of applications; all applications count. -/
def applicationItems (useAppSvc : Bool) :
    Scope Network (Item (.application useAppSvc)) ApplicationObject Unit :=
  ⟨applicationReference store useAppSvc, namedReading ApplicationObject.name all, all,
    nw.registries _, names⟩

/-- The names of applications; applications with default services count. -/
def applicationServices (useAppSvc : Bool) :
    Scope Network (Item (.application useAppSvc)) ApplicationObject Unit :=
  ⟨applicationReference store useAppSvc,
    namedReading ApplicationObject.name fun object =>
      {_unit | ∃ texts, resolveAppServices store object.services = .ok texts ∧ texts ≠ []},
    fun application => {_unit | application.val.services.items ≠ []}, nw.registries _, names⟩

/-- The names of users; all users count. -/
def userItems : Scope Network (Item .user) UserObject Unit :=
  ⟨userReference store, namedReading UserObject.name all, all, nw.registries .user, names⟩

variable {config store nw names}

theorem all_nonempty {α : Type} (a : α) : (all a).Nonempty := ⟨(), trivial⟩

theorem fills_addressItems (side : Side) : (addressItems config store nw names side).Fills id := by
  exact fills_valued (createAddress config side) (fun name =>
    .ok (isIpAddress config.inet name config.ipModel config.strictIpParser)) store.addressResolver
    all_nonempty

theorem fills_serviceItems : (serviceItems store nw names).Fills id :=
  fills_valued Service.create isProtocolPort store.serviceResolver all_nonempty

/-- Applications are cached under their names; an item that counts comes from an object that
does. -/
theorem fills_applications {useAppSvc : Bool} {counts : ApplicationObject → Set Unit}
    {den : Item (.application useAppSvc) → Set Unit}
    {start : Registry String (Item (.application useAppSvc))}
    (hcounts : ∀ object texts, resolveAppServices store object.services = .ok texts →
      ∀ (application : Item (.application useAppSvc)),
        (application.val.services.items ≠ [] → texts ≠ []) →
          (den application).Nonempty → (counts object).Nonempty) :
    (Scope.mk (applicationReference store useAppSvc) (namedReading ApplicationObject.name counts)
      den start names).Fills (fun nw : Network => nw.registries (.application useAppSvc)) where
  literal _ _ hliteral := nomatch Except.ok.inj hliteral
  object name object hlooked hobject := by
    refine keeps_bind_of_returns (keeps_ofExcept _) fun nw texts nw' htexts => ?_
    obtain ⟨hresolve, rfl⟩ := returns_ofExcept.mp htexts
    -- the number and the services of an application leave the registry of applications alone
    have hids := keeps_zoomIds appIdGen (fun g nw => { nw with appIdGen := g })
      (fun _ _ => ⟨rfl, rfl⟩) (IdGenerator.getId object.name)
    refine keeps_map _ (keeps_registerNew_within ?_ fun nw₁ application nw₂ hcreate hden => ?_) nw
    · exact keeps_bind (hids.2 _) fun _ => keeps_bind
        (leaves_registerAppServices (k := .application useAppSvc) nofun texts)
        fun _ => keeps_bind keeps_get fun _ => keeps_pure _
    · obtain ⟨id, _, -, hrest⟩ := returns_bind.mp hcreate
      obtain ⟨services, _, hservices, hrest⟩ := returns_bind.mp hrest
      obtain ⟨_, _, -, hpure⟩ := returns_bind.mp hrest
      obtain ⟨rfl, -⟩ := returns_pure.mp hpure
      have hcount := hcounts object texts hresolve _
        (services_of_registerAppServices hservices) hden
      exact .caches (.element (e := (object.name, counts object)) hlooked hobject
        (fun h => absurd h Bool.false_ne_true) (List.mem_singleton_self _)) hcount
  pool pool nw := (congrArg (fun nw : Network => nw.registries _)
    (exec_bind_pure_snd _ _ nw)).trans (registries_registerGroupOf pool nw)
  getGroup _ _ := rfl
  cachedLiteral _ _ _ _ h := absurd h returns_throw
  cachedObject object nw member nw' _ h := by
    obtain ⟨texts, nw₁, -, hrun⟩ := returns_bind.mp h
    obtain ⟨application, happlication, rfl⟩ := returns_map.mp hrun
    exact items_of_registerNew happlication

theorem fills_applicationItems (useAppSvc : Bool) :
    (applicationItems store nw names useAppSvc).Fills fun nw => nw.registries _ :=
  fills_applications fun object _ _ _ _ _ => all_nonempty object

theorem fills_applicationServices (useAppSvc : Bool) :
    (applicationServices store nw names useAppSvc).Fills fun nw => nw.registries _ :=
  fills_applications fun _ texts hresolve _ hservices ⟨_, hden⟩ =>
    ⟨(), texts, hresolve, hservices hden⟩

theorem fills_userItems : (userItems store nw names).Fills fun nw => nw.registries .user where
  literal _ _ hliteral := nomatch Except.ok.inj hliteral
  object name object hlooked hobject := by
    have hids := keeps_zoomIds userIdGen (fun g nw => { nw with userIdGen := g })
      (fun _ _ => ⟨rfl, rfl⟩) (IdGenerator.getId object.name)
    refine keeps_map _ (keeps_registerNew_within ?_ fun _ _ _ _ _ => ?_)
    · exact keeps_bind (hids.2 _) fun _ => keeps_bind keeps_get fun _ => keeps_pure _
    · exact .caches (.element (e := (object.name, all object)) hlooked hobject
        (fun h => absurd h Bool.false_ne_true) (List.mem_singleton_self _)) (all_nonempty object)
  pool pool nw := (congrArg (fun nw : Network => nw.registries .user)
    (exec_bind_pure_snd _ _ nw)).trans (registries_registerGroupOf pool nw)
  getGroup _ _ := rfl
  cachedLiteral _ _ _ _ h := absurd h returns_throw
  cachedObject object nw member nw' _ h := by
    obtain ⟨user, huser, rfl⟩ := returns_map.mp h
    exact items_of_registerNew huser

/-! ### Rows with an empty group -/

/-- A group that is not empty has a member that leads to an item. -/
theorem exists_member_of_items {T S : Type} [Mnode S] [DecidableEq S] {f : T → S}
    {r : Registry String T} (hr : r.Sound)
    {members : List (Member T)} (hbelow : Below r.heap.length members)
    (h : (groupValue f r members).items.isEmpty = false) :
    ∃ member ∈ members, (r.meaning all member).Nonempty := by
  obtain ⟨a, ha⟩ := List.exists_mem_of_ne_nil _ (List.isEmpty_eq_false_iff.mp h)
  obtain ⟨t, ht, -⟩ := (mem_parse_groupValue hr hbelow).mp (Group.mem_items.mp ha)
  obtain ⟨member, hmember, hleads⟩ := leads_iff.mp ht
  exact ⟨member, hmember, (), t, hleads, trivial⟩

section Yields

variable {nw' nw'' : Network} (hs : nw.Sound)

include hs

/-- Some name of addresses that are built into a group with items yields. -/
theorem yields_addresses {side : Side} {addresses : List String}
    {members : List (Member (Item (.address side)))}
    (hsame : nw.registries (.address side) = nw'.registries (.address side))
    (h : BuildsGroup (buildAddressGroup config store side addresses) nw' members nw'')
    (hitems : (nw''.addressGroup side members).items.isEmpty = false) :
    ∃ name ∈ addresses,
      (addressItems config store nw {name | name ∈ addresses} side).Yields name := by
  obtain ⟨u, u', hrun⟩ := h
  have hfills : (addressItems config store nw {name | name ∈ addresses} side).Fills id :=
    fills_addressItems side
  obtain ⟨hbelow, hsound, hyields⟩ :=
    Scope.yields_of_build hfills (fun _ hname => hname) (returns_onKindNames hrun) (hs _) hsame
  obtain ⟨member, hmember, hpoints⟩ := exists_member_of_items hsound hbelow hitems
  exact hyields member hmember hpoints

/-- Some name of services yields. -/
theorem yields_services {rule : RuleObject} (hdefault : rule.defaultAppServices = false)
    {members : List (Member (Item .service))}
    (hsame : nw.registries .service = nw'.registries .service)
    (h : BuildsGroup (buildServiceGroup store rule) nw' members nw'')
    (hitems : (nw''.serviceGroup members).items.isEmpty = false) :
    ∃ name ∈ rule.services, (serviceItems store nw {name | name ∈ rule.services}).Yields name := by
  obtain ⟨u, u', hrun⟩ := h
  rw [buildServiceGroup, if_neg (Bool.eq_false_iff.mp hdefault)] at hrun
  have hfills : (serviceItems store nw {name | name ∈ rule.services}).Fills id := fills_serviceItems
  obtain ⟨hbelow, hsound, hyields⟩ :=
    Scope.yields_of_build hfills (fun _ hname => hname) (returns_onKindNames hrun) (hs _) hsame
  obtain ⟨member, hmember, hpoints⟩ := exists_member_of_items hsound hbelow hitems
  exact hyields member hmember hpoints

/-- Some name of applications yields. -/
theorem yields_applications {rule : RuleObject}
    {members : List (Member (Item (.application rule.defaultAppServices)))}
    (hsame : nw.registries (.application rule.defaultAppServices) = nw'.registries _)
    (h : BuildsGroup (buildApplicationGroup store rule) nw' members nw'')
    (hitems : (nw''.applicationGroup _ members).items.isEmpty = false) :
    ∃ name ∈ rule.applications, (applicationItems store nw {name | name ∈ rule.applications}
      rule.defaultAppServices).Yields name := by
  obtain ⟨u, u', hrun⟩ := h
  have hfills : (applicationItems store nw {name | name ∈ rule.applications}
      rule.defaultAppServices).Fills fun nw => nw.registries _ := fills_applicationItems _
  obtain ⟨hbelow, hsound, hyields⟩ :=
    Scope.yields_of_build hfills (fun _ hname => hname) hrun (hs _) hsame
  obtain ⟨member, hmember, hpoints⟩ := exists_member_of_items hsound hbelow hitems
  exact hyields member hmember hpoints

/-- Some name of applications with default services yields. -/
theorem yields_defaultServices {rule : RuleObject}
    {members : List (Member (Item (.application rule.defaultAppServices)))}
    (hsame : nw.registries (.application rule.defaultAppServices) = nw'.registries _)
    (h : BuildsGroup (buildApplicationGroup store rule) nw' members nw'')
    (hitems : (defaultServices (nw''.applicationGroup _ members)).items.isEmpty = false) :
    ∃ name ∈ rule.applications, (applicationServices store nw {name | name ∈ rule.applications}
      rule.defaultAppServices).Yields name := by
  obtain ⟨u, u', hrun⟩ := h
  have hfills : (applicationServices store nw {name | name ∈ rule.applications}
      rule.defaultAppServices).Fills fun nw => nw.registries _ := fills_applicationServices _
  obtain ⟨hbelow, hsound, hyields⟩ :=
    Scope.yields_of_build hfills (fun _ hname => hname) hrun (hs _) hsame
  -- a service is one of an application that a member leads to
  obtain ⟨service, hservice⟩ := List.exists_mem_of_ne_nil _ (List.isEmpty_eq_false_iff.mp hitems)
  obtain ⟨application, happlication, hservice⟩ := mem_items_defaultServices.mp hservice
  obtain ⟨item, ht, rfl⟩ :=
    (mem_parse_groupValue hsound hbelow).mp (Group.mem_items.mp happlication)
  obtain ⟨member, hmember, hleads⟩ := leads_iff.mp ht
  exact hyields member hmember ⟨(), item, hleads, List.ne_nil_of_mem hservice⟩

/-- Some name of the services that a row builds yields, unless they are default services. -/
theorem yields_ownServices {rule : RuleObject} (hdefault : rule.defaultAppServices = false)
    {applications : List (Member (Item (.application rule.defaultAppServices)))}
    {services : ServicesRef} (hsame : nw.registries .service = nw'.registries .service)
    (h : BuildsServices store rule applications nw' services nw'')
    (hitems : (services.value nw'').items.isEmpty = false) :
    ∃ name ∈ rule.services, (serviceItems store nw {name | name ∈ rule.services}).Yields name := by
  cases h with
  | appDefault hdefault' => exact nomatch hdefault.symm.trans hdefault'
  | registered _ hrun => exact yields_services hs hdefault hsame hrun hitems

/-- Some name of the applications of a row with default services yields. -/
theorem yields_appDefault {rule : RuleObject} (hdefault : rule.defaultAppServices = true)
    {applications : List (Member (Item (.application rule.defaultAppServices)))}
    {services : ServicesRef} {nw₃ : Network}
    (hsame : nw.registries (.application rule.defaultAppServices) = nw'.registries _)
    (happ : BuildsGroup (buildApplicationGroup store rule) nw' applications nw'')
    (h : BuildsServices store rule applications nw'' services nw₃)
    (hitems : (services.value nw₃).items.isEmpty = false) :
    ∃ name ∈ rule.applications, (applicationServices store nw {name | name ∈ rule.applications}
      rule.defaultAppServices).Yields name := by
  cases h with
  | appDefault _ => exact yields_defaultServices hs hsame happ hitems
  | registered hdefault' _ => exact nomatch hdefault'.symm.trans hdefault

/-- Some name of users yields. -/
theorem yields_users {rule : RuleObject} {members : List (Member (Item .user))}
    (hsame : nw.registries .user = nw'.registries .user)
    (h : BuildsGroup (buildUserGroup store rule) nw' members nw'')
    (hitems : (nw''.userGroup members).items.isEmpty = false) :
    ∃ name ∈ rule.users, (userItems store nw {name | name ∈ rule.users}).Yields name := by
  obtain ⟨u, u', hrun⟩ := h
  have hfills : (userItems store nw {name | name ∈ rule.users}).Fills fun nw =>
      nw.registries .user := fills_userItems
  obtain ⟨hbelow, hsound, hyields⟩ :=
    Scope.yields_of_build hfills (fun _ hname => hname) hrun (hs _) hsame
  obtain ⟨member, hmember, hpoints⟩ := exists_member_of_items hsound hbelow hitems
  exact hyields member hmember hpoints

end Yields

/-- A criterion of the row has no name that yields.  Zones and urls need no store: each name is
registered. -/
inductive Unfilled (config : ModelConfig) (store : ObjectStore) (rule : RuleObject)
    (nw : Network) : Prop
  | addresses (side : Side) (h : ∀ name ∈ rule.addresses side,
      ¬(addressItems config store nw {name | name ∈ rule.addresses side} side).Yields name)
  | services (hdefault : rule.defaultAppServices = false) (h : ∀ name ∈ rule.services,
      ¬(serviceItems store nw {name | name ∈ rule.services}).Yields name)
  | applications (h : ∀ name ∈ rule.applications, ¬(applicationItems store nw
      {name | name ∈ rule.applications} rule.defaultAppServices).Yields name)
  | defaultServices (hdefault : rule.defaultAppServices = true) (h : ∀ name ∈ rule.applications,
      ¬(applicationServices store nw {name | name ∈ rule.applications}
        rule.defaultAppServices).Yields name)
  | users (h : ∀ name ∈ rule.users, ¬(userItems store nw {name | name ∈ rule.users}).Yields name)
  | sourceZones (h : rule.sourceZones = [])
  | destinationZones (h : rule.destinationZones = [])
  | urls (h : rule.urls = [])

/-- A criterion that is filled has items in the network it was built in. -/
theorem filled_of_criterion {α : Type} {build : Program Loading Fault α}
    {isEmpty : α → Network → Bool} {report : LoaderStatus → LoaderStatus} {s s' : Loading}
    {a : α × Bool} (h : Returns (criterion build isEmpty report) s a s') (hfilled : a.2 = true) :
    isEmpty a.1 s'.network = false := by
  obtain ⟨group, t, hbuild, h⟩ := returns_bind.mp h
  obtain ⟨t', t'', hget, h⟩ := returns_bind.mp h
  obtain ⟨rfl, rfl⟩ := returns_get.mp hget
  split at h
  · obtain ⟨_, t', -, h⟩ := returns_bind.mp h
    obtain ⟨rfl, rfl⟩ := returns_pure.mp h
    exact nomatch hfilled
  · next hitems =>
    obtain ⟨rfl, rfl⟩ := returns_pure.mp h
    exact Bool.eq_false_iff.mpr hitems

/-- A part of a row that leaves a registry alone. -/
theorem Built.leaves {α : Type} {k : Kind} {build : Program Loading Fault α} {s s' : Loading}
    {a : α} (hbuild : Keeps (Loading.Leaves k) build) (h : Built build s a s') :
    s.network.registries k = s'.network.registries k := by
  obtain ⟨t, hrun, hsame⟩ := h
  rw [hsame]
  exact hbuild.returns hrun

/-- Addresses of one side are only built into the registry of this side. -/
theorem registries_addresses {side : Side} {addresses : List String} {s s' : Loading}
    {group : List (Member (Item (.address side)))}
    (h : Built (onAddresses (buildAddressGroup config store side addresses)) s group s') {k : Kind}
    (hk : k ≠ .address side) : s.network.registries k = s'.network.registries k :=
  h.leaves (leaves_onNames (leaves_buildAddressGroup hk _))

/-- Applications are built into the registries of applications and of their services. -/
theorem registries_applications {rule : RuleObject} {s s' : Loading}
    {group : List (Member (Item (.application rule.defaultAppServices)))}
    (h : Built (onApplications (buildApplicationGroup store rule)) s group s') {k : Kind}
    (hk : ∀ useAppSvc, k ≠ .application useAppSvc) (happsvc : k ≠ .appsvc) :
    s.network.registries k = s'.network.registries k :=
  h.leaves (leaves_onNames (leaves_buildApplicationGroup hk happsvc _))

/-- Services and zones leave the users alone. -/
theorem registries_users {rule : RuleObject} {s s₁ s₂ s₃ : Loading} {services : ServicesRef}
    {applications : List (Member (Item (.application rule.defaultAppServices)))}
    {srcZones : List (Member (Item (.zone .src)))} {dstZones : List (Member (Item (.zone .dst)))}
    (hsvc : Built (buildServices store rule applications) s services s₁)
    (hsrcZone : Built (onNetwork (buildZoneGroup .src rule.sourceZones)) s₁ srcZones s₂)
    (hdstZone : Built (onNetwork (buildZoneGroup .dst rule.destinationZones)) s₂ dstZones s₃) :
    s.network.registries .user = s₃.network.registries .user :=
  calc s.network.registries .user
    _ = s₁.network.registries .user := hsvc.leaves (leaves_buildServices (k := .user) nofun _ _)
    _ = s₂.network.registries .user :=
      hsrcZone.leaves (leaves_onNetwork (leaves_buildZoneGroup (k := .user) nofun _))
    _ = s₃.network.registries .user :=
      hdstZone.leaves (leaves_onNetwork (leaves_buildZoneGroup (k := .user) nofun _))

/-- Zones are only built into a group with items from names. -/
theorem names_of_zones {side : Side} {zones : List String} {s s' : Loading}
    {members : List (Member (Item (.zone side)))}
    (h : Built (onNetwork (buildZoneGroup side zones)) s members s')
    (hitems : (s'.network.zoneGroup side members).items.isEmpty = false) : zones ≠ [] := by
  rintro rfl
  obtain ⟨t, hrun, -⟩ := h
  obtain ⟨rfl, -⟩ := returns_foldlM_nil.mp (returns_onNetwork hrun)
  exact nomatch hitems

/-- So are urls. -/
theorem names_of_urls {rule : RuleObject} {nw nw' : Network} {members : List (Member (Item .url))}
    (h : BuildsGroup (buildUrlGroup store rule) nw members nw')
    (hitems : (nw'.urlGroup members).items.isEmpty = false) : rule.urls ≠ [] := by
  intro hnone
  obtain ⟨u, u', hrun⟩ := h
  rw [buildUrlGroup, hnone] at hrun
  obtain ⟨rfl, -⟩ := returns_foldlM_nil.mp hrun
  exact nomatch hitems

/-- **A row with a criterion none of whose names yields has an empty group.**  The names are
looked at in the network that the row finds: what the criteria before cache is of another kind,
so it cannot help a later criterion. -/
theorem not_filled_of_unfilled {rule : RuleObject} {s s' : Loading} {criteria : CriteriaRef × Bool}
    (hs : s.network.Sound) (hunfilled : Unfilled config store rule s.network)
    (h : Returns (buildCriteria config store rule) s criteria s') : criteria.2 = false := by
  by_contra hfilled
  obtain ⟨src, s₁, hsrc, h⟩ := returns_bind.mp h
  obtain ⟨dst, s₂, hdst, h⟩ := returns_bind.mp h
  obtain ⟨app, s₃, happ, h⟩ := returns_bind.mp h
  obtain ⟨svc, s₄, hsvc, h⟩ := returns_bind.mp h
  obtain ⟨srcZone, s₅, hsrcZone, h⟩ := returns_bind.mp h
  obtain ⟨dstZone, s₆, hdstZone, h⟩ := returns_bind.mp h
  obtain ⟨user, s₇, huser, h⟩ := returns_bind.mp h
  obtain ⟨url, s₈, hurl, h⟩ := returns_bind.mp h
  obtain ⟨rfl, rfl⟩ := returns_pure.mp h
  simp only [Bool.not_eq_false, Bool.and_eq_true] at hfilled
  obtain ⟨⟨⟨⟨⟨⟨⟨fsrc, fdst⟩, fapp⟩, fsvc⟩, fsrcZone⟩, fdstZone⟩, fuser⟩, furl⟩ := hfilled
  have bsrc := built_of_criterion hsrc
  have bdst := built_of_criterion hdst
  have bapp := built_of_criterion happ
  have bsvc := built_of_criterion hsvc
  -- each build leaves the registries of the other kinds as they were
  have hdst₂ : ∀ {k : Kind}, (∀ side, k ≠ .address side) →
      s.network.registries k = s₂.network.registries k := fun hk =>
    (registries_addresses bsrc (hk .src)).trans (registries_addresses bdst (hk .dst))
  have happ₃ : ∀ {k : Kind}, (∀ side, k ≠ .address side) →
      (∀ useAppSvc, k ≠ .application useAppSvc) → k ≠ .appsvc →
      s.network.registries k = s₃.network.registries k := fun hk happlication happsvc =>
    (hdst₂ hk).trans (registries_applications bapp happlication happsvc)
  cases hunfilled with
  | addresses side hno =>
    cases side with
    | src =>
      obtain ⟨name, hname, hyields⟩ := yields_addresses hs rfl bsrc.group
        (filled_of_criterion hsrc fsrc)
      exact hno name hname hyields
    | dst =>
      obtain ⟨name, hname, hyields⟩ := yields_addresses hs
        (registries_addresses bsrc (k := .address .dst) nofun) bdst.group
        (filled_of_criterion hdst fdst)
      exact hno name hname hyields
  | services hdefault hno =>
    obtain ⟨name, hname, hyields⟩ := yields_ownServices hs hdefault
      (happ₃ (k := .service) nofun nofun nofun) bsvc.services (filled_of_criterion hsvc fsvc)
    exact hno name hname hyields
  | applications hno =>
    obtain ⟨name, hname, hyields⟩ := yields_applications hs (hdst₂ (k := .application _) nofun)
      bapp.group (filled_of_criterion happ fapp)
    exact hno name hname hyields
  | defaultServices hdefault hno =>
    obtain ⟨name, hname, hyields⟩ := yields_appDefault hs hdefault
      (hdst₂ (k := .application _) nofun) bapp.group bsvc.services (filled_of_criterion hsvc fsvc)
    exact hno name hname hyields
  | users hno =>
    have husers := (happ₃ (k := .user) nofun nofun nofun).trans
      (registries_users bsvc (built_of_criterion hsrcZone) (built_of_criterion hdstZone))
    obtain ⟨name, hname, hyields⟩ := yields_users hs husers (built_of_criterion huser).group
      (filled_of_criterion huser fuser)
    exact hno name hname hyields
  | sourceZones hnone =>
    exact names_of_zones (built_of_criterion hsrcZone)
      (filled_of_criterion hsrcZone fsrcZone) hnone
  | destinationZones hnone =>
    exact names_of_zones (built_of_criterion hdstZone)
      (filled_of_criterion hdstZone fdstZone) hnone
  | urls hnone =>
    exact names_of_urls (built_of_criterion hurl).group (filled_of_criterion hurl furl) hnone

end FirewallFactory

end RulesAnalyzer
