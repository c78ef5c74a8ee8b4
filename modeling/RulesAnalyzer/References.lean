import RulesAnalyzer.Resolver
import RulesAnalyzer.Shared.Registry

/-!
# References

A criterion of a policy row is a list of names.  A name is a literal value, an
object of the store or a pool of the store, and is looked up in this order; what it
stands for is registered, and a name that stands for nothing is noted and left out.
All criteria are built in this way, from their own tables.

## Main definitions

* `Reference` — where the names of a criterion are looked up and registered.
* `Reference.reference`, `Reference.build` — the member a name stands for, and the group of a
  list of names.

## Main results

* `Reference.refers_of_returns` — what a name stands for.
* `Reference.Keeping.build` — what the registrations keep, the whole criterion keeps.
-/

namespace RulesAnalyzer

open Effect Shared

/-- How the names of a criterion are looked up and registered in a state. -/
structure Reference (σ T O : Type) where
  isLiteral : String → Except Fault Bool
  registerLiteral : String → Program σ Fault T
  resolver : GenericResolver O
  registerObject : O → Program σ Fault (Member T)
  registerPool : PoolObject → Program σ Fault PUnit
  getGroup : σ → String → Option ℕ

namespace Reference

variable {σ T O α : Type} (reference : Reference σ T O)

/-- A program on the registries. -/
def onRegistry (p : Program σ Fault α) : Program (σ × List String) Fault α :=
  zoom Prod.fst (fun r s => (r, s.2)) p

/-- A program on the names that are not resolved. -/
def onUnresolved (p : Program (List String) Fault α) : Program (σ × List String) Fault α :=
  zoom Prod.snd (fun unresolved s => (s.1, unresolved)) p

/-- Registers a member of a pool. -/
def registerMember : PoolMember O → Program σ Fault PUnit
  | .object object => do
    let _ ← reference.registerObject object
    pure ⟨⟩
  | .pool pool => reference.registerPool pool

/-- The group that is registered under a name; the code does not check that there is one. -/
def registeredGroup (name : String) : Program σ Fault (Member T) := do
  match reference.getGroup (← get) name with
  | some id => pure (.group id)
  | none => throw .undefined

/-- Registers a pool and all that is below it. -/
def referencePool (name : String) (pool : PoolObject) :
    Program (σ × List String) Fault (Member T) := do
  let members ← onUnresolved (reference.resolver.resolve pool)
  onRegistry (members.forM reference.registerMember)
  onRegistry (reference.registeredGroup name)

/-- The member a name that is no literal stands for. -/
def referenceName (name : String) : Program (σ × List String) Fault (Option (Member T)) :=
  match reference.resolver.objects name with
  | some object => some <$> onRegistry (reference.registerObject object)
  | none =>
    match reference.resolver.pool name with
    | some pool => some <$> reference.referencePool name pool
    | none => do
      modify fun s => (s.1, s.2 ++ [name])
      pure none

/-- The member a name stands for. -/
def refer (name : String) : Program (σ × List String) Fault (Option (Member T)) := do
  let literal ← MonadExcept.ofExcept (reference.isLiteral name)
  if literal then (some ∘ Member.item) <$> onRegistry (reference.registerLiteral name)
  else reference.referenceName name

/-- The members that names stand for. -/
def build [DecidableEq T] (names : List String) :
    Program (σ × List String) Fault (List (Member T)) :=
  names.foldlM (fun members name => do
    let member ← reference.refer name
    pure (match member with
      | some member => Registry.pushMember members member
      | none => members)) []

/-! ### What a name stands for -/

/-- The registries before a name is looked up, the member it stands for, and the registries
then. -/
inductive Refers (name : String) (s : σ) : Option (Member T) → σ → Prop
  | literal {t : T} {s' : σ} (hliteral : reference.isLiteral name = .ok true)
      (hrun : Returns (reference.registerLiteral name) s t s') : Refers name s (some (.item t)) s'
  | object {object : O} {member : Member T} {s' : σ}
      (hliteral : reference.isLiteral name = .ok false)
      (hobject : reference.resolver.objects name = some object)
      (hrun : Returns (reference.registerObject object) s member s') :
      Refers name s (some member) s'
  | pool {pool : PoolObject} {below : List (PoolMember O)} {id : ℕ} {s' : σ}
      (hliteral : reference.isLiteral name = .ok false)
      (hobject : reference.resolver.objects name = none)
      (hpool : reference.resolver.pool name = some pool)
      (hbelow : reference.resolver.Expands pool.members below)
      (hrun : Returns ((below ++ [PoolMember.pool pool]).forM reference.registerMember) s ⟨⟩ s')
      (hgroup : reference.getGroup s' name = some id) : Refers name s (some (.group id)) s'
  | missing (hliteral : reference.isLiteral name = .ok false)
      (hobject : reference.resolver.objects name = none)
      (hpool : reference.resolver.pool name = none) : Refers name s none s

variable {reference}

theorem returns_onRegistry {p : Program σ Fault α} {s s' : σ × List String} {a : α} :
    Returns (onRegistry p) s a s' ↔ Returns p s.1 a s'.1 ∧ s'.2 = s.2 := by
  rw [onRegistry, returns_zoom]
  constructor
  · rintro ⟨t, hrun, rfl⟩
    exact ⟨hrun, rfl⟩
  · intro ⟨hrun, hsame⟩
    exact ⟨s'.1, hrun, Prod.ext rfl hsame.symm⟩

theorem returns_registeredGroup {name : String} {s s' : σ} {member : Member T} :
    Returns (reference.registeredGroup name) s member s' ↔
      ∃ id, reference.getGroup s name = some id ∧ member = .group id ∧ s' = s := by
  rw [registeredGroup, Returns, exec_get_bind]
  rcases reference.getGroup s name with _ | id
  · constructor
    · intro h
      cases h
    · rintro ⟨id, h, -⟩
      cases h
  · simp only [exec_pure, Prod.mk.injEq, Except.ok.injEq, Option.some.injEq, exists_eq_left']
    exact ⟨fun h => ⟨h.1.symm, h.2.symm⟩, fun h => ⟨h.1.symm, h.2.symm⟩⟩

/-- **What a name stands for when its lookup returns.**  The cases are those of the source: a
literal, an object, a pool, or a name that the store does not have. -/
theorem refers_of_returns {name : String} {s s' : σ × List String} {member : Option (Member T)}
    (h : Returns (reference.refer name) s member s') : reference.Refers name s.1 member s'.1 := by
  rw [refer] at h
  obtain ⟨literal, s₀, htest, h⟩ := returns_bind.mp h
  obtain ⟨hliteral, rfl⟩ := returns_ofExcept.mp htest
  cases literal with
  | true =>
    obtain ⟨t, hrun, rfl⟩ := returns_map.mp h
    exact .literal hliteral (returns_onRegistry.mp hrun).1
  | false =>
    rw [if_neg Bool.false_ne_true, referenceName] at h
    -- an object, a pool, or a name that the store does not have
    rcases hobject : reference.resolver.objects name with _ | object
    · rcases hpool : reference.resolver.pool name with _ | pool
      · simp only [hobject, hpool] at h
        obtain ⟨_, t, hmodify, h⟩ := returns_bind.mp h
        obtain ⟨rfl, rfl⟩ := returns_pure.mp h
        rw [← returns_modify.mp hmodify]
        exact .missing hliteral hobject hpool
      · simp only [hobject, hpool] at h
        obtain ⟨member, hrun, rfl⟩ := returns_map.mp h
        obtain ⟨members, s₁, hexpand, hrun⟩ := returns_bind.mp hrun
        obtain ⟨_, s₂, hmembers, hlookup⟩ := returns_bind.mp hrun
        obtain ⟨unresolved, hresolve, rfl⟩ := returns_zoom.mp hexpand
        obtain ⟨below, hbelow, rfl⟩ := GenericResolver.expands_of_resolve hresolve
        -- the group is looked up under the members, not under the name
        have hfound := (returns_onRegistry.mp hlookup).1
        obtain ⟨id, hgroup, rfl, hsame⟩ := returns_registeredGroup.mp hfound
        rw [hsame]
        exact .pool hliteral hobject hpool hbelow (returns_onRegistry.mp hmembers).1 hgroup
    · simp only [hobject] at h
      obtain ⟨member, hrun, rfl⟩ := returns_map.mp h
      exact .object hliteral hobject (returns_onRegistry.mp hrun).1

/-- What the name of an object stands for. -/
theorem returns_refer_object_iff {name : String} {object : O}
    (hobject : reference.resolver.objects name = some object) {s s' : σ × List String}
    {member : Option (Member T)} : Returns (reference.refer name) s member s' ↔ s'.2 = s.2 ∧
      ((reference.isLiteral name = .ok true ∧
          ∃ t, Returns (reference.registerLiteral name) s.1 t s'.1 ∧ member = some (.item t)) ∨
        (reference.isLiteral name = .ok false ∧
          ∃ m, Returns (reference.registerObject object) s.1 m s'.1 ∧ member = some m)) := by
  rw [refer, returns_bind]
  constructor
  · rintro ⟨literal, t, htest, h⟩
    obtain ⟨hliteral, rfl⟩ := returns_ofExcept.mp htest
    cases literal with
    | true =>
      obtain ⟨item, hrun, rfl⟩ := returns_map.mp h
      obtain ⟨hrun, hsame⟩ := returns_onRegistry.mp hrun
      exact ⟨hsame, Or.inl ⟨hliteral, item, hrun, rfl⟩⟩
    | false =>
      rw [if_neg Bool.false_ne_true, referenceName, hobject] at h
      obtain ⟨m, hrun, rfl⟩ := returns_map.mp h
      obtain ⟨hrun, hsame⟩ := returns_onRegistry.mp hrun
      exact ⟨hsame, Or.inr ⟨hliteral, m, hrun, rfl⟩⟩
  · rintro ⟨hsame, ⟨hliteral, item, hrun, rfl⟩ | ⟨hliteral, m, hrun, rfl⟩⟩
    · refine ⟨true, s, returns_ofExcept.mpr ⟨hliteral, rfl⟩, ?_⟩
      exact returns_map.mpr ⟨item, returns_onRegistry.mpr ⟨hrun, hsame⟩, rfl⟩
    · refine ⟨false, s, returns_ofExcept.mpr ⟨hliteral, rfl⟩, ?_⟩
      rw [if_neg Bool.false_ne_true, referenceName, hobject]
      exact returns_map.mpr ⟨m, returns_onRegistry.mpr ⟨hrun, hsame⟩, rfl⟩

/-- The members of a criterion with one name. -/
theorem returns_build_singleton [DecidableEq T] {name : String} {s s' : σ × List String}
    {members : List (Member T)} : Returns (reference.build [name]) s members s' ↔
      ∃ member, Returns (reference.refer name) s member s' ∧ members = member.toList := by
  rw [build, returns_foldlM_cons]
  constructor
  · rintro ⟨first, t, hrun, hrest⟩
    obtain ⟨rfl, rfl⟩ := returns_foldlM_nil.mp hrest
    obtain ⟨member, t', hrefer, hpure⟩ := returns_bind.mp hrun
    obtain ⟨rfl, rfl⟩ := returns_pure.mp hpure
    refine ⟨member, hrefer, ?_⟩
    cases member <;> rfl
  · rintro ⟨member, hrefer, rfl⟩
    refine ⟨_, s', returns_bind.mpr ⟨member, s', hrefer, returns_pure.mpr ⟨rfl, rfl⟩⟩, ?_⟩
    refine returns_foldlM_nil.mpr ⟨?_, rfl⟩
    cases member <;> rfl

/-- **What each name adds to the names before it, the criterion adds.** -/
theorem returns_build [DecidableEq T] {P : List String → List (Member T) → σ × List String → Prop}
    (hstep : ∀ names name members s member s', P names members s →
      Returns (reference.refer name) s member s' →
        P (names ++ [name]) (member.elim members (Registry.pushMember members)) s')
    {names : List String} {s s' : σ × List String} {members : List (Member T)} (hs : P [] [] s)
    (h : Returns (reference.build names) s members s') : P names members s' := by
  rw [build] at h
  have hall : P ([] ++ names) members s' := by
    refine returns_foldlM_append (fun done name members s members' s' hdone hrun => ?_) hs h
    obtain ⟨member, t, hrefer, hpure⟩ := returns_bind.mp hrun
    obtain ⟨rfl, rfl⟩ := returns_pure.mp hpure
    have hnext := hstep done name members s member t hdone hrefer
    cases member with
    | none => exact hnext
    | some member => exact hnext
  exact hall

/-! ### What references keep -/

variable {R : σ → σ → Prop}

theorem keeps_onRegistry {p : Program σ Fault α} (hp : Keeps R p) :
    Keeps (Through Prod.fst R) (onRegistry p) := keeps_zoom hp fun _ _ h => h

variable [Std.Refl R]

theorem keeps_onUnresolved (p : Program (List String) Fault α) :
    Keeps (Through Prod.fst R) (onUnresolved p : Program (σ × List String) Fault α) :=
  fun s => refl s.1

theorem keeps_registeredGroup (name : String) : Keeps R (reference.registeredGroup name) := by
  intro s
  rw [registeredGroup, exec_get_bind]
  cases reference.getGroup s name <;> exact refl s

variable (reference R) in
/-- All registrations keep a relation. -/
structure Keeping : Prop where
  literal : ∀ name, Keeps R (reference.registerLiteral name)
  object : ∀ object, Keeps R (reference.registerObject object)
  pool : ∀ pool, pool.name ∉ pool.members → Keeps R (reference.registerPool pool)

variable [IsTrans σ R]

/-- Pools that are not their own members, and objects, are registered. -/
theorem Keeping.registerMembers (h : reference.Keeping R) {members : List (PoolMember O)}
    (hpools : ∀ pool, .pool pool ∈ members → pool.name ∉ pool.members) :
    Keeps R (members.forM reference.registerMember) := by
  refine keeps_forM fun member hmember => ?_
  cases member with
  | object object => exact keeps_bind (h.object object) fun _ => keeps_pure _
  | pool pool => exact h.pool pool (hpools pool hmember)

theorem Keeping.referencePool (h : reference.Keeping R) {name : String} {pool : PoolObject}
    (hnone : reference.resolver.objects name = none)
    (hsome : reference.resolver.pool name = some pool) :
    Keeps (Through Prod.fst R) (reference.referencePool name pool) := by
  refine keeps_bind_of_returns (keeps_onUnresolved _) fun s members s' hreturns => ?_
  obtain ⟨unresolved, hresolve, -⟩ := returns_zoom.mp hreturns
  obtain ⟨below, hbelow, rfl⟩ := GenericResolver.expands_of_resolve hresolve
  have hname := GenericResolver.pool_name hsome
  refine keeps_bind (keeps_onRegistry (h.registerMembers fun sub hsub => ?_))
    (fun _ => keeps_onRegistry (keeps_registeredGroup name)) s'
  rcases List.mem_append.mp hsub with hsub | hsub
  · exact hbelow.notMem hsub
  · obtain rfl := PoolMember.pool.inj (List.mem_singleton.mp hsub)
    exact hbelow.notMem_self (hname ▸ hnone) (hname ▸ hsome)

theorem Keeping.referenceName (h : reference.Keeping R) (name : String) :
    Keeps (Through Prod.fst R) (reference.referenceName name) := by
  rw [Reference.referenceName]
  rcases hnone : reference.resolver.objects name with _ | object
  · rcases hsome : reference.resolver.pool name with _ | pool
    · exact fun s => refl s.1
    · exact keeps_map _ (h.referencePool hnone hsome)
  · exact keeps_map _ (keeps_onRegistry (h.object object))

theorem Keeping.refer (h : reference.Keeping R) (name : String) :
    Keeps (Through Prod.fst R) (reference.refer name) := by
  refine keeps_bind (keeps_ofExcept _) fun literal => ?_
  cases literal with
  | true => exact keeps_map _ (keeps_onRegistry (h.literal name))
  | false => exact h.referenceName name

/-- **What the registrations keep, the whole criterion keeps.** -/
theorem Keeping.build [DecidableEq T] (h : reference.Keeping R) (names : List String) :
    Keeps (Through Prod.fst R) (reference.build names) :=
  keeps_foldlM fun _ name _ => keeps_bind (h.refer name) fun _ => keeps_pure _

/-! ### What references refer to -/

section Holds

variable {I : σ → Prop} {E : σ → σ → Prop} {P : σ → Member T → Prop}

/-- A property of members that lasts holds of all members of a criterion, when it holds of
those a name stands for. -/
theorem holds_build [DecidableEq T]
    [Std.Refl E] [IsTrans σ E] (hkeeps : reference.Keeping (Under I E))
    (hlasts : ∀ s s' member, E s s' → P s member → P s' member)
    (hrefers : ∀ name s member s', I s → I s' → reference.Refers name s (some member) s' →
      P s' member) {names : List String} {s s' : σ × List String} {members : List (Member T)}
    (hs : I s.1) (h : Returns (reference.build names) s members s') :
    ∀ member ∈ members, P s'.1 member := by
  have hloop : I s'.1 ∧ ∀ member ∈ members, P s'.1 member := by
    refine @returns_foldlM _ _ _ _ _ (fun members s => I s.1 ∧ ∀ member ∈ members, P s.1 member)
      names ?_ _ _ _ _ ⟨hs, fun _ h => absurd h List.not_mem_nil⟩ h
    intro members s name _ members' s' hinv hrun
    obtain ⟨member, t, hrefer, hpure⟩ := returns_bind.mp hrun
    obtain ⟨rfl, rfl⟩ := returns_pure.mp hpure
    obtain ⟨ht, hst⟩ := (hkeeps.refer name).returns hrefer hinv.1
    have hold : ∀ m ∈ members, P t.1 m := fun m hm => hlasts _ _ _ hst (hinv.2 m hm)
    refine ⟨ht, ?_⟩
    cases member with
    | none => exact hold
    | some member =>
      intro m hm
      rcases Registry.mem_pushMember.mp hm with hm | rfl
      · exact hold m hm
      · exact hrefers name _ _ _ hinv.1 ht (refers_of_returns hrefer)
  exact hloop.2

/-- The groups a name stands for are groups that exist. -/
theorem below_of_refers {count : σ → ℕ}
    (hgroup : ∀ s name id, I s → reference.getGroup s name = some id → id < count s)
    (hobject : ∀ object s member s', I s → I s' →
      Returns (reference.registerObject object) s member s' → Below (count s') [member])
    {name : String} {s s' : σ} {member : Member T} (hs : I s) (hs' : I s')
    (h : reference.Refers name s (some member) s') : Below (count s') [member] := by
  cases h with
  | literal _ _ => exact below_item
  | object _ _ hrun => exact hobject _ _ _ _ hs hs' hrun
  | pool _ _ _ _ _ hid => exact below_group.mpr (hgroup _ _ _ hs' hid)

end Holds

end Reference

/-! ### Objects that are lists of values -/

/-- An object of the store that lists values. -/
structure ValuedObject where
  name : String
  values : List String
  deriving DecidableEq

/-- The name an element of a list of values is registered under. -/
def indexedName (name : String) (idx : ℕ) : String := name ++ "[" ++ Nat.repr idx ++ "]"

section Valued

variable {T : Type} (create : String → String → Except Fault T)

/-- Registers a value. -/
def registerValue (name value : String) : Program (Registry String T) Fault T :=
  registerItem name (create name value)

/-- The elements of a list of values, each under its own name. -/
def indexedElements (name : String) (values : List String) : List (String × Except Fault T) :=
  values.zipIdx.map fun value =>
    (indexedName name value.2, create (indexedName name value.2) value.1)

variable [DecidableEq T]

/-- Registers a list of values as a group. -/
def registerValues (name : String) (values : List String) :
    Program (Registry String T) Fault ℕ := registerMulti name (indexedElements create name values)

/-- Registers an object.  The code takes the first value of an object that has not several. -/
def registerValued (object : ValuedObject) : Program (Registry String T) Fault (Member T) :=
  if object.values.length > 1 then .group <$> registerValues create object.name object.values
  else
    match object.values with
    | value :: _ => .item <$> registerValue create object.name value
    | [] => throw .undefined

/-- The references to values, objects that list values, and pools of these. -/
def valuedReference (isLiteral : String → Except Fault Bool)
    (resolver : GenericResolver ValuedObject) : Reference (Registry String T) T ValuedObject where
  isLiteral := isLiteral
  registerLiteral name := registerValue create name name
  resolver := resolver
  registerObject := registerValued create
  registerPool pool := do
    let _ ← registerGroup pool.name pool.members
    pure ⟨⟩
  getGroup r name := r.groups name

theorem keeps_registerValued (object : ValuedObject) :
    Keeps (Under Registry.Sound Registry.Extends) (registerValued create object) := by
  unfold registerValued
  split
  · exact keeps_map _ (keeps_registerMulti _ _)
  · split
    · exact keeps_map _ (keeps_registerItem _ _)
    · exact keeps_throw _

/-- **References to values extend the registry.** -/
theorem keeping_valuedReference (isLiteral : String → Except Fault Bool)
    (resolver : GenericResolver ValuedObject) :
    (valuedReference create isLiteral resolver).Keeping
      (Under Registry.Sound Registry.Extends) where
  literal _ := keeps_registerItem _ _
  object := keeps_registerValued create
  pool _ hpool := keeps_bind (keeps_registerGroup hpool) fun _ => keeps_pure _

theorem below_registerValued {object : ValuedObject} {r r' : Registry String T}
    {member : Member T} (hr : r.Sound) (hr' : r'.Sound)
    (h : Returns (registerValued create object) r member r') : Below r'.heap.length [member] := by
  unfold registerValued at h
  split at h
  · obtain ⟨id, hrun, rfl⟩ := returns_map.mp h
    exact below_group.mpr (hr'.lt_length (groups_of_registerMulti hr hrun))
  · split at h
    · obtain ⟨t, -, rfl⟩ := returns_map.mp h
      exact below_item
    · exact absurd h returns_throw

/-- **The groups of a criterion are groups that exist.** -/
theorem below_valuedReference {isLiteral : String → Except Fault Bool}
    {resolver : GenericResolver ValuedObject} {names : List String}
    {s s' : Registry String T × List String} {members : List (Member T)} (hs : s.1.Sound)
    (h : Returns ((valuedReference create isLiteral resolver).build names) s members s') :
    Below s'.1.heap.length members := by
  refine below_iff.mpr (Reference.holds_build (P := fun r member => Below r.heap.length [member])
    (keeping_valuedReference create isLiteral resolver) ?_ ?_ hs h)
  · exact fun _ _ _ hext hmember => hmember.mono hext.length_le
  · intro name r member r' hr hr' hrefers
    refine @Reference.below_of_refers _ _ _ (valuedReference create isLiteral resolver)
      Registry.Sound (fun r => r.heap.length) ?_ ?_ _ _ _ _ hr hr' hrefers
    · exact fun _ _ _ hsound hid => hsound.lt_length hid
    · exact fun _ _ _ _ hr hr' => below_registerValued create hr hr'

end Valued

end RulesAnalyzer
