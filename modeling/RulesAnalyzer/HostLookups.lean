import RulesAnalyzer.Effect.Following
import RulesAnalyzer.References

/-!
# Lookups that change a state

A reference looks its names up in a store.  Here a lookup may read and write a state
of its own, such as the cache of a resolver.  What the registrations keep is kept
whatever the lookups answer, and as long as they answer as a function would, the
criteria are those of the reference that asks the function.

## Main definitions

* `Lookup.resolve`, `Lookup.build` — the resolver of pools and the criteria, with lookups that
  change a state.
* `Lookup.Steady` — the same names are answered with an object.
* `Lookup.Answers` — the lookups of a set of names are answered as a function would.

## Main results

* `Lookup.expands_of_expand` — a result lists every pool after its members.
* `Lookup.keeps_build` — **what the registrations keep, the criteria keep.**
* `Lookup.follows_build` — **the criteria follow those of a reference that asks a function.**
-/

namespace RulesAnalyzer

open Effect Shared

namespace Lookup

variable {σ ρ T O : Type} (lookup : String → Program ρ Fault (Option O))

section Resolve

variable (resolver : GenericResolver O)

section Expand

variable (expandPool : PoolObject → Program (List String × ρ) Fault (List (PoolMember O)))
  (visited : List String)

/-- What a name stands for; a name that stands for nothing is added to the state. -/
def expandName (name : String) : Program (List String × ρ) Fault (List (PoolMember O)) := do
  let found ← onSnd (lookup name)
  match found with
  | some object => pure [.object object]
  | none =>
    match resolver.pool name with
    | some pool => if pool.name ∈ visited then throw (resolver.loopFault name) else expandPool pool
    | none => do
      onFst (modify (· ++ [name]))
      pure []

/-- What names stand for, in order. -/
def expandNames : List String → Program (List String × ρ) Fault (List (PoolMember O))
  | [] => pure []
  | name :: names => do
    let first ← expandName lookup resolver expandPool visited name
    let rest ← expandNames names
    pure (first ++ rest)

end Expand

/-- The members of a pool, then the pool. -/
def expand : ℕ → List String → PoolObject →
    Program (List String × ρ) Fault (List (PoolMember O))
  | 0, _, _ => throw .undefined
  | depth + 1, visited, pool => do
    let members ← expandNames lookup resolver (fun sub => expand depth (sub.name :: visited) sub)
      visited pool.members
    pure (members ++ [.pool pool])

/-- The objects and the pools below a pool, each pool after its members. -/
def resolve (pool : PoolObject) : Program (List String × ρ) Fault (List (PoolMember O)) :=
  expand lookup resolver (resolver.pools.length + 1) [] pool

end Resolve

section Reference

variable (reference : Reference σ T O)

/-- Registers a pool and all that is below it. -/
def referencePool (name : String) (pool : PoolObject) :
    Program ((σ × List String) × ρ) Fault (Member T) := do
  let members ← zoomFst Prod.snd (fun unresolved s => (s.1, unresolved))
    (resolve lookup reference.resolver pool)
  onFst (Reference.onRegistry (members.forM reference.registerMember))
  onFst (Reference.onRegistry (reference.registeredGroup name))

/-- The member a name that is no literal stands for. -/
def referenceName (name : String) : Program ((σ × List String) × ρ) Fault (Option (Member T)) := do
  let found ← onSnd (lookup name)
  match found with
  | some object => some <$> onFst (Reference.onRegistry (reference.registerObject object))
  | none =>
    match reference.resolver.pool name with
    | some pool => some <$> referencePool lookup reference name pool
    | none => do
      onFst (modify fun s => (s.1, s.2 ++ [name]))
      pure none

/-- The member a name stands for. -/
def refer (name : String) : Program ((σ × List String) × ρ) Fault (Option (Member T)) := do
  let literal ← MonadExcept.ofExcept (reference.isLiteral name)
  if literal then
    (some ∘ Member.item) <$> onFst (Reference.onRegistry (reference.registerLiteral name))
  else referenceName lookup reference name

/-- The members that names stand for. -/
def build [DecidableEq T] (names : List String) :
    Program ((σ × List String) × ρ) Fault (List (Member T)) :=
  names.foldlM (fun members name => do
    let member ← refer lookup reference name
    pure (match member with
      | some member => Registry.pushMember members member
      | none => members)) []

end Reference

/-! ### Lookups that answer the same names -/

/-- A member, without what an object holds. -/
def shape : PoolMember O → PoolMember PUnit
  | .object _ => .object ⟨⟩
  | .pool pool => .pool pool

theorem pool_mem_shape {members : List (PoolMember O)} {pool : PoolObject} :
    .pool pool ∈ members.map shape ↔ .pool pool ∈ members := by
  rw [List.mem_map]
  constructor
  · rintro ⟨member, hmember, hshape⟩
    cases member with
    | object object => cases hshape
    | pool pool' =>
      obtain rfl := PoolMember.pool.inj hshape
      exact hmember
  · exact fun hmember => ⟨_, hmember, rfl⟩

/-- The resolver with objects under the names that are answered. -/
def shapeResolver (isObject : String → Bool) (resolver : GenericResolver O) :
    GenericResolver PUnit where
  objects name := if isObject name then some ⟨⟩ else none
  pools := resolver.pools
  poolsName := resolver.poolsName

/-- As long as the state keeps an invariant, the same names are answered with an object. -/
structure Steady (lookup : String → Program ρ Fault (Option O)) (isObject : String → Bool)
    (I : ρ → Prop) : Prop where
  answer : ∀ name r found r', I r → Returns (lookup name) r found r' →
    I r' ∧ found.isSome = isObject name

section Steady

variable {lookup} {isObject : String → Bool} {I : ρ → Prop} (h : Steady lookup isObject I)
  {resolver : GenericResolver O}

include h

/-- A lookup of a name, and the state then. -/
theorem Steady.returns {τ : Type} {name : String} {s s' : τ × ρ} {found : Option O} (hs : I s.2)
    (hrun : Returns (onSnd (lookup name)) s found s') :
    I s'.2 ∧ s'.1 = s.1 ∧ found.isSome = isObject name := by
  obtain ⟨r, hlookup, rfl⟩ := returns_zoom.mp hrun
  obtain ⟨hr, hfound⟩ := h.answer name _ _ _ hs hlookup
  exact ⟨hr, rfl, hfound⟩

theorem expands_of_names
    {expandPool : PoolObject → Program (List String × ρ) Fault (List (PoolMember O))}
    {visited : List String} (hpool : ∀ sub s members s', I s.2 →
      Returns (expandPool sub) s members s' → I s'.2 ∧
        ∃ below, (shapeResolver isObject resolver).Expands sub.members below ∧
          members.map shape = below ++ [.pool sub])
    {names : List String} {s s' : List String × ρ} {members : List (PoolMember O)} (hs : I s.2)
    (hrun : Returns (expandNames lookup resolver expandPool visited names) s members s') :
    I s'.2 ∧ (shapeResolver isObject resolver).Expands names (members.map shape) := by
  induction names generalizing s members with
  | nil =>
    obtain ⟨rfl, rfl⟩ := returns_pure.mp hrun
    exact ⟨hs, .nil⟩
  | cons name names ih =>
    rw [expandNames] at hrun
    obtain ⟨first, t, hfirst, hrun⟩ := returns_bind.mp hrun
    obtain ⟨rest, t', hrest, hrun⟩ := returns_bind.mp hrun
    obtain ⟨rfl, rfl⟩ := returns_pure.mp hrun
    rw [expandName] at hfirst
    obtain ⟨found, u, hasked, hfirst⟩ := returns_bind.mp hfirst
    obtain ⟨hu, -, hfound⟩ := h.returns hs hasked
    rw [List.map_append]
    -- an object, a name that the store does not have, or a pool
    cases found with
    | some object =>
      obtain ⟨rfl, rfl⟩ := returns_pure.mp hfirst
      obtain ⟨hs', hnames⟩ := ih hu hrest
      exact ⟨hs', .object (if_pos hfound.symm) hnames⟩
    | none =>
      have hnone : (shapeResolver isObject resolver).objects name = none :=
        if_neg (Bool.eq_false_iff.mp hfound.symm)
      rcases hsub : resolver.pool name with _ | sub
      · simp only [hsub] at hfirst
        obtain ⟨_, t'', hmodify, hfirst⟩ := returns_bind.mp hfirst
        obtain ⟨-, hsame⟩ := returns_onFst.mp hmodify
        obtain ⟨rfl, rfl⟩ := returns_pure.mp hfirst
        obtain ⟨hs', hnames⟩ := ih (hsame ▸ hu) hrest
        exact ⟨hs', .missing hnone hsub hnames⟩
      · simp only [hsub] at hfirst
        split at hfirst
        · exact absurd hfirst returns_throw
        · obtain ⟨ht, below, hbelow, hshape⟩ := hpool _ _ _ _ hu hfirst
          obtain ⟨hs', hnames⟩ := ih ht hrest
          rw [hshape, List.append_assoc]
          exact ⟨hs', .pool hnone hsub hbelow hnames⟩

/-- **A result lists pools as a resolver of these names would**, and ends with the root. -/
theorem expands_of_expand {depth : ℕ} {visited : List String} {pool : PoolObject}
    {s s' : List String × ρ} {members : List (PoolMember O)} (hs : I s.2)
    (hrun : Returns (expand lookup resolver depth visited pool) s members s') :
    I s'.2 ∧ ∃ below, (shapeResolver isObject resolver).Expands pool.members below ∧
      members.map shape = below ++ [.pool pool] := by
  induction depth generalizing visited pool s members s' with
  | zero => exact absurd hrun returns_throw
  | succ depth ih =>
    rw [expand] at hrun
    obtain ⟨below, t, hbelow, hrun⟩ := returns_bind.mp hrun
    obtain ⟨rfl, rfl⟩ := returns_pure.mp hrun
    obtain ⟨ht, hexpands⟩ := expands_of_names h (fun _ _ _ _ hu hsub => ih hu hsub) hs hbelow
    exact ⟨ht, _, hexpands, List.map_append⟩

end Steady

section Keeps

variable {lookup} {R : σ → σ → Prop}

theorem keeps_onRegistry {α : Type} {p : Program σ Fault α} (hp : Keeps R p) :
    Keeps (Through (fun s : (σ × List String) × ρ => s.1.1) R) (onFst (Reference.onRegistry p)) :=
  keeps_onFst (Reference.keeps_onRegistry hp)

variable [Std.Refl R]

/-- A lookup does not touch the registries. -/
theorem keeps_onSnd {τ α : Type} {f : τ → σ} (p : Program ρ Fault α) :
    Keeps (Through (fun s : τ × ρ => f s.1) R) (onSnd p) := fun s => refl (f s.1)

variable [IsTrans σ R]

/-- No pool that is registered is a member of itself. -/
theorem rel_referencePool {isObject : String → Bool} {I : ρ → Prop}
    (h : Steady lookup isObject I) {reference : Reference σ T O} (hkeeping : reference.Keeping R)
    {name : String} {pool : PoolObject} (hnone : isObject name = false)
    (hsome : reference.resolver.pool name = some pool) {s : (σ × List String) × ρ} (hs : I s.2) :
    Through (fun s : (σ × List String) × ρ => s.1.1) R s
      (exec (referencePool lookup reference name pool) s).2 := by
  have hname := GenericResolver.pool_name hsome
  refine rel_bind (refl s.1.1) fun members s' hreturns => ?_
  obtain ⟨t, hresolve, -⟩ := returns_zoom.mp hreturns
  obtain ⟨-, below, hbelow, hshape⟩ := expands_of_expand h hs hresolve
  have hself : (shapeResolver isObject reference.resolver).objects pool.name = none := by
    rw [hname]
    exact if_neg (Bool.eq_false_iff.mp hnone)
  refine keeps_bind (keeps_onRegistry (hkeeping.registerMembers fun sub hsub => ?_))
    (fun _ => keeps_onRegistry (Reference.keeps_registeredGroup name)) s'
  have hmem := pool_mem_shape.mpr hsub
  rw [hshape] at hmem
  rcases List.mem_append.mp hmem with hmem | hmem
  · exact hbelow.notMem hmem
  · obtain rfl := PoolMember.pool.inj (List.mem_singleton.mp hmem)
    exact hbelow.notMem_self hself (hname ▸ hsome)

variable (hsteady : ∀ r, ∃ isObject I, I r ∧ Steady lookup isObject I)
  {reference : Reference σ T O} (hkeeping : reference.Keeping R)

include hsteady hkeeping

theorem keeps_referenceName (name : String) :
    Keeps (Through (fun s : (σ × List String) × ρ => s.1.1) R)
      (referenceName lookup reference name) := by
  refine keeps_bind_of_returns (keeps_onSnd (f := Prod.fst) _) fun s found s' hasked => ?_
  obtain ⟨isObject, I, hs, h⟩ := hsteady s.2
  obtain ⟨hs', -, hfound⟩ := h.returns hs hasked
  cases found with
  | some object => exact keeps_map _ (keeps_onRegistry (hkeeping.object object)) s'
  | none =>
    rcases hsome : reference.resolver.pool name with _ | pool
    · exact refl s'.1.1
    · show Through _ R s' (exec (some <$> referencePool lookup reference name pool) s').2
      rw [exec_map]
      exact rel_referencePool h hkeeping hfound.symm hsome hs'

theorem keeps_refer (name : String) :
    Keeps (Through (fun s : (σ × List String) × ρ => s.1.1) R) (refer lookup reference name) := by
  refine keeps_bind (keeps_ofExcept _) fun literal => ?_
  cases literal with
  | true => exact keeps_map _ (keeps_onRegistry (hkeeping.literal name))
  | false => exact keeps_referenceName hsteady hkeeping name

/-- **What the registrations keep, the whole criterion keeps**, whatever is looked up. -/
theorem keeps_build [DecidableEq T] (names : List String) :
    Keeps (Through (fun s : (σ × List String) × ρ => s.1.1) R) (build lookup reference names) :=
  keeps_foldlM fun _ name _ => keeps_bind (keeps_refer hsteady hkeeping name)
    fun _ => keeps_pure _

end Keeps

/-! ### Lookups that answer as a function would -/

/-- The lookups of the names are answered as the resolver says, and so are those of the members
of the pools they stand for. -/
structure Answers (resolver : GenericResolver O) (names : Set String) (I : ρ → Prop) : Prop where
  answer : ∀ name ∈ names, ∀ r found r', I r → Returns (lookup name) r found r' →
    I r' ∧ found = resolver.objects name
  closed : ∀ name ∈ names, ∀ pool, resolver.objects name = none →
    resolver.pool name = some pool → ∀ member ∈ pool.members, member ∈ names

variable {lookup} {names : Set String} {I : ρ → Prop}

/-- What is done with the object of a name follows what the other program does with it. -/
theorem follows_lookup {τ α : Type} {resolver : GenericResolver O}
    (h : Answers lookup resolver names I) {name : String} (hname : name ∈ names)
    {f : Option O → Program (τ × ρ) Fault α} {q : Program τ Fault α}
    (hf : Follows I (f (resolver.objects name)) q) :
    Follows I (onSnd (lookup name) >>= f) q := by
  intro s a s' hs hrun
  obtain ⟨found, t, hasked, hrest⟩ := returns_bind.mp hrun
  obtain ⟨r, hlookup, rfl⟩ := returns_zoom.mp hasked
  obtain ⟨hr, rfl⟩ := h.answer name hname _ _ _ hs hlookup
  exact hf (s.1, r) a s' hr hrest

section Expand

variable {resolver resolver' : GenericResolver O} (hpools : resolver.pools = resolver'.pools)
  (h : Answers lookup resolver' names I)
  {expandPool : PoolObject → Program (List String × ρ) Fault (List (PoolMember O))}
  {expandPool' : PoolObject → Program (List String) Fault (List (PoolMember O))}
  {visited : List String}

include hpools h

theorem follows_expandName
    (hpool : ∀ pool : PoolObject, (∀ member ∈ pool.members, member ∈ names) →
      Follows I (expandPool pool) (expandPool' pool)) {name : String} (hname : name ∈ names) :
    Follows I (expandName lookup resolver expandPool visited name)
      (resolver'.expandName expandPool' visited name) := by
  refine follows_lookup h hname ?_
  have hsame : resolver.pool name = resolver'.pool name := by
    rw [GenericResolver.pool, GenericResolver.pool, hpools]
  rw [GenericResolver.expandName, hsame]
  rcases hobject : resolver'.objects name with _ | object
  · rcases hsome : resolver'.pool name with _ | pool
    · exact follows_bind (follows_onFst _) fun _ => follows_pure _
    · by_cases hvisited : pool.name ∈ visited
      · simp only [if_pos hvisited]
        exact follows_throw _ _
      · simp only [if_neg hvisited]
        exact hpool pool (h.closed name hname pool hobject hsome)
  · exact follows_pure _

theorem follows_expandNames
    (hpool : ∀ pool : PoolObject, (∀ member ∈ pool.members, member ∈ names) →
      Follows I (expandPool pool) (expandPool' pool)) {list : List String}
    (hlist : ∀ name ∈ list, name ∈ names) :
    Follows I (expandNames lookup resolver expandPool visited list)
      (resolver'.expandNames expandPool' visited list) := by
  induction list with
  | nil => exact follows_pure _
  | cons name list ih =>
    rw [expandNames, GenericResolver.expandNames]
    refine follows_bind (follows_expandName hpools h hpool (hlist name List.mem_cons_self))
      fun first => ?_
    exact follows_bind (ih fun n hn => hlist n (List.mem_cons_of_mem _ hn))
      fun rest => follows_pure _

theorem follows_expand {depth : ℕ} {visited : List String} {pool : PoolObject}
    (hmembers : ∀ member ∈ pool.members, member ∈ names) :
    Follows I (expand lookup resolver depth visited pool)
      (resolver'.expand depth visited pool) := by
  induction depth generalizing visited pool with
  | zero => exact follows_throw _ _
  | succ depth ih =>
    rw [expand, GenericResolver.expand]
    exact follows_bind (follows_expandNames hpools h (fun sub hsub => ih hsub) hmembers)
      fun members => follows_pure _

end Expand

section Build

variable {reference : Reference σ T O} {resolver' : GenericResolver O}
  (hpools : reference.resolver.pools = resolver'.pools) (h : Answers lookup resolver' names I)

include hpools h

theorem follows_referenceName {name : String} (hname : name ∈ names) :
    Follows I (referenceName lookup reference name)
      ({ reference with resolver := resolver' }.referenceName name) := by
  refine follows_lookup h hname ?_
  have hsame : reference.resolver.pool name = resolver'.pool name := by
    rw [GenericResolver.pool, GenericResolver.pool, hpools]
  rw [Reference.referenceName, hsame]
  dsimp only
  rcases hobject : resolver'.objects name with _ | object
  · rcases hsome : resolver'.pool name with _ | pool
    · exact follows_bind (follows_onFst _) fun _ => follows_pure _
    · -- the members of the pool are looked up, and then registered
      refine follows_map _ (follows_bind (follows_zoomFst ?_) fun members => ?_)
      · rw [resolve, hpools]
        exact follows_expand hpools h (h.closed name hname pool hobject hsome)
      · exact follows_bind (follows_onFst _) fun _ => follows_onFst _
  · exact follows_map _ (follows_onFst _)

theorem follows_refer {name : String}
    (hname : reference.isLiteral name = .ok false → name ∈ names) :
    Follows I (refer lookup reference name)
      ({ reference with resolver := resolver' }.refer name) := by
  rw [refer, Reference.refer]
  dsimp only
  rcases hliteral : reference.isLiteral name with fault | literal
  · exact follows_throw fault _
  · show Follows I (if literal = true then _ else _) (if literal = true then _ else _)
    cases literal with
    | true => exact follows_map _ (follows_onFst _)
    | false => exact follows_referenceName hpools h (hname hliteral)

/-- **The criteria follow those of a reference that asks a function**, when all names that are
looked up are in the set. -/
theorem follows_build [DecidableEq T] {list : List String}
    (hlist : ∀ name ∈ list, reference.isLiteral name = .ok false → name ∈ names) :
    Follows I (build lookup reference list)
      ({ reference with resolver := resolver' }.build list) :=
  follows_foldlM fun _ name hname => follows_bind (follows_refer hpools h (hlist name hname))
    fun _ => follows_pure _

end Build

end Lookup

end RulesAnalyzer
