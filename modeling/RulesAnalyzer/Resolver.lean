import RulesAnalyzer.Effect.Program
import RulesAnalyzer.ObjectStore
import RulesAnalyzer.Strutil

/-!
# The resolver of pools

The resolver flattens a pool: it lists the objects and the pools below it, each pool
after its members.  A name is looked up among the objects first.  The code walks
with a stack of pools; the walk is that of a recursive function.

## Main definitions

* `GenericResolver`, `GenericResolver.resolve` — the resolver, as a recursive function.
* `Walk`, `GenericResolver.step`, `GenericResolver.Ends` — the loop of the code.
* `GenericResolver.Expands` — the lists a resolver makes of names.
* `GenericResolver.Reaches`, `GenericResolver.Resolves` — the names below a name, and names below
  which all are found.

## Main results

* `GenericResolver.resolve_ends` — **the loop of the code ends, with the result of the
  recursive function.**
* `GenericResolver.expands_of_resolve` — a result lists every pool after its members.
* `GenericResolver.Expands.notMem` — no pool that is listed is a member of itself.
-/

namespace RulesAnalyzer

open Effect

/-- A member of a pool. -/
inductive PoolMember (O : Type)
  | object (object : O)
  | pool (pool : PoolObject)

/-- The objects and the pools that names are looked up in. -/
structure GenericResolver (O : Type) where
  objects : String → Option O
  pools : ObjectDictionary PoolObject
  /-- The name of the dictionary of pools, for the error message. -/
  poolsName : String

/-- The state of the loop: the stack of pools, each with the members that are left, the pools
on the stack above the root, and the two results. -/
structure Walk (O : Type) where
  chain : List (PoolObject × List String)
  visited : List String
  expanded : List (PoolMember O)
  unresolved : List String

namespace GenericResolver

variable {O : Type} (resolver : GenericResolver O)

/-- The pool of a name. -/
def pool (name : String) : Option PoolObject := resolver.pools.get name

/-- The exception for a pool that is met again below itself. -/
def loopFault (name : String) : Fault :=
  .runtimeError ("pool: " ++ resolver.poolsName ++ " loop in pool '" ++ name ++ "'")

section Expand

variable (expandPool : PoolObject → Program (List String) Fault (List (PoolMember O)))
  (visited : List String)

/-- What a name stands for; a name that stands for nothing is added to the state. -/
def expandName (name : String) : Program (List String) Fault (List (PoolMember O)) :=
  match resolver.objects name with
  | some object => pure [.object object]
  | none =>
    match resolver.pool name with
    | some pool => if pool.name ∈ visited then throw (resolver.loopFault name) else expandPool pool
    | none => do
      modify (· ++ [name])
      pure []

/-- What names stand for, in order. -/
def expandNames : List String → Program (List String) Fault (List (PoolMember O))
  | [] => pure []
  | name :: names => do
    let first ← resolver.expandName expandPool visited name
    let rest ← expandNames names
    pure (first ++ rest)

end Expand

/-- The members of a pool, then the pool.  The visited pools are all different, so the depth
never runs out when it starts above the number of pools. -/
def expand : ℕ → List String → PoolObject → Program (List String) Fault (List (PoolMember O))
  | 0, _, _ => throw .undefined
  | depth + 1, visited, pool => do
    let members ← resolver.expandNames (fun sub => expand depth (sub.name :: visited) sub) visited
      pool.members
    pure (members ++ [.pool pool])

/-- The objects and the pools below a pool, each pool after its members.  The root does not
count as visited. -/
def resolve (pool : PoolObject) : Program (List String) Fault (List (PoolMember O)) :=
  resolver.expand (resolver.pools.length + 1) [] pool

/-! ### The loop of the code -/

/-- One round of the loop; `none` when the stack is empty. -/
def step (walk : Walk O) : Option (Except Fault (Walk O)) :=
  match walk.chain with
  | [] => none
  | (pool, []) :: rest =>
    -- move up in the tree
    some (.ok {
      chain := rest
      visited := walk.visited.erase pool.name
      expanded := walk.expanded ++ [.pool pool]
      unresolved := walk.unresolved })
  | (pool, name :: names) :: rest =>
    match resolver.objects name with
    | some object => some (.ok { walk with
        chain := (pool, names) :: rest
        expanded := walk.expanded ++ [.object object] })
    | none =>
      match resolver.pool name with
      | some sub =>
        if sub.name ∈ walk.visited then some (.error (resolver.loopFault name))
        else
          -- move down in the tree
          some (.ok { walk with
            chain := (sub, sub.members) :: (pool, names) :: rest
            visited := sub.name :: walk.visited })
      | none => some (.ok { walk with
          chain := (pool, names) :: rest
          unresolved := walk.unresolved ++ [name] })

/-- The loop ends with the list or the exception, and with the names that are not resolved. -/
inductive Ends : Walk O → Except Fault (List (PoolMember O)) × List String → Prop
  | finished {walk : Walk O} (h : resolver.step walk = none) :
      Ends walk (.ok walk.expanded, walk.unresolved)
  | raised {walk : Walk O} {fault : Fault} (h : resolver.step walk = some (.error fault)) :
      Ends walk (.error fault, walk.unresolved)
  | next {walk walk' : Walk O} {result : Except Fault (List (PoolMember O)) × List String}
      (h : resolver.step walk = some (.ok walk')) (hend : Ends walk' result) : Ends walk result

/-- The visited pools are different pools of the dictionary, and the depth is large enough. -/
structure Deep (depth : ℕ) (visited : List String) : Prop where
  nodup : visited.Nodup
  known : ∀ name ∈ visited, ∃ pool ∈ resolver.pools, pool.name = name
  depth : resolver.pools.length + 1 ≤ depth + visited.length

variable {resolver}

theorem Deep.pos {depth : ℕ} {visited : List String} (h : resolver.Deep depth visited) :
    0 < depth := by
  have hsub : visited ⊆ resolver.pools.map PoolObject.name := by
    intro name hname
    obtain ⟨pool, hpool, rfl⟩ := h.known name hname
    exact List.mem_map_of_mem hpool
  have hle := h.nodup.length_le_of_subset hsub
  have hdepth := h.depth
  rw [List.length_map] at hle
  omega

theorem Deep.cons {depth : ℕ} {visited : List String} (h : resolver.Deep (depth + 1) visited)
    {name : String} {sub : PoolObject} (hsub : resolver.pool name = some sub)
    (hnot : sub.name ∉ visited) : resolver.Deep depth (sub.name :: visited) where
  nodup := List.nodup_cons.mpr ⟨hnot, h.nodup⟩
  known name' hname' := by
    rcases List.mem_cons.mp hname' with rfl | hname'
    · exact ⟨sub, ObjectDictionary.mem_of_get hsub, rfl⟩
    · exact h.known name' hname'
  depth := by
    have hdepth := h.depth
    rw [List.length_cons]
    omega

/-- From the one stack the loop gets to the other one, with what the program returns added to
the list, or it ends with the exception of the program. -/
def Simulates (resolver : GenericResolver O)
    (prog : Program (List String) Fault (List (PoolMember O)))
    (before after : List (PoolObject × List String) × List String) : Prop :=
  ∀ expanded unresolved, match exec prog unresolved with
    | (.ok members, unresolved') => ∀ result,
        resolver.Ends ⟨after.1, after.2, expanded ++ members, unresolved'⟩ result →
          resolver.Ends ⟨before.1, before.2, expanded, unresolved⟩ result
    | (.error fault, unresolved') =>
        resolver.Ends ⟨before.1, before.2, expanded, unresolved⟩ (.error fault, unresolved')

theorem Simulates.returns {prog : Program (List String) Fault (List (PoolMember O))}
    {before after : List (PoolObject × List String) × List String}
    (h : resolver.Simulates prog before after) {expanded members : List (PoolMember O)}
    {unresolved unresolved' : List String}
    (hrun : exec prog unresolved = (.ok members, unresolved'))
    {result : Except Fault (List (PoolMember O)) × List String}
    (hend : resolver.Ends ⟨after.1, after.2, expanded ++ members, unresolved'⟩ result) :
    resolver.Ends ⟨before.1, before.2, expanded, unresolved⟩ result := by
  have hsim := h expanded unresolved
  rw [hrun] at hsim
  exact hsim result hend

theorem Simulates.raises {prog : Program (List String) Fault (List (PoolMember O))}
    {before after : List (PoolObject × List String) × List String}
    (h : resolver.Simulates prog before after) {expanded : List (PoolMember O)}
    {unresolved unresolved' : List String} {fault : Fault}
    (hrun : exec prog unresolved = (.error fault, unresolved')) :
    resolver.Ends ⟨before.1, before.2, expanded, unresolved⟩ (.error fault, unresolved') := by
  have hsim := h expanded unresolved
  rw [hrun] at hsim
  exact hsim

/-- One program after the other. -/
theorem Simulates.append {p q : Program (List String) Fault (List (PoolMember O))}
    {a b c : List (PoolObject × List String) × List String} (hp : resolver.Simulates p a b)
    (hq : resolver.Simulates q b c) :
    resolver.Simulates (do let first ← p; let rest ← q; pure (first ++ rest)) a c := by
  intro expanded unresolved
  rcases hrun : exec p unresolved with ⟨fault | first, unresolved'⟩
  · rw [exec_bind_error hrun]
    exact hp.raises hrun
  · rw [exec_bind_ok hrun]
    rcases hrun' : exec q unresolved' with ⟨fault | rest, unresolved''⟩
    · rw [exec_bind_error hrun']
      exact hp.returns hrun (hq.raises hrun')
    · rw [exec_bind_ok hrun', exec_pure]
      intro result hend
      rw [← List.append_assoc] at hend
      exact hp.returns hrun (hq.returns hrun' hend)

section Names

variable {expandPool : PoolObject → Program (List String) Fault (List (PoolMember O))}
  {visited : List String}
  (hpool : ∀ name sub, resolver.pool name = some sub → sub.name ∉ visited → ∀ rest,
    resolver.Simulates (expandPool sub) ((sub, sub.members) :: rest, sub.name :: visited)
      (rest, visited)) (top : PoolObject) (rest : List (PoolObject × List String))

include hpool in
theorem simulates_name (name : String) (names : List String) :
    resolver.Simulates (resolver.expandName expandPool visited name)
      ((top, name :: names) :: rest, visited) ((top, names) :: rest, visited) := by
  intro expanded unresolved
  rw [expandName]
  -- the loop looks at the same name, in the same order
  rcases hobject : resolver.objects name with _ | object
  · rcases hsub : resolver.pool name with _ | sub
    · simp only [exec_modify_bind, exec_pure, List.append_nil]
      refine fun result hend => .next ?_ hend
      simp only [step, hobject, hsub]
    · by_cases hvisited : sub.name ∈ visited
      · simp only [if_pos hvisited, exec_throw]
        refine .raised ?_
        simp only [step, hobject, hsub, if_pos hvisited]
      · -- the pool is pushed on the stack, and the loop works through it first
        have hdown := hpool name sub hsub hvisited ((top, names) :: rest) expanded unresolved
        have hstep : resolver.step ⟨(top, name :: names) :: rest, visited, expanded, unresolved⟩ =
            some (.ok ⟨(sub, sub.members) :: (top, names) :: rest, sub.name :: visited, expanded,
              unresolved⟩) := by simp only [step, hobject, hsub, if_neg hvisited]
        simp only [if_neg hvisited]
        rcases hrun : exec (expandPool sub) unresolved with ⟨fault | members, unresolved'⟩
        · rw [hrun] at hdown
          exact .next hstep hdown
        · rw [hrun] at hdown
          exact fun result hend => .next hstep (hdown result hend)
  · rw [exec_pure]
    refine fun result hend => .next ?_ hend
    simp only [step, hobject]

include hpool in
theorem simulates_names (names : List String) :
    resolver.Simulates (resolver.expandNames expandPool visited names)
      ((top, names) :: rest, visited) ((top, []) :: rest, visited) := by
  induction names with
  | nil =>
    intro expanded unresolved
    rw [expandNames, exec_pure]
    intro result hend
    rwa [List.append_nil] at hend
  | cons name names ih =>
    rw [expandNames]
    exact (simulates_name hpool top rest name names).append ih

end Names

theorem simulates_expand {depth : ℕ} {visited : List String} (hdeep : resolver.Deep depth visited)
    (pool : PoolObject) (rest : List (PoolObject × List String)) :
    resolver.Simulates (resolver.expand depth visited pool) ((pool, pool.members) :: rest, visited)
      (rest, visited.erase pool.name) := by
  induction depth generalizing visited pool rest with
  | zero => exact absurd hdeep.pos (lt_irrefl 0)
  | succ depth ih =>
    have hnames := simulates_names (fun name sub hsub hvisited rest => by
      have hdown := ih (hdeep.cons hsub hvisited) sub rest
      rwa [List.erase_cons_head] at hdown) pool rest pool.members
    intro expanded unresolved
    rw [expand]
    rcases hrun : exec (resolver.expandNames (fun sub => resolver.expand depth (sub.name :: visited)
      sub) visited pool.members) unresolved with ⟨fault | members, unresolved'⟩
    · rw [exec_bind_error hrun]
      exact hnames.raises hrun
    · rw [exec_bind_ok hrun, exec_pure]
      intro result hend
      rw [← List.append_assoc] at hend
      exact hnames.returns hrun (.next rfl hend)

/-- **The loop of the code ends, with the result of the recursive function.** -/
theorem resolve_ends (resolver : GenericResolver O) (pool : PoolObject) (unresolved : List String) :
    resolver.Ends ⟨[(pool, pool.members)], [], [], unresolved⟩
      (exec (resolver.resolve pool) unresolved) := by
  have hdeep : resolver.Deep (resolver.pools.length + 1) [] :=
    ⟨List.nodup_nil, fun _ hname => absurd hname List.not_mem_nil, le_rfl⟩
  have hsim := simulates_expand hdeep pool []
  rcases hrun : exec (resolver.resolve pool) unresolved with ⟨fault | members, unresolved'⟩
  · exact hsim.raises hrun
  · exact hsim.returns hrun (.finished rfl)

/-! ### The lists that are returned -/

/-- The lists the resolver makes of names, when no loop is met. -/
inductive Expands (resolver : GenericResolver O) : List String → List (PoolMember O) → Prop
  | nil : Expands resolver [] []
  | object {name : String} {names : List String} {object : O} {members : List (PoolMember O)}
      (hobject : resolver.objects name = some object) (hnames : Expands resolver names members) :
      Expands resolver (name :: names) (.object object :: members)
  | pool {name : String} {names : List String} {pool : PoolObject}
      {below members : List (PoolMember O)} (hobject : resolver.objects name = none)
      (hpool : resolver.pool name = some pool) (hbelow : Expands resolver pool.members below)
      (hnames : Expands resolver names members) :
      Expands resolver (name :: names) (below ++ .pool pool :: members)
  | missing {name : String} {names : List String} {members : List (PoolMember O)}
      (hobject : resolver.objects name = none) (hpool : resolver.pool name = none)
      (hnames : Expands resolver names members) : Expands resolver (name :: names) members

theorem expands_of_names
    {expandPool : PoolObject → Program (List String) Fault (List (PoolMember O))}
    {visited : List String} (hpool : ∀ sub unresolved members unresolved',
      Returns (expandPool sub) unresolved members unresolved' →
        ∃ below, resolver.Expands sub.members below ∧ members = below ++ [.pool sub])
    {names unresolved unresolved' : List String} {members : List (PoolMember O)}
    (h : Returns (resolver.expandNames expandPool visited names) unresolved members unresolved') :
    resolver.Expands names members := by
  induction names generalizing unresolved members with
  | nil =>
    obtain ⟨rfl, -⟩ := returns_pure.mp h
    exact .nil
  | cons name names ih =>
    rw [expandNames] at h
    obtain ⟨first, u, hfirst, h⟩ := returns_bind.mp h
    obtain ⟨rest, u', hrest, h⟩ := returns_bind.mp h
    obtain ⟨rfl, rfl⟩ := returns_pure.mp h
    have hnames := ih hrest
    rw [expandName] at hfirst
    -- an object, a pool, or a name that is noted as unresolved
    rcases hobject : resolver.objects name with _ | object
    · rcases hsub : resolver.pool name with _ | sub
      · simp only [hobject, hsub] at hfirst
        obtain ⟨_, _, -, hfirst⟩ := returns_bind.mp hfirst
        obtain ⟨rfl, -⟩ := returns_pure.mp hfirst
        exact .missing hobject hsub hnames
      · simp only [hobject, hsub] at hfirst
        split at hfirst
        · exact absurd hfirst returns_throw
        · obtain ⟨below, hbelow, rfl⟩ := hpool _ _ _ _ hfirst
          rw [List.append_assoc]
          exact .pool hobject hsub hbelow hnames
    · simp only [hobject] at hfirst
      obtain ⟨rfl, -⟩ := returns_pure.mp hfirst
      exact .object hobject hnames

theorem expands_of_expand {depth : ℕ} {visited : List String} {pool : PoolObject}
    {unresolved unresolved' : List String} {members : List (PoolMember O)}
    (h : Returns (resolver.expand depth visited pool) unresolved members unresolved') :
    ∃ below, resolver.Expands pool.members below ∧ members = below ++ [.pool pool] := by
  induction depth generalizing visited pool unresolved members unresolved' with
  | zero => exact absurd h returns_throw
  | succ depth ih =>
    rw [expand] at h
    obtain ⟨below, u, hbelow, h⟩ := returns_bind.mp h
    obtain ⟨rfl, -⟩ := returns_pure.mp h
    exact ⟨below, expands_of_names (fun _ _ _ _ hsub => ih hsub) hbelow, rfl⟩

/-- **A result lists every pool after its members**, and ends with the root. -/
theorem expands_of_resolve {pool : PoolObject} {unresolved unresolved' : List String}
    {members : List (PoolMember O)}
    (h : Returns (resolver.resolve pool) unresolved members unresolved') :
    ∃ below, resolver.Expands pool.members below ∧ members = below ++ [.pool pool] :=
  expands_of_expand h

/-- A name that stands for a pool expands to the list of the pool. -/
theorem Expands.exists_below {names : List String} {members : List (PoolMember O)}
    (h : resolver.Expands names members) {name : String} (hname : name ∈ names) {pool : PoolObject}
    (hobject : resolver.objects name = none) (hpool : resolver.pool name = some pool) :
    ∃ below, resolver.Expands pool.members below ∧ below.length < members.length ∧
      below ⊆ members := by
  induction h with
  | nil => exact absurd hname List.not_mem_nil
  | object hobject' _ ih =>
    rcases List.mem_cons.mp hname with rfl | hname
    · exact absurd (hobject'.symm.trans hobject) (Option.some_ne_none _)
    · obtain ⟨below, hbelow, hlt, hsub⟩ := ih hname
      exact ⟨below, hbelow, hlt.trans (Nat.lt_succ_self _), List.subset_cons_of_subset _ hsub⟩
  | @pool _ _ pool' below members _ hpool' hbelow _ _ ih =>
    have hlength : (below ++ PoolMember.pool pool' :: members).length =
        below.length + (members.length + 1) := by rw [List.length_append, List.length_cons]
    rw [hlength]
    rcases List.mem_cons.mp hname with rfl | hname
    · obtain rfl := Option.some.inj (hpool'.symm.trans hpool)
      exact ⟨below, hbelow, by omega, List.subset_append_left ..⟩
    · obtain ⟨below', hbelow', hlt, hsub⟩ := ih hname
      exact ⟨below', hbelow', by omega,
        List.subset_append_of_subset_right _ (List.subset_cons_of_subset _ hsub)⟩
  | missing _ hpool' _ ih =>
    rcases List.mem_cons.mp hname with rfl | hname
    · exact absurd (hpool.symm.trans hpool') (Option.some_ne_none _)
    · exact ih hname

theorem pool_name {name : String} {pool : PoolObject} (h : resolver.pool name = some pool) :
    pool.name = name := ObjectDictionary.name_of_get h

/-- A pool that expands is no member of itself. -/
theorem Expands.notMem_self {pool : PoolObject} {below : List (PoolMember O)}
    (h : resolver.Expands pool.members below) (hobject : resolver.objects pool.name = none)
    (hpool : resolver.pool pool.name = some pool) : pool.name ∉ pool.members := by
  intro hmem
  induction hn : below.length using Nat.strong_induction_on generalizing below with
  | _ n ih =>
    obtain ⟨below', hbelow', hlt, -⟩ := h.exists_below hmem hobject hpool
    exact ih below'.length (hn ▸ hlt) hbelow' rfl

/-- **No pool that is listed is a member of itself.** -/
theorem Expands.notMem {names : List String} {members : List (PoolMember O)}
    (h : resolver.Expands names members) {pool : PoolObject} (hmem : .pool pool ∈ members) :
    pool.name ∉ pool.members := by
  induction h with
  | nil => exact absurd hmem List.not_mem_nil
  | object _ _ ih => exact ih ((List.mem_cons.mp hmem).resolve_left nofun)
  | pool hobject hpool hbelow _ ihbelow ih =>
    rcases List.mem_append.mp hmem with hmem | hmem
    · exact ihbelow hmem
    · rcases List.mem_cons.mp hmem with heq | hmem
      · obtain rfl := PoolMember.pool.inj heq
        obtain rfl := pool_name hpool
        exact hbelow.notMem_self hobject hpool
      · exact ih hmem
  | missing _ _ _ ih => exact ih hmem

/-! ### Names that resolve -/

section Reaches

variable (resolver)

/-- The names that are looked up for a name: itself, and the members of the pools below it. -/
inductive Reaches : String → String → Prop
  | self (name : String) : Reaches name name
  | member {name member below : String} {pool : PoolObject}
      (hobject : resolver.objects name = none) (hpool : resolver.pool name = some pool)
      (hmember : member ∈ pool.members) (hbelow : Reaches member below) : Reaches name below

/-- The store has an object or a pool of the name. -/
def Found (name : String) : Prop := resolver.objects name ≠ none ∨ resolver.pool name ≠ none

/-- All names below the name are found. -/
def Resolves (name : String) : Prop := ∀ below, resolver.Reaches name below → resolver.Found below

variable {resolver}

/-- A name that is not found does not resolve. -/
theorem not_resolves {name : String} (hobject : resolver.objects name = none)
    (hpool : resolver.pool name = none) : ¬resolver.Resolves name := by
  intro h
  rcases h name (.self name) with hfound | hfound
  · exact hfound hobject
  · exact hfound hpool

theorem Reaches.member_right {root name member : String} {pool : PoolObject}
    (h : resolver.Reaches root name) (hobject : resolver.objects name = none)
    (hpool : resolver.pool name = some pool) (hmember : member ∈ pool.members) :
    resolver.Reaches root member := by
  induction h with
  | self name => exact .member hobject hpool hmember (.self member)
  | member hobject' hpool' hmember' _ ih =>
    exact .member hobject' hpool' hmember' (ih hobject hpool)

/-- An object is not searched any further. -/
theorem Reaches.eq_of_object {name below : String} (h : resolver.Reaches name below)
    (hobject : resolver.objects name ≠ none) : below = name := by
  cases h with
  | self => rfl
  | member hnone => exact absurd hnone hobject

end Reaches

end GenericResolver

end RulesAnalyzer
