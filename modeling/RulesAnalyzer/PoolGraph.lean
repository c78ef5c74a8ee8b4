import RulesAnalyzer.Resolver

/-!
# The graph of pools

Pools refer to objects and to other pools by name, and nothing keeps a pool from being below
itself.  The resolver walks through all pools below a root: a pool that is met again below
itself ends the walk with an exception, a pool that is shared by others is listed again.

## Main definitions

* `GenericResolver.lookup` — what a name stands for, objects first.
* `GenericResolver.Below`, `GenericResolver.Loops` — the names below a pool, and a pool below
  itself.
* `GenericResolver.Lists` — a list of what is below a pool, members first.

## Main results

* `GenericResolver.Expands.not_loops` — a list that ends has no pool below itself.
* `GenericResolver.loops_of_resolve` — an exception is a loop.
* `GenericResolver.missing_of_expand` — the names that are noted are those that are not found.
* `GenericResolver.resolve_exact` — **what the walk does on every graph of pools.**
-/

namespace RulesAnalyzer

open Effect

namespace GenericResolver

variable {O : Type} (resolver : GenericResolver O)

/-- What a name stands for: an object, or else a pool. -/
def lookup (name : String) : Option (PoolMember O) :=
  match resolver.objects name with
  | some object => some (.object object)
  | none => (resolver.pool name).map .pool

/-- The names that are looked up below a pool. -/
def Below (root : PoolObject) (name : String) : Prop :=
  ∃ member ∈ root.members, resolver.Reaches member name

/-- Some name below the pool stands for a pool that has the name below it. -/
def Loops (root : PoolObject) : Prop :=
  ∃ name pool, resolver.Below root name ∧ resolver.objects name = none ∧
    resolver.pool name = some pool ∧ resolver.Below pool name

/-- The list holds the root, at its end, and all that the names below it stand for; the members
of a pool come before the pool. -/
structure Lists (root : PoolObject) (members : List (PoolMember O)) : Prop where
  last : members.getLast? = some (.pool root)
  sound : ∀ item ∈ members, item = .pool root ∨
    ∃ name, resolver.Below root name ∧ resolver.lookup name = some item
  complete : ∀ name item, resolver.Below root name → resolver.lookup name = some item →
    item ∈ members
  ordered : ∀ before pool after, members = before ++ .pool pool :: after →
    ∀ member ∈ pool.members, ∀ item, resolver.lookup member = some item → item ∈ before

variable {resolver}

/-! ### Names and what is below them -/

theorem lookup_object {name : String} {object : O} (h : resolver.objects name = some object) :
    resolver.lookup name = some (.object object) := by
  rw [lookup, h]

theorem lookup_pool {name : String} {pool : PoolObject} (hobject : resolver.objects name = none)
    (hpool : resolver.pool name = some pool) : resolver.lookup name = some (.pool pool) := by
  rw [lookup, hobject, hpool]
  rfl

theorem lookup_missing {name : String} (hobject : resolver.objects name = none)
    (hpool : resolver.pool name = none) : resolver.lookup name = none := by
  rw [lookup, hobject, hpool]
  rfl

theorem below_of_mem {root : PoolObject} {name : String} (h : name ∈ root.members) :
    resolver.Below root name := ⟨name, h, .self name⟩

/-- What is below a pool that is below the root is below the root. -/
theorem Below.trans {root pool : PoolObject} {name below : String} (h : resolver.Below root name)
    (hobject : resolver.objects name = none) (hpool : resolver.pool name = some pool)
    (hbelow : resolver.Below pool below) : resolver.Below root below := by
  obtain ⟨member, hmember, hreaches⟩ := h
  obtain ⟨member', hmember', hreaches'⟩ := hbelow
  refine ⟨member, hmember, ?_⟩
  clear hmember
  induction hreaches with
  | self name => exact .member hobject hpool hmember' hreaches'
  | member hobject' hpool' hmember'' _ ih =>
    exact .member hobject' hpool' hmember'' (ih hobject hpool)

/-- A name reaches itself, and what is below its pool. -/
theorem reaches_iff {name below : String} : resolver.Reaches name below ↔ below = name ∨
    ∃ pool, resolver.objects name = none ∧ resolver.pool name = some pool ∧
      resolver.Below pool below := by
  constructor
  · intro h
    cases h with
    | self => exact Or.inl rfl
    | member hobject hpool hmember hbelow => exact Or.inr ⟨_, hobject, hpool, _, hmember, hbelow⟩
  · rintro (rfl | ⟨pool, hobject, hpool, member, hmember, hbelow⟩)
    · exact .self _
    · exact .member hobject hpool hmember hbelow

/-! ### The lists -/

section Expands

variable {names : List String} {members : List (PoolMember O)}

/-- What a name stands for is in the list. -/
theorem Expands.mem_of_lookup (h : resolver.Expands names members) {name : String}
    (hname : name ∈ names) {item : PoolMember O} (hitem : resolver.lookup name = some item) :
    item ∈ members := by
  induction h with
  | nil => exact absurd hname List.not_mem_nil
  | object hobject _ ih =>
    rcases List.mem_cons.mp hname with rfl | hname
    · rw [lookup_object hobject] at hitem
      exact Option.some.inj hitem ▸ List.mem_cons_self
    · exact List.mem_cons_of_mem _ (ih hname)
  | pool hobject hpool _ _ _ ih =>
    rcases List.mem_cons.mp hname with rfl | hname
    · rw [lookup_pool hobject hpool] at hitem
      exact Option.some.inj hitem ▸ List.mem_append_right _ List.mem_cons_self
    · exact List.mem_append_right _ (List.mem_cons_of_mem _ (ih hname))
  | missing hobject hpool _ ih =>
    rcases List.mem_cons.mp hname with rfl | hname
    · rw [lookup_missing hobject hpool] at hitem
      cases hitem
    · exact ih hname

/-- What a name below the names stands for is in the list. -/
theorem Expands.mem_of_reaches (h : resolver.Expands names members) {name below : String}
    (hname : name ∈ names) (hreaches : resolver.Reaches name below) {item : PoolMember O}
    (hitem : resolver.lookup below = some item) : item ∈ members := by
  induction hreaches generalizing names members with
  | self name => exact h.mem_of_lookup hname hitem
  | member hobject hpool hmember _ ih =>
    obtain ⟨members', hmembers', -, hsub⟩ := h.exists_below hname hobject hpool
    exact hsub (ih hmembers' hmember hitem)

/-- The pool of a name below the names expands to a shorter list. -/
theorem Expands.shorter (h : resolver.Expands names members) {name below : String}
    (hname : name ∈ names) (hreaches : resolver.Reaches name below) {pool : PoolObject}
    (hobject : resolver.objects below = none) (hpool : resolver.pool below = some pool) :
    ∃ members', resolver.Expands pool.members members' ∧ members'.length < members.length := by
  induction hreaches generalizing names members with
  | self name =>
    obtain ⟨members', hmembers', hlt, -⟩ := h.exists_below hname hobject hpool
    exact ⟨members', hmembers', hlt⟩
  | member hobject' hpool' hmember _ ih =>
    obtain ⟨members', hmembers', hlt, -⟩ := h.exists_below hname hobject' hpool'
    obtain ⟨members'', hmembers'', hlt'⟩ := ih hmembers' hmember hobject hpool
    exact ⟨members'', hmembers'', hlt'.trans hlt⟩

/-- A pool that expands is not below itself. -/
theorem Expands.not_below {pool : PoolObject} (h : resolver.Expands pool.members members)
    {name : String} (hobject : resolver.objects name = none)
    (hpool : resolver.pool name = some pool) : ¬resolver.Below pool name := by
  rintro ⟨member, hmember, hreaches⟩
  -- below the pool the list would expand again, and be shorter each time
  induction hn : members.length using Nat.strong_induction_on generalizing members with
  | _ n ih =>
    obtain ⟨members', hmembers', hlt⟩ := h.shorter hmember hreaches hobject hpool
    exact ih members'.length (hn ▸ hlt) hmembers' rfl

/-- **A pool that expands has no pool below it that is below itself.** -/
theorem Expands.not_loops {root : PoolObject} (h : resolver.Expands root.members members) :
    ¬resolver.Loops root := by
  rintro ⟨name, pool, ⟨member, hmember, hreaches⟩, hobject, hpool, hbelow⟩
  obtain ⟨members', hmembers', -⟩ := h.shorter hmember hreaches hobject hpool
  exact hmembers'.not_below hobject hpool hbelow

/-- All that is in the list is what a name below the names stands for. -/
theorem Expands.exists_of_mem (h : resolver.Expands names members) {item : PoolMember O}
    (hitem : item ∈ members) :
    ∃ name ∈ names, ∃ below, resolver.Reaches name below ∧ resolver.lookup below = some item := by
  induction h with
  | nil => exact absurd hitem List.not_mem_nil
  | @object name _ _ _ hobject _ ih =>
    rcases List.mem_cons.mp hitem with rfl | hitem
    · exact ⟨name, List.mem_cons_self, name, .self name, lookup_object hobject⟩
    · obtain ⟨name, hname, hbelow⟩ := ih hitem
      exact ⟨name, List.mem_cons_of_mem _ hname, hbelow⟩
  | @pool name _ _ _ _ hobject hpool _ _ ihbelow ih =>
    rcases List.mem_append.mp hitem with hitem | hitem
    · obtain ⟨member, hmember, below, hreaches, hlookup⟩ := ihbelow hitem
      exact ⟨name, List.mem_cons_self, below, .member hobject hpool hmember hreaches, hlookup⟩
    · rcases List.mem_cons.mp hitem with rfl | hitem
      · exact ⟨name, List.mem_cons_self, name, .self name, lookup_pool hobject hpool⟩
      · obtain ⟨name, hname, hbelow⟩ := ih hitem
        exact ⟨name, List.mem_cons_of_mem _ hname, hbelow⟩
  | missing _ _ _ ih =>
    obtain ⟨name, hname, hbelow⟩ := ih hitem
    exact ⟨name, List.mem_cons_of_mem _ hname, hbelow⟩

/-- An item of a list with a marked item stands before it, is it, or stands after it. -/
theorem split_cases {α : Type} {front back before after : List α} {mark item : α}
    (h : front ++ mark :: back = before ++ item :: after) :
    (∃ rest, front = before ++ item :: rest) ∨ (mark = item ∧ before = front) ∨
      ∃ mid, before = front ++ mark :: mid ∧ back = mid ++ item :: after := by
  -- by which of the two front parts is the longer one
  rcases List.append_eq_append_iff.mp h with ⟨mid, rfl, hmid⟩ | ⟨mid, rfl, hmid⟩
  · rcases List.cons_eq_append_iff.mp hmid with ⟨rfl, hcons⟩ | ⟨mid', rfl, hback⟩
    · exact Or.inr (Or.inl ⟨(List.cons.inj hcons).1.symm, List.append_nil _⟩)
    · exact Or.inr (Or.inr ⟨mid', rfl, hback⟩)
  · rcases List.cons_eq_append_iff.mp hmid with ⟨rfl, hcons⟩ | ⟨mid', rfl, -⟩
    · exact Or.inr (Or.inl ⟨(List.cons.inj hcons).1, (List.append_nil _).symm⟩)
    · exact Or.inl ⟨mid', rfl⟩

/-- **The members of a pool come before the pool.** -/
theorem Expands.ordered (h : resolver.Expands names members) {before after : List (PoolMember O)}
    {pool : PoolObject} (hsplit : members = before ++ .pool pool :: after) {member : String}
    (hmember : member ∈ pool.members) {item : PoolMember O}
    (hitem : resolver.lookup member = some item) : item ∈ before := by
  induction h generalizing before after with
  | nil => exact absurd hsplit.symm (List.append_ne_nil_of_right_ne_nil _ (List.cons_ne_nil _ _))
  | object _ _ ih =>
    cases before with
    | nil => exact nomatch (List.cons.inj hsplit).1
    | cons first before =>
      exact List.mem_cons_of_mem _ (ih (List.cons.inj hsplit).2)
  | pool _ _ hbelow _ ihbelow ih =>
    -- the pool is below the first one, is the first one, or is below a later name
    rcases split_cases hsplit with ⟨rest, hrest⟩ | ⟨heq, rfl⟩ | ⟨mid, rfl, hmid⟩
    · exact ihbelow hrest
    · obtain rfl := PoolMember.pool.inj heq
      exact hbelow.mem_of_lookup hmember hitem
    · exact List.mem_append_right _ (List.mem_cons_of_mem _ (ih hmid))
  | missing _ _ _ ih => exact ih hsplit

/-- **The list of a pool, and the pool.** -/
theorem Expands.lists {root : PoolObject} (h : resolver.Expands root.members members) :
    resolver.Lists root (members ++ [.pool root]) where
  last := List.getLast?_concat
  sound item hitem := by
    rcases List.mem_append.mp hitem with hitem | hitem
    · obtain ⟨name, hname, below, hreaches, hlookup⟩ := h.exists_of_mem hitem
      exact Or.inr ⟨below, ⟨name, hname, hreaches⟩, hlookup⟩
    · exact Or.inl (List.mem_singleton.mp hitem)
  complete name item hname hitem := by
    obtain ⟨member, hmember, hreaches⟩ := hname
    exact List.mem_append_left _ (h.mem_of_reaches hmember hreaches hitem)
  ordered before pool after hsplit member hmember item hitem := by
    rcases split_cases hsplit with ⟨rest, hrest⟩ | ⟨heq, rfl⟩ | ⟨mid, rfl, hmid⟩
    · exact h.ordered hrest hmember hitem
    · obtain rfl := PoolMember.pool.inj heq
      exact h.mem_of_lookup hmember hitem
    · exact absurd hmid.symm (List.append_ne_nil_of_right_ne_nil _ (List.cons_ne_nil _ _))

end Expands

/-! ### Exceptions -/

/-- An exception of a list of names is one of a name. -/
theorem raises_of_names
    {expandPool : PoolObject → Program (List String) Fault (List (PoolMember O))}
    {visited names unresolved unresolved' : List String} {fault : Fault}
    (h : exec (resolver.expandNames expandPool visited names) unresolved =
      (.error fault, unresolved')) :
    ∃ name ∈ names, ∃ u u',
      exec (resolver.expandName expandPool visited name) u = (.error fault, u') := by
  induction names generalizing unresolved with
  | nil => cases h
  | cons name names ih =>
    rw [expandNames] at h
    -- either the first name raises, or the rest does
    rcases hrun : exec (resolver.expandName expandPool visited name) unresolved with
      ⟨fault' | first, u⟩
    · rw [exec_bind_error hrun] at h
      obtain rfl := Except.error.inj (Prod.mk.inj h).1
      exact ⟨name, List.mem_cons_self, unresolved, u, hrun⟩
    · rw [exec_bind_ok hrun] at h
      rcases hrest : exec (resolver.expandNames expandPool visited names) u with ⟨fault' | rest, u'⟩
      · rw [exec_bind_error hrest] at h
        obtain ⟨name', hname', hraises⟩ := ih (hrest.trans h)
        exact ⟨name', List.mem_cons_of_mem _ hname', hraises⟩
      · rw [exec_bind_ok hrest, exec_pure] at h
        cases h

/-- The visited pools have the members of the pool below them. -/
def Above (resolver : GenericResolver O) (visited : List String) (pool : PoolObject) : Prop :=
  ∀ name ∈ visited, ∃ above, resolver.objects name = none ∧ resolver.pool name = some above ∧
    ∀ member ∈ pool.members, resolver.Below above member

/-- One pool down, the pool is visited as well. -/
theorem Above.cons {visited : List String} {pool sub : PoolObject} {name : String}
    (h : resolver.Above visited pool) (hname : name ∈ pool.members)
    (hobject : resolver.objects name = none) (hsub : resolver.pool name = some sub) :
    resolver.Above (sub.name :: visited) sub := by
  intro name' hname'
  rcases List.mem_cons.mp hname' with rfl | hname'
  · obtain rfl := pool_name hsub
    exact ⟨sub, hobject, hsub, fun _ hmember => below_of_mem hmember⟩
  · obtain ⟨above, hobject', habove, hbelow⟩ := h name' hname'
    exact ⟨above, hobject', habove,
      fun member hmember => (hbelow name hname).trans hobject hsub (below_of_mem hmember)⟩

/-- **An exception is a loop**, as long as the depth does not run out.  A pool is refused when it
was visited on the way down, so it is below itself. -/
theorem loops_of_expand {depth : ℕ} {visited unresolved unresolved' : List String}
    {pool : PoolObject} {fault : Fault} (hdeep : resolver.Deep depth visited)
    (habove : resolver.Above visited pool)
    (h : exec (resolver.expand depth visited pool) unresolved = (.error fault, unresolved')) :
    (∃ name, fault = resolver.loopFault name) ∧ resolver.Loops pool := by
  induction depth generalizing visited pool unresolved unresolved' with
  | zero => exact absurd hdeep.pos (lt_irrefl 0)
  | succ depth ih =>
    rw [expand] at h
    rcases hnames : exec (resolver.expandNames (fun sub =>
      resolver.expand depth (sub.name :: visited) sub) visited pool.members) unresolved with
      ⟨fault' | members, u⟩
    · rw [exec_bind_error hnames] at h
      obtain rfl := Except.error.inj (Prod.mk.inj h).1
      obtain ⟨name, hname, v, v', hraises⟩ := raises_of_names hnames
      rw [expandName] at hraises
      rcases hobject : resolver.objects name with _ | object
      · rcases hsub : resolver.pool name with _ | sub
        · simp only [hobject, hsub, exec_modify_bind, exec_pure] at hraises
          cases hraises
        · simp only [hobject, hsub] at hraises
          have hbelow : resolver.Below pool name := below_of_mem hname
          split at hraises
          · next hvisited =>
            rw [exec_throw] at hraises
            obtain rfl := Except.error.inj (Prod.mk.inj hraises).1
            obtain rfl := pool_name hsub
            -- the pool was visited, so it has itself below it
            obtain ⟨above, -, hpool, hmembers⟩ := habove sub.name hvisited
            exact ⟨⟨sub.name, rfl⟩, sub.name, above, hbelow, hobject, hpool, hmembers _ hname⟩
          · next hnot =>
            -- the pool raised below, and what is below it is below the root
            obtain ⟨hfault, name', pool', hbelow', hcycle⟩ :=
              ih (hdeep.cons hsub hnot) (habove.cons hname hobject hsub) hraises
            exact ⟨hfault, name', pool', hbelow.trans hobject hsub hbelow', hcycle⟩
      · simp only [hobject, exec_pure] at hraises
        cases hraises
    · rw [exec_bind_ok hnames, exec_pure] at h
      cases h

theorem loops_of_resolve {root : PoolObject} {unresolved unresolved' : List String} {fault : Fault}
    (h : exec (resolver.resolve root) unresolved = (.error fault, unresolved')) :
    (∃ name, fault = resolver.loopFault name) ∧ resolver.Loops root := by
  have hdeep : resolver.Deep (resolver.pools.length + 1) [] :=
    ⟨List.nodup_nil, fun _ hname => absurd hname List.not_mem_nil, le_rfl⟩
  exact loops_of_expand hdeep (fun _ hname => absurd hname List.not_mem_nil) h

/-! ### Names that are not found -/

/-- The names are added to the state, and are those that are not found below some names. -/
def Missing (resolver : GenericResolver O) (unresolved unresolved' : List String)
    (below : String → Prop) : Prop :=
  ∃ missing, unresolved' = unresolved ++ missing ∧
    ∀ name, name ∈ missing ↔ below name ∧ ¬resolver.Found name

theorem Missing.append {u u' u'' : List String} {below below' : String → Prop}
    (h : resolver.Missing u u' below) (h' : resolver.Missing u' u'' below') :
    resolver.Missing u u'' fun name => below name ∨ below' name := by
  obtain ⟨missing, rfl, hmissing⟩ := h
  obtain ⟨missing', rfl, hmissing'⟩ := h'
  refine ⟨missing ++ missing', List.append_assoc .., fun name => ?_⟩
  rw [List.mem_append, hmissing, hmissing', or_and_right]

theorem Missing.congr {u u' : List String} {below below' : String → Prop}
    (h : resolver.Missing u u' below)
    (hiff : ∀ name, ¬resolver.Found name → (below name ↔ below' name)) :
    resolver.Missing u u' below' := by
  obtain ⟨missing, rfl, hmissing⟩ := h
  refine ⟨missing, rfl, fun name => (hmissing name).trans ?_⟩
  exact and_congr_left (hiff name)

/-- Nothing is added. -/
theorem missing_refl {u : List String} {below : String → Prop}
    (h : ∀ name, below name → resolver.Found name) : resolver.Missing u u below :=
  ⟨[], (List.append_nil u).symm, fun name =>
    iff_of_false List.not_mem_nil fun hname => hname.2 (h name hname.1)⟩

section Names

variable {expandPool : PoolObject → Program (List String) Fault (List (PoolMember O))}
  {visited : List String}
  (hpool : ∀ sub u members u', Returns (expandPool sub) u members u' →
    resolver.Missing u u' (resolver.Below sub))

include hpool in
theorem missing_of_name {name : String} {u u' : List String} {members : List (PoolMember O)}
    (h : Returns (resolver.expandName expandPool visited name) u members u') :
    resolver.Missing u u' (resolver.Reaches name) := by
  rw [expandName] at h
  rcases hobject : resolver.objects name with _ | object
  · rcases hsub : resolver.pool name with _ | sub
    · simp only [hobject, hsub] at h
      obtain ⟨_, _, hmodify, hpure⟩ := returns_bind.mp h
      obtain ⟨-, rfl⟩ := returns_pure.mp hpure
      obtain rfl := returns_modify.mp hmodify
      -- only the name itself is noted, and nothing is below it
      refine ⟨[name], rfl, fun below => ?_⟩
      have hnot : ¬resolver.Found name := by
        rintro (hsome | hsome)
        · exact hsome hobject
        · exact hsome hsub
      rw [List.mem_singleton, reaches_iff]
      constructor
      · rintro rfl
        exact ⟨Or.inl rfl, hnot⟩
      · rintro ⟨rfl | ⟨pool, -, hpool', -⟩, -⟩
        · rfl
        · rw [hsub] at hpool'
          cases hpool'
    · simp only [hobject, hsub] at h
      split at h
      · exact absurd h returns_throw
      · -- the name of the pool is found, so the names noted are those below it
        refine (hpool sub u members u' h).congr fun below hbelow => ?_
        rw [reaches_iff]
        constructor
        · exact fun hsome => Or.inr ⟨sub, hobject, hsub, hsome⟩
        · rintro (rfl | ⟨pool, -, hpool', hsome⟩)
          · exact absurd (Or.inr (hsub ▸ Option.some_ne_none sub)) hbelow
          · obtain rfl := Option.some.inj (hsub.symm.trans hpool')
            exact hsome
  · simp only [hobject] at h
    obtain ⟨-, rfl⟩ := returns_pure.mp h
    -- an object has nothing below it but itself
    refine missing_refl fun below hbelow => ?_
    obtain rfl := hbelow.eq_of_object (hobject ▸ Option.some_ne_none object)
    exact Or.inl (hobject ▸ Option.some_ne_none object)

include hpool in
theorem missing_of_names {names u u' : List String} {members : List (PoolMember O)}
    (h : Returns (resolver.expandNames expandPool visited names) u members u') :
    resolver.Missing u u' fun below => ∃ name ∈ names, resolver.Reaches name below := by
  induction names generalizing u members with
  | nil =>
    obtain ⟨-, rfl⟩ := returns_pure.mp h
    exact missing_refl fun below ⟨name, hname, _⟩ => absurd hname List.not_mem_nil
  | cons name names ih =>
    rw [expandNames] at h
    obtain ⟨first, v, hfirst, h⟩ := returns_bind.mp h
    obtain ⟨rest, v', hrest, h⟩ := returns_bind.mp h
    obtain ⟨-, rfl⟩ := returns_pure.mp h
    refine ((missing_of_name hpool hfirst).append (ih hrest)).congr fun below _ => ?_
    exact (List.exists_mem_cons_iff (resolver.Reaches · below) name names).symm

end Names

/-- **The names that are added are those below the pool that are not found.** -/
theorem missing_of_expand {depth : ℕ} {visited u u' : List String} {pool : PoolObject}
    {members : List (PoolMember O)}
    (h : Returns (resolver.expand depth visited pool) u members u') :
    resolver.Missing u u' (resolver.Below pool) := by
  induction depth generalizing visited pool u members u' with
  | zero => exact absurd h returns_throw
  | succ depth ih =>
    rw [expand] at h
    obtain ⟨below, v, hnames, h⟩ := returns_bind.mp h
    obtain ⟨-, rfl⟩ := returns_pure.mp h
    exact missing_of_names (fun _ _ _ _ hsub => ih hsub) hnames

/-! ### The walk -/

/-- The loop has one outcome. -/
theorem Ends.unique {walk : Walk O}
    {outcome outcome' : Except Fault (List (PoolMember O)) × List String}
    (h : resolver.Ends walk outcome) (h' : resolver.Ends walk outcome') : outcome = outcome' := by
  induction h with
  | finished h =>
    cases h' with
    | finished => rfl
    | raised h' => exact nomatch h.symm.trans h'
    | next h' => exact nomatch h.symm.trans h'
  | raised h =>
    cases h' with
    | finished h' => exact nomatch h.symm.trans h'
    | raised h' =>
      obtain rfl := Except.error.inj (Option.some.inj (h.symm.trans h'))
      rfl
    | next h' => exact nomatch Option.some.inj (h.symm.trans h')
  | next h _ ih =>
    cases h' with
    | finished h' => exact nomatch h.symm.trans h'
    | raised h' => exact nomatch Option.some.inj (h.symm.trans h')
    | next h' hend' =>
      obtain rfl := Except.ok.inj (Option.some.inj (h.symm.trans h'))
      exact ih hend'

/-- **What the walk does on every graph of pools.**  The loop of the code ends, with one outcome.
It raises the exception of a loop exactly when a pool below the root is below itself.  Otherwise
it lists what is below the root, the members of a pool before the pool and the root last, and
adds the names below the root that stand for nothing to the list it is given. -/
theorem resolve_exact (resolver : GenericResolver O) (root : PoolObject)
    (unresolved : List String) :
    ∃ outcome, resolver.Ends ⟨[(root, root.members)], [], [], unresolved⟩ outcome ∧
      (∀ outcome', resolver.Ends ⟨[(root, root.members)], [], [], unresolved⟩ outcome' →
        outcome' = outcome) ∧
      ((∃ name, outcome.1 = .error (resolver.loopFault name)) ↔ resolver.Loops root) ∧
      (¬resolver.Loops root → ∃ members missing,
        outcome = (.ok members, unresolved ++ missing) ∧ resolver.Lists root members ∧
        ∀ name, name ∈ missing ↔ resolver.Below root name ∧ ¬resolver.Found name) := by
  have hends := resolve_ends resolver root unresolved
  refine ⟨_, hends, fun outcome' h => h.unique hends, ?_⟩
  rcases hrun : exec (resolver.resolve root) unresolved with ⟨fault | members, unresolved'⟩
  · -- the depth is enough for any walk without a loop, so an exception is one
    obtain ⟨⟨name, rfl⟩, hloops⟩ := loops_of_resolve hrun
    exact ⟨iff_of_true ⟨name, rfl⟩ hloops, fun hnot => absurd hloops hnot⟩
  · obtain ⟨below, hbelow, rfl⟩ := expands_of_resolve hrun
    obtain ⟨missing, rfl, hmissing⟩ := missing_of_expand hrun
    refine ⟨iff_of_false (fun ⟨_, h⟩ => nomatch h) hbelow.not_loops, fun _ => ?_⟩
    exact ⟨_, missing, rfl, hbelow.lists, hmissing⟩

end GenericResolver

end RulesAnalyzer
