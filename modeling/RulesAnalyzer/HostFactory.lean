import RulesAnalyzer.Criteria
import RulesAnalyzer.FqdnResolver
import RulesAnalyzer.HostLookups

/-!
# The factory with the host resolver

The store looks up the addresses of a host when a row asks for them, and keeps the
answer under the name that asked first; the next name of the same host is answered
with the object of the first.  So the caches of the resolver are a second state of the
factory.  A row changes the network and the rules as it does with a resolver that is a
function, and as long as every host is asked for under one name it does the same.

## Main definitions

* `FqdnResolver.next`, `ObjectStore.withAnswers` — what the caches of a resolver answer now.
* `HostFactory.buildCriteria`, `HostFactory.addRule` — the factory with the host resolver.
* `HostFactory.AddedAlone` — a row is added when the firewall has no rules.

## Main results

* `HostFactory.builds_buildCriteria` — building the criteria extends the network and leaves the
  rules alone.
* `HostFactory.exists_returns_addRule_iff` — **of the rules in the firewall only their ids
  matter.**
* `HostFactory.follows_addRule` — **the factory follows the one that asks a function.**
-/

namespace RulesAnalyzer

open Effect Shared

/-! ### The resolver as it is -/

namespace FqdnResolver

variable (resolverConfig : ResolverConfig) (config : ModelConfig)

/-- What the resolver answers for an fqdn, as its caches are. -/
def next (s : FqdnResolver) (fqdn : AddressObject) : Option AddressObject :=
  if resolverConfig.enable then
    fqdn.hostname.bind fun hostname => match s.filteredMemoryCache hostname with
      | some object => object
      | none => ipmaskAddressObject fqdn.name (s.hostAddresses resolverConfig config hostname)
  else none

variable {resolverConfig config}

theorem next_of_none {s : FqdnResolver} {fqdn : AddressObject}
    (h : resolverConfig.enable = true → fqdn.hostname = none) :
    s.next resolverConfig config fqdn = none := by
  rw [next]
  split
  · next henable => rw [h henable, Option.bind_none]
  · rfl

theorem next_of_cached {s : FqdnResolver} {fqdn : AddressObject} {hostname : String}
    {object : Option AddressObject} (henable : resolverConfig.enable = true)
    (hhost : fqdn.hostname = some hostname)
    (hcached : s.filteredMemoryCache hostname = some object) :
    s.next resolverConfig config fqdn = object := by
  rw [next, if_pos henable, hhost, Option.bind_some, hcached]

theorem next_of_new {s : FqdnResolver} {fqdn : AddressObject} {hostname : String}
    (henable : resolverConfig.enable = true) (hhost : fqdn.hostname = some hostname)
    (hnew : s.filteredMemoryCache hostname = none) : s.next resolverConfig config fqdn =
      ipmaskAddressObject fqdn.name (s.hostAddresses resolverConfig config hostname) := by
  rw [next, if_pos henable, hhost, Option.bind_some, hnew]

/-- Hosts that keep their addresses and what is cached for them are answered as before. -/
theorem next_congr {s s' : FqdnResolver} {fqdn : AddressObject}
    (hknown : s'.known resolverConfig = s.known resolverConfig)
    (hsame : ∀ hostname, fqdn.hostname = some hostname →
      s'.filteredMemoryCache hostname = s.filteredMemoryCache hostname) :
    s'.next resolverConfig config fqdn = s.next resolverConfig config fqdn := by
  rw [next, next]
  rcases hhost : fqdn.hostname with _ | hostname
  · rfl
  · simp only [Option.bind_some, hsame hostname hhost, hostAddresses, hknown]

/-- Whether a host that is not cached has addresses does not depend on the name. -/
theorem isSome_ipmaskAddressObject (name name' : String) (addresses : List String) :
    (ipmaskAddressObject name addresses).isSome = (ipmaskAddressObject name' addresses).isSome := by
  unfold ipmaskAddressObject
  split <;> rfl

end FqdnResolver

/-- The store with other answers for its hosts. -/
def ObjectStore.withAnswers (store : ObjectStore)
    (answers : AddressObject → Option AddressObject) : ObjectStore :=
  { store with fqdnResolver := answers }

namespace AddressObjects

variable {resolverConfig : ResolverConfig} {config : ModelConfig} {store : ObjectStore}

/-- What a lookup changes: nothing, or the host of the name is cached, with the answer of the
lookup. -/
inductive Leaves (resolverConfig : ResolverConfig) (config : ModelConfig)
    (addresses : ObjectDictionary AddressObject) (name : String) (s : FqdnResolver) :
    FqdnResolver → Prop
  | same : Leaves resolverConfig config addresses name s s
  | cached {fqdn : AddressObject} {hostname : String} {s' : FqdnResolver}
      (henable : resolverConfig.enable = true)
      (hfqdn : ObjectDictionary.get addresses name = some fqdn)
      (hhost : fqdn.hostname = some hostname) (hnew : s.filteredMemoryCache hostname = none)
      (hknown : s'.known resolverConfig = s.known resolverConfig)
      (hfiltered : s'.filteredMemoryCache = Function.update s.filteredMemoryCache hostname
        (some (s.next resolverConfig config fqdn))) :
      Leaves resolverConfig config addresses name s s'

/-- **A lookup answers what the resolver answers now.**  It changes the caches at most by the
answer for its own host. -/
theorem returns_get {name : String} {s s' : FqdnResolver} {found : Option AddressObject}
    (h : Returns (get resolverConfig config store.addresses name) s found s') :
    found = (store.withAnswers (s.next resolverConfig config)).getAddress name ∧
      Leaves resolverConfig config store.addresses name s s' := by
  have hgets := @gets resolverConfig config store.addresses name s
  rw [h] at hgets
  unfold ObjectStore.getAddress ObjectStore.withAnswers
  dsimp only
  -- an object without a host, or one of the three outcomes of the resolver
  cases hgets with
  | other hnone =>
    refine ⟨?_, .same⟩
    rcases hname : ObjectDictionary.get store.addresses name with _ | address
    · rfl
    · rw [hostOf, hname, Option.bind_some] at hnone
      by_cases htype : address.type = .fqdn
      · rw [Option.filter_some, if_neg (by simp [htype])]
        simp only [if_pos htype]
        exact (FqdnResolver.next_of_none hnone).symm
      · rw [Option.filter_some, if_pos (by simp [htype])]
        simp only [if_neg htype]
  | @host fqdn hostname _ henable hfqdn hhost hresolved =>
    simp only [hfqdn, type_of_hostname hhost, if_true]
    cases hresolved with
    | cached hcached => exact ⟨(FqdnResolver.next_of_cached henable hhost hcached).symm, .same⟩
    | failed hnew hempty hresult =>
      refine ⟨?_, .same⟩
      rw [FqdnResolver.next_of_new henable hhost hnew, hempty, hresult found rfl]
      rfl
    | added hnew hknown hfiltered =>
      have hnext := (@FqdnResolver.next_of_new resolverConfig config s fqdn hostname henable hhost
        hnew).symm
      exact ⟨hnext, .cached henable hfqdn hhost hnew hknown (hnext ▸ hfiltered)⟩

/-- A host is answered as before, or with the answer of the lookup that cached it. -/
theorem Leaves.next {name : String} {s s' : FqdnResolver}
    (h : Leaves resolverConfig config store.addresses name s s') (fqdn' : AddressObject) :
    s'.next resolverConfig config fqdn' = s.next resolverConfig config fqdn' ∨
      ∃ fqdn hostname, resolverConfig.enable = true ∧
        ObjectDictionary.get store.addresses name = some fqdn ∧ fqdn.hostname = some hostname ∧
        fqdn'.hostname = some hostname ∧ s.filteredMemoryCache hostname = none ∧
        s'.next resolverConfig config fqdn' = s.next resolverConfig config fqdn := by
  cases h with
  | same => exact Or.inl rfl
  | @cached fqdn hostname _ henable hfqdn hhost hnew hknown hfiltered =>
    by_cases hsame : fqdn'.hostname = some hostname
    · refine Or.inr ⟨fqdn, hostname, henable, hfqdn, hhost, hsame, hnew, ?_⟩
      exact FqdnResolver.next_of_cached henable hsame (by rw [hfiltered, Function.update_self])
    · refine Or.inl (FqdnResolver.next_congr hknown fun hostname' hhost' => ?_)
      have hne : hostname' ≠ hostname := by
        rintro rfl
        exact hsame hhost'
      rw [hfiltered, Function.update_of_ne hne]

end AddressObjects

/-! ### The factory -/

namespace HostFactory

open FirewallFactory

variable (resolverConfig : ResolverConfig) (config : ModelConfig) (store : ObjectStore)

/-- The address of a name, as an object that lists values. -/
def getAddress (name : String) : Program FqdnResolver Fault (Option ValuedObject) :=
  Option.map AddressObject.valued <$> AddressObjects.get resolverConfig config store.addresses name

/-- The addresses of a row, for the two sides. -/
def buildAddressGroup (side : Side) (addresses : List String) :
    Program ((Network × List String) × FqdnResolver) Fault
      (List (Member (Item (.address side)))) :=
  zoomFst (fun s => (s.1.registries (.address side), s.2))
    (fun t s => (s.1.setRegistry (.address side) t.1, t.2))
    (Lookup.build (getAddress resolverConfig config store) (addressReference config store side)
      addresses)

/-- A program on the network and on the addresses that are not resolved. -/
def onAddresses {α : Type} (p : Program ((Network × List String) × FqdnResolver) Fault α) :
    Program (Loading × FqdnResolver) Fault α :=
  zoomFst (fun s => (s.network, s.status.unresolvedAddresses))
    (fun t s =>
      { s with network := t.1, status := { s.status with unresolvedAddresses := t.2 } }) p

/-- Builds a group.  A group without items is reported, and the row is not valid. -/
def criterion {α : Type} (build : Program (Loading × FqdnResolver) Fault α)
    (isEmpty : α → Network → Bool) (report : LoaderStatus → LoaderStatus) :
    Program (Loading × FqdnResolver) Fault (α × Bool) := do
  let group ← build
  onFst (FirewallFactory.criterion (pure group) isEmpty report)

/-- The criteria of a row, and whether none of the groups is empty.  Only addresses are looked up
by the resolver. -/
def buildCriteria (rule : RuleObject) :
    Program (Loading × FqdnResolver) Fault (CriteriaRef × Bool) := do
  let srcAddresses ← criterion
    (onAddresses (buildAddressGroup resolverConfig config store .src rule.sourceAddresses))
    (fun group nw => (nw.addressGroup .src group).items.isEmpty)
    fun status => { status with emptySources := status.emptySources ++ [rule.rowNumber] }
  let dstAddresses ← criterion
    (onAddresses (buildAddressGroup resolverConfig config store .dst rule.destinationAddresses))
    (fun group nw => (nw.addressGroup .dst group).items.isEmpty)
    fun status => { status with emptyDestinations := status.emptyDestinations ++ [rule.rowNumber] }
  onFst (otherCriteria store rule srcAddresses dstAddresses)

/-- Adds the rule of a row to the firewall.  The answer says whether the row is valid. -/
def addRule (rule : RuleObject) : Program (Loading × FqdnResolver) Fault Bool := do
  let start ← get
  match ruleAction rule.action, ruleStatus rule.status with
  | some action, some status => do
    let criteria ← buildCriteria resolverConfig config store rule
    let valid := (start.1.getRule rule.id).isNone && criteria.2
    if valid then
      onFst (modify fun s =>
        s.addRule ⟨rule.id, rule.name, status, action, .ofCriteria criteria.1⟩)
      pure true
    else pure false
  | _, _ => pure false

/-! ### What a row changes -/

section Keeps

variable {resolverConfig config store}

/-- The names with addresses are those whose hosts are answered. -/
theorem isSome_getAddress {s s' : FqdnResolver}
    (h : ∀ fqdn, (s'.next resolverConfig config fqdn).isSome =
      (s.next resolverConfig config fqdn).isSome) (name : String) :
    ((store.withAnswers (s'.next resolverConfig config)).getAddress name).isSome =
      ((store.withAnswers (s.next resolverConfig config)).getAddress name).isSome := by
  unfold ObjectStore.getAddress ObjectStore.withAnswers
  rcases ObjectDictionary.get store.addresses name with _ | address
  · rfl
  · by_cases htype : address.type = .fqdn
    · simp only [if_pos htype]
      exact h address
    · simp only [if_neg htype]

/-- Whatever is looked up, the same names have addresses. -/
theorem steady_getAddress (s : FqdnResolver) : ∃ isObject I, I s ∧
    Lookup.Steady (getAddress resolverConfig config store) isObject I := by
  refine ⟨fun name => ((store.withAnswers (s.next resolverConfig config)).getAddress name).isSome,
    fun r => ∀ fqdn, (r.next resolverConfig config fqdn).isSome =
      (s.next resolverConfig config fqdn).isSome, fun _ => rfl, ⟨?_⟩⟩
  intro name r found r' hr hrun
  obtain ⟨object, hget, rfl⟩ := returns_map.mp hrun
  obtain ⟨rfl, hleaves⟩ := AddressObjects.returns_get hget
  refine ⟨fun fqdn' => ?_, ?_⟩
  · rcases hleaves.next fqdn' with hsame | ⟨fqdn, hostname, henable, -, hhost, hhost', hnew, hnext⟩
    · rw [hsame, hr]
    · rw [hnext, ← hr, FqdnResolver.next_of_new henable hhost hnew,
        FqdnResolver.next_of_new henable hhost' hnew]
      exact FqdnResolver.isSome_ipmaskAddressObject _ _ _
  · rw [Option.isSome_map]
    exact isSome_getAddress hr name

theorem builds_onAddresses (side : Side) (addresses : List String) :
    Keeps (Through Prod.fst Loading.Builds)
      (onAddresses (buildAddressGroup resolverConfig config store side addresses)) := by
  have hkeeping : (addressReference config store side).Keeping
      (Under Registry.Sound Registry.Extends) := by
    rw [addressReference_eq]
    exact keeping_valuedReference _ _ _
  have hbuild := Lookup.keeps_build (@steady_getAddress resolverConfig config store) hkeeping
    addresses
  refine keeps_zoom (S := Through (fun s : (Network × List String) × FqdnResolver => s.1.1)
    Network.Step) ?_ fun s t h => ⟨h, rfl, rfl⟩
  exact keeps_zoom hbuild fun s t h => Network.step_update h

/-- Only the addresses of the side are registered. -/
theorem preserves_onAddresses {k : Kind} {P : Registry String (Item k) → Prop} {side : Side}
    (hk : k ≠ .address side) (addresses : List String) :
    Keeps (Through Prod.fst (Preserves (Loading.On k P)))
      (onAddresses (buildAddressGroup resolverConfig config store side addresses)) := by
  intro s hs
  have hsame := Network.registries_setRegistry_of_ne hk s.1.network
    (exec (Lookup.build (getAddress resolverConfig config store)
      (addressReference config store side) addresses)
      ((s.1.network.registries (.address side), s.1.status.unresolvedAddresses), s.2)).2.1.1
  show P _
  exact hsame ▸ hs

variable {R : Loading → Loading → Prop} [Std.Refl R] [IsTrans Loading R]

theorem keeps_criterion {α : Type} {build : Program (Loading × FqdnResolver) Fault α}
    {isEmpty : α → Network → Bool} {report : LoaderStatus → LoaderStatus}
    (hreport : ∀ report : LoaderStatus → LoaderStatus,
      (∀ status, (report status).counts = status.counts) →
      ∀ s : Loading, R s { s with status := report s.status })
    (hcounts : ∀ status, (report status).counts = status.counts)
    (hbuild : Keeps (Through Prod.fst R) build) :
    Keeps (Through Prod.fst R) (criterion build isEmpty report) :=
  keeps_bind hbuild fun group =>
    keeps_onFst (FirewallFactory.keeps_criterion hreport hcounts (keeps_pure group))

/-- What all builds of a row keep, the criteria keep. -/
theorem keeps_buildCriteria {rule : RuleObject} (h : Keeping config store R rule)
    (haddresses : ∀ side, Keeps (Through Prod.fst R)
      (onAddresses (buildAddressGroup resolverConfig config store side (rule.addresses side)))) :
    Keeps (Through Prod.fst R) (buildCriteria resolverConfig config store rule) := by
  refine keeps_bind (keeps_criterion h.report (fun _ => rfl) (haddresses .src)) fun _ => ?_
  refine keeps_bind (keeps_criterion h.report (fun _ => rfl) (haddresses .dst)) fun _ => ?_
  exact keeps_onFst (h.otherCriteria _ _)

variable (resolverConfig config store) in
/-- **Building the criteria extends the network and leaves the rules alone**, whatever is looked
up and whether it succeeds or raises. -/
theorem builds_buildCriteria (rule : RuleObject) :
    Keeps (Through Prod.fst Loading.Builds) (buildCriteria resolverConfig config store rule) :=
  keeps_buildCriteria (keeping_builds config store rule) fun side => builds_onAddresses side _

end Keeps

/-! ### When a row is added -/

/-- The rules of the firewall do not matter for the criteria. -/
theorem ignores_buildCriteria (rule : RuleObject) (rules : List RuleRef) :
    Ignores (fun s : Loading × FqdnResolver => ({ s.1 with rules := rules }, s.2))
      (buildCriteria resolverConfig config store rule) := by
  have hcriterion : ∀ (side : Side) (addresses : List String)
      (isEmpty : List (Member (Item (.address side))) → Network → Bool)
      (report : LoaderStatus → LoaderStatus),
      Ignores (fun s : Loading × FqdnResolver => ({ s.1 with rules := rules }, s.2))
        (criterion (onAddresses (buildAddressGroup resolverConfig config store side addresses))
          isEmpty report) := by
    intro side addresses isEmpty report
    refine ignores_bind (ignores_zoomFst (fun s : Loading => { s with rules := rules })
      (fun _ => rfl) (fun _ _ => rfl) _) fun group => ?_
    exact ignores_onFst (ignores_criterion isEmpty report (ignores_pure group))
  refine ignores_bind (hcriterion .src _ _ _) fun srcAddresses => ?_
  refine ignores_bind (hcriterion .dst _ _ _) fun dstAddresses => ?_
  exact ignores_onFst (ignores_otherCriteria store rule srcAddresses dstAddresses rules)

section AddRule

variable {resolverConfig config store} {rule : RuleObject} {s : Loading × FqdnResolver}

/-- **When a row is added**: its action and its status are known, its id is new, and its criteria
are built with no empty group. -/
theorem returns_addRule_true {t : Loading × FqdnResolver} :
    Returns (addRule resolverConfig config store rule) s true t ↔
      s.1.getRule rule.id = none ∧ ∃ action status criteria s',
        ruleAction rule.action = some action ∧ ruleStatus rule.status = some status ∧
        Returns (buildCriteria resolverConfig config store rule) s (criteria, true) s' ∧
        (s'.1.addRule ⟨rule.id, rule.name, status, action, .ofCriteria criteria⟩, s'.2) = t := by
  rw [addRule, Returns, exec_get_bind]
  rcases haction : ruleAction rule.action with _ | action
  · refine iff_of_false (fun h => ?_) ?_
    · cases (returns_pure.mp h).1
    · rintro ⟨-, action, -, -, -, h, -⟩
      cases h
  rcases hstatus : ruleStatus rule.status with _ | status
  · refine iff_of_false (fun h => ?_) ?_
    · cases (returns_pure.mp h).1
    · rintro ⟨-, action, status, -, -, -, h, -⟩
      cases h
  -- action and status are known, so the criteria are built
  refine returns_bind.trans ⟨?_, ?_⟩
  · rintro ⟨⟨criteria, filled⟩, s', hrun, h⟩
    dsimp only at h
    split at h
    · next hvalid =>
      obtain ⟨hnew, rfl⟩ := Bool.and_eq_true_iff.mp hvalid
      obtain ⟨_, t', hmodify, h⟩ := returns_bind.mp h
      obtain ⟨-, rfl⟩ := returns_pure.mp h
      obtain ⟨_, hset, rfl⟩ := returns_zoom.mp hmodify
      obtain rfl := returns_modify.mp hset
      exact ⟨Option.isNone_iff_eq_none.mp hnew, action, status, criteria, s', rfl, rfl, hrun, rfl⟩
    · cases (returns_pure.mp h).1
  · rintro ⟨hnew, action', status', criteria, s', haction', hstatus', hrun, rfl⟩
    obtain rfl := Option.some.inj haction'
    obtain rfl := Option.some.inj hstatus'
    refine ⟨(criteria, true), s', hrun, ?_⟩
    simp only [hnew, Option.isNone_none, Bool.and_self, if_true]
    exact returns_bind.mpr ⟨⟨⟩, _, returns_zoom.mpr ⟨_, rfl, rfl⟩, rfl⟩

/-- The network after a row is the one before, or the one its criteria leave. -/
theorem network_addRule :
    (exec (addRule resolverConfig config store rule) s).2.1.network = s.1.network ∨
      (exec (addRule resolverConfig config store rule) s).2.1.network =
        (exec (buildCriteria resolverConfig config store rule) s).2.1.network := by
  rw [addRule, exec_get_bind]
  rcases ruleAction rule.action with _ | action
  · exact Or.inl rfl
  rcases ruleStatus rule.status with _ | status
  · exact Or.inl rfl
  refine Or.inr ?_
  simp only [exec_bind]
  rcases exec (buildCriteria resolverConfig config store rule) s with
    ⟨fault | ⟨criteria, filled⟩, s'⟩
  · rfl
  · dsimp only
    split <;> rfl

/-- A row that is not added extends the network and leaves the rules alone. -/
theorem builds_addRule
    (h : ∀ t, ¬Returns (addRule resolverConfig config store rule) s true t) :
    Loading.Builds s.1 (exec (addRule resolverConfig config store rule) s).2.1 := by
  have hbuilds := builds_buildCriteria resolverConfig config store rule s
  simp only [returns_addRule_true, not_exists, not_and] at h
  rw [addRule, exec_get_bind]
  rcases haction : ruleAction rule.action with _ | action
  · exact refl s.1
  rcases hstatus : ruleStatus rule.status with _ | status
  · exact refl s.1
  simp only [exec_bind]
  rcases hrun : exec (buildCriteria resolverConfig config store rule) s with
    ⟨fault | ⟨criteria, filled⟩, s'⟩
  · rwa [hrun] at hbuilds
  · rw [hrun] at hbuilds
    by_cases hvalid : ((s.1.getRule rule.id).isNone && filled) = true
    · obtain ⟨hnew, rfl⟩ := Bool.and_eq_true_iff.mp hvalid
      exact absurd rfl (h _ (Option.isNone_iff_eq_none.mp hnew) action status criteria s' haction
        hstatus hrun)
    · simp only [if_neg hvalid]
      exact hbuilds

/-- A row extends the network. -/
theorem step_addRule :
    Network.Step s.1.network (exec (addRule resolverConfig config store rule) s).2.1.network := by
  have hbuilds := builds_buildCriteria resolverConfig config store rule s
  rcases @network_addRule resolverConfig config store rule s with hsame | hsame
  · rw [hsame]
    exact refl s.1.network
  · rw [hsame]
    exact hbuilds.network

variable (resolverConfig config store rule s) in
/-- The row is added when the firewall has no rules. -/
def AddedAlone : Prop :=
  ∃ t, Returns (addRule resolverConfig config store rule) ({ s.1 with rules := [] }, s.2) true t

/-- **Of the rules in the firewall only their ids matter**: a row is added when it would be added
without them, and its id is new. -/
theorem exists_returns_addRule_iff :
    (∃ t, Returns (addRule resolverConfig config store rule) s true t) ↔
      AddedAlone resolverConfig config store rule s ∧ s.1.getRule rule.id = none := by
  have hsame := ignores_buildCriteria resolverConfig config store rule [] s
  unfold AddedAlone
  simp only [returns_addRule_true]
  constructor
  · rintro ⟨_, hnew, action, status, criteria, s', haction, hstatus, hrun, -⟩
    rw [hrun] at hsame
    exact ⟨⟨_, rfl, action, status, criteria, _, haction, hstatus, hsame, rfl⟩, hnew⟩
  · rintro ⟨⟨_, -, action, status, criteria, s', haction, hstatus, hrun, -⟩, hnew⟩
    rw [Returns, hsame] at hrun
    obtain ⟨hresult, -⟩ := Prod.mk.inj hrun
    exact ⟨_, hnew, action, status, criteria, _, haction, hstatus, Prod.ext hresult rfl, rfl⟩

end AddRule

/-! ### The factory that asks a function -/

section Follows

variable {resolverConfig config store} {answers : AddressObject → Option AddressObject}
  {names : Set String} {I : FqdnResolver → Prop}
  (h : Lookup.Answers (getAddress resolverConfig config store)
    (store.withAnswers answers).addressResolver names I)

include h

theorem follows_criterion {side : Side} {addresses : List String}
    (haddresses : ∀ name ∈ addresses, isIpAddress config.inet name config.ipModel
      config.strictIpParser = false → name ∈ names)
    (isEmpty : List (Member (Item (.address side))) → Network → Bool)
    (report : LoaderStatus → LoaderStatus) :
    Follows I
      (criterion (onAddresses (buildAddressGroup resolverConfig config store side addresses))
        isEmpty report)
      (FirewallFactory.criterion (FirewallFactory.onAddresses (FirewallFactory.buildAddressGroup
        config (store.withAnswers answers) side addresses)) isEmpty report) := by
  have hbuild := @Lookup.follows_build _ _ _ _ _ _ _ (addressReference config store side)
    (store.withAnswers answers).addressResolver rfl h _ addresses fun name hname hliteral =>
      haddresses name hname (Except.ok.inj hliteral)
  exact follows_bind (follows_zoomFst (follows_zoomFst hbuild)) fun group => follows_onFst _

theorem follows_buildCriteria {rule : RuleObject}
    (hrule : ∀ side, ∀ name ∈ rule.addresses side, isIpAddress config.inet name config.ipModel
      config.strictIpParser = false → name ∈ names) :
    Follows I (buildCriteria resolverConfig config store rule)
      (FirewallFactory.buildCriteria config (store.withAnswers answers) rule) := by
  unfold FirewallFactory.buildCriteria
  refine follows_bind (follows_criterion h (hrule .src) _ _) fun srcAddresses => ?_
  refine follows_bind (follows_criterion h (hrule .dst) _ _) fun dstAddresses => ?_
  exact follows_onFst _

/-- **The factory follows the one that asks a function**, when the lookups of the addresses of the
row are answered as the function would. -/
theorem follows_addRule {rule : RuleObject}
    (hrule : ∀ side, ∀ name ∈ rule.addresses side, isIpAddress config.inet name config.ipModel
      config.strictIpParser = false → name ∈ names) :
    Follows I (addRule resolverConfig config store rule)
      (FirewallFactory.addRule config (store.withAnswers answers) rule) := by
  intro s added s' hs hrun
  rw [addRule, Returns, exec_get_bind] at hrun
  rw [FirewallFactory.addRule, Returns, exec_get_bind]
  revert hrun
  rcases ruleAction rule.action with _ | action
  · exact follows_pure false s added s' hs
  rcases ruleStatus rule.status with _ | status
  · exact follows_pure false s added s' hs
  -- both look for the id among the same rules
  refine follows_bind (follows_buildCriteria h hrule) (fun criteria => ?_) s added s' hs
  show Follows I (if _ then _ else _) (if _ then _ else _)
  split
  · exact follows_bind (follows_onFst _) fun _ => follows_pure true
  · exact follows_pure false

end Follows

end HostFactory

end RulesAnalyzer
