import RulesAnalyzer.History
import RulesAnalyzer.HostFactory

/-!
# Loads and their history

The same row is loaded with the same store into two networks with different histories,
with the hosts that these left in the caches of the resolver.  Both rules hold the same
packets as long as the caches of both networks agree with the store under the names of
the row, and both resolvers answer the hosts of the row in the same way; a definition
that changed since it was cached is not looked at again, and neither is a host.

## Main definitions

* `FirewallFactory.RowAgrees` — the caches agree with the store under the names of a row.
* `FirewallFactory.SameSets` — two rules have the same addresses and the same services.
* `HostFactory.RowAnswered` — a resolver answers the hosts of a row in a given way.
* `HostSession` — a session with the caches of the resolver.

## Main results

* `HostFactory.answers_of_rowAnswered` — **the answers stay the same while the row is loaded.**
* `HostSession.load_independent` — **loads into networks that agree with the store, with hosts
  that are answered in the same way, do not depend on the history.**
-/

namespace RulesAnalyzer

open Effect Shared

namespace FirewallFactory

open Network

variable {config : ModelConfig} {store : ObjectStore}

/-- What the network has cached agrees with the store under the names of the row. -/
structure RowAgrees (config : ModelConfig) (store : ObjectStore) (row : RuleObject)
    (nw : Network) : Prop where
  addresses : ∀ side, (addressScope config store side (nw.registries (.address side))
    {name | name ∈ row.addresses side}).Consistent
  services : row.defaultAppServices = false → (serviceScope config store
    (nw.registries .service) {name | name ∈ row.services}).Consistent
  applications : row.defaultAppServices = true → (applicationScope config store
    row.defaultAppServices (nw.registries _) {name | name ∈ row.applications}).Consistent

/-- The criteria have the same addresses on both sides, and the same services. -/
structure SameSets (nw : Network) (c : CriteriaRef) (nw' : Network) (c' : CriteriaRef) :
    Prop where
  addresses : ∀ side (pk : Packet), pk ∈ (nw.addressGroup side (c.addresses side)).makeBdd ↔
    pk ∈ (nw'.addressGroup side (c'.addresses side)).makeBdd
  services : ∀ pk : Packet,
    pk ∈ (c.services.value nw).makeBdd ↔ pk ∈ (c'.services.value nw').makeBdd

/-- What the services of a row mean. -/
def RowServices (config : ModelConfig) (store : ObjectStore) (row : RuleObject)
    (pk : Packet) : Prop :=
  if row.defaultAppServices then
    ∃ name ∈ row.applications, pk ∈ applicationMeans config store row.defaultAppServices name
  else ∃ name ∈ row.services, pk ∈ serviceMeans config store name

/-- The packets of criteria are those the row means, in a network that agrees with the store. -/
theorem mem_criteria {row : RuleObject} {s s' : Loading} {criteria : CriteriaRef × Bool}
    (hs : s.network.Sound) (happsvc : AppsvcSound config s.network)
    (hagrees : RowAgrees config store row s.network)
    (h : Returns (buildCriteria config store row) s criteria s') (pk : Packet) :
    (∀ side, pk ∈ (s'.network.addressGroup side (criteria.1.addresses side)).makeBdd ↔
      ∃ name ∈ row.addresses side, pk ∈ addressMeans config store side name) ∧
    (pk ∈ (criteria.1.services.value s'.network).makeBdd ↔ RowServices config store row pk) := by
  have hs' : s'.network.Sound :=
    (((keeping_builds config store row).buildCriteria.returns h).network hs).1
  refine ⟨fun side => ?_, ?_⟩
  · exact mem_addressGroup hs' (means_addresses hs h (hagrees.addresses side)
      (Scope.inv_start (hs _)) fun _ hname => hname)
  · unfold RowServices
    split
    · next hrule =>
      -- the services come from the applications of the row
      obtain ⟨nw, applications, hnw, hservices, hmeans⟩ := means_applications hs happsvc h hrule
        (hagrees.applications hrule) (Scope.inv_start (hs _)) fun _ hname => hname
      rw [hservices]
      exact mem_defaultServices hnw hmeans
    · next hrule =>
      have hdefault := Bool.eq_false_iff.mpr hrule
      obtain ⟨members, hservices, hmeans⟩ := means_services hs h hdefault
        (hagrees.services hdefault) (Scope.inv_start (hs _)) fun _ hname => hname
      rw [hservices]
      exact mem_serviceGroup hs' hmeans

/-- **Rules of the same row hold the same packets**, in networks that agree with the store. -/
theorem sameSets_of_agrees {row : RuleObject} {s₁ s₁' s₂ s₂' : Loading}
    (hs₁ : s₁.network.Sound) (hs₂ : s₂.network.Sound)
    (happsvc₁ : AppsvcSound config s₁.network) (happsvc₂ : AppsvcSound config s₂.network)
    (hagrees₁ : RowAgrees config store row s₁.network)
    (hagrees₂ : RowAgrees config store row s₂.network) {c₁ c₂ : CriteriaRef × Bool}
    (h₁ : Returns (buildCriteria config store row) s₁ c₁ s₁')
    (h₂ : Returns (buildCriteria config store row) s₂ c₂ s₂') :
    SameSets s₁'.network c₁.1 s₂'.network c₂.1 := by
  refine ⟨fun side pk => ?_, fun pk => ?_⟩
  · rw [(mem_criteria hs₁ happsvc₁ hagrees₁ h₁ pk).1 side,
      (mem_criteria hs₂ happsvc₂ hagrees₂ h₂ pk).1 side]
  · rw [(mem_criteria hs₁ happsvc₁ hagrees₁ h₁ pk).2, (mem_criteria hs₂ happsvc₂ hagrees₂ h₂ pk).2]

end FirewallFactory

/-! ### The hosts of a row -/

namespace HostFactory

open FirewallFactory Network

variable {resolverConfig : ResolverConfig} {config : ModelConfig} {store : ObjectStore}

/-- The names that are looked up for the addresses of a row. -/
def lookedUp (config : ModelConfig) (store : ObjectStore) (row : RuleObject) : Set String :=
  {name | ∃ side, ∃ root ∈ row.addresses side, isIpAddress config.inet root config.ipModel
    config.strictIpParser = false ∧ store.addressResolver.Reaches root name}

/-- The resolver would answer the hosts of the row as given, whichever of its names comes first:
hosts that are not cached have one name in the row. -/
structure RowAnswered (resolverConfig : ResolverConfig) (config : ModelConfig)
    (store : ObjectStore) (answers : AddressObject → Option AddressObject) (row : RuleObject)
    (s : FqdnResolver) : Prop where
  next : ∀ name ∈ lookedUp config (store.withAnswers answers) row, ∀ fqdn,
    ObjectDictionary.get store.addresses name = some fqdn → fqdn.type = .fqdn →
    s.next resolverConfig config fqdn = answers fqdn
  settled : ∀ name ∈ lookedUp config (store.withAnswers answers) row,
    ∀ name' ∈ lookedUp config (store.withAnswers answers) row, ∀ hostname,
    AddressObjects.hostOf store.addresses name = some hostname →
    AddressObjects.hostOf store.addresses name' = some hostname →
    s.filteredMemoryCache hostname = none →
    s.hostAddresses resolverConfig config hostname ≠ [] → name = name'

section RowAnswered

variable {answers : AddressObject → Option AddressObject} {row : RuleObject} {s s' : FqdnResolver}

/-- A lookup for the row leaves the answers for the row as they are. -/
theorem RowAnswered.leaves (h : RowAnswered resolverConfig config store answers row s)
    {name : String} (hname : name ∈ lookedUp config (store.withAnswers answers) row)
    (hleaves : AddressObjects.Leaves resolverConfig config store.addresses name s s') :
    RowAnswered resolverConfig config store answers row s' where
  next name' hname' fqdn' hfqdn' htype := by
    rw [← h.next name' hname' fqdn' hfqdn' htype]
    rcases hleaves.next fqdn' with
      hsame | ⟨fqdn, hostname, henable, hfqdn, hhost, hhost', hnew, hnext⟩
    · exact hsame
    · rw [hnext]
      by_cases hempty : s.hostAddresses resolverConfig config hostname = []
      · rw [FqdnResolver.next_of_new henable hhost hnew,
          FqdnResolver.next_of_new henable hhost' hnew, hempty]
        rfl
      · -- the host was asked for under its only name
        obtain rfl := h.settled name hname name' hname' hostname
          (AddressObjects.hostOf_of_hostname hfqdn hhost)
          (AddressObjects.hostOf_of_hostname hfqdn' hhost') hnew hempty
        rw [Option.some.inj (hfqdn.symm.trans hfqdn')]
  settled name₁ hname₁ name₂ hname₂ hostname hhost₁ hhost₂ hnew hsome := by
    cases hleaves with
    | same => exact h.settled name₁ hname₁ name₂ hname₂ hostname hhost₁ hhost₂ hnew hsome
    | @cached _ hostname' _ _ _ _ _ hknown hfiltered =>
      -- what was answered before is in the cache, so it is not asked again
      have hne : hostname ≠ hostname' := by
        rintro rfl
        rw [hfiltered, Function.update_self] at hnew
        cases hnew
      rw [hfiltered, Function.update_of_ne hne] at hnew
      rw [FqdnResolver.hostAddresses, hknown] at hsome
      exact h.settled name₁ hname₁ name₂ hname₂ hostname hhost₁ hhost₂ hnew hsome

/-- **While the row is loaded its hosts are answered as given.** -/
theorem answers_of_rowAnswered :
    Lookup.Answers (getAddress resolverConfig config store)
      (store.withAnswers answers).addressResolver
      (lookedUp config (store.withAnswers answers) row)
      (RowAnswered resolverConfig config store answers row) where
  answer name hname s found s' hs hrun := by
    obtain ⟨object, hget, rfl⟩ := returns_map.mp hrun
    obtain ⟨rfl, hleaves⟩ := AddressObjects.returns_get hget
    refine ⟨hs.leaves hname hleaves, congrArg (Option.map AddressObject.valued) ?_⟩
    unfold ObjectStore.getAddress ObjectStore.withAnswers
    rcases hfqdn : ObjectDictionary.get store.addresses name with _ | fqdn
    · rfl
    · by_cases htype : fqdn.type = .fqdn
      · simp only [if_pos htype]
        exact hs.next name hname fqdn hfqdn htype
      · simp only [if_neg htype]
  closed name hname pool hobject hpool member hmember := by
    obtain ⟨side, root, hroot, hliteral, hreaches⟩ := hname
    exact ⟨side, root, hroot, hliteral, hreaches.member_right hobject hpool hmember⟩

/-- A row that is added with the resolver is added with the answers. -/
theorem returns_of_rowAnswered {t t' : Loading × FqdnResolver} {added : Bool}
    (h : RowAnswered resolverConfig config store answers row t.2)
    (hrun : Returns (addRule resolverConfig config store row) t added t') :
    Returns (FirewallFactory.addRule config (store.withAnswers answers) row) t.1 added t'.1 :=
  (follows_addRule (@answers_of_rowAnswered resolverConfig config store answers row)
    (fun side name hname hliteral => ⟨side, name, hname, hliteral, .self name⟩) t added t' h hrun).2

end RowAnswered

/-- What holds of the services of applications holds after a row. -/
theorem appsvcSound_addRule {rule : RuleObject} {t : Loading × FqdnResolver}
    (h : AppsvcSound config t.1.network) :
    AppsvcSound config (exec (addRule resolverConfig config store rule) t).2.1.network := by
  have hkeeping : Keeping config store (Preserves (Loading.On .appsvc (AppsvcTexts config))) rule :=
    keeping_preserves (k := .appsvc) nofun nofun (fun _ => preserves_onNames _
      (preserves_buildApplicationGroup rule)) nofun ⟨nofun, nofun, nofun⟩
  have hbuild : Keeps (Through Prod.fst (Preserves (Loading.On .appsvc (AppsvcTexts config))))
      (buildCriteria resolverConfig config store rule) := by
    refine keeps_buildCriteria hkeeping fun side => ?_
    have hk : Kind.appsvc ≠ .address side := nofun
    exact preserves_onAddresses hk (rule.addresses side)
  rcases @network_addRule resolverConfig config store rule t with hsame | hsame
  · rwa [hsame]
  · rw [hsame]
    exact hbuild t h

end HostFactory

/-! ### Histories -/

/-- A session with the resolver of the store: the caches, and the library that looks up hosts. -/
structure HostSession where
  session : Session
  resolverConfig : ResolverConfig
  resolver : FqdnResolver

/-- What changes a session with the resolver.  The resolver may be set up anew, with other hosts
in its cache file or other answers of the network. -/
inductive HostAction
  | session (action : Action)
  | setResolver (resolverConfig : ResolverConfig) (resolver : FqdnResolver)

namespace HostSession

open FirewallFactory Network

variable {config : ModelConfig}

/-- A session without firewalls. -/
def fresh (config : ModelConfig) (store : ObjectStore) (resolverConfig : ResolverConfig)
    (resolver : FqdnResolver) : HostSession := ⟨.fresh config store, resolverConfig, resolver⟩

/-- The state of the loader for a firewall. -/
def loading (s : HostSession) (name : String) (status : LoaderStatus) : Loading × FqdnResolver :=
  (s.session.loading name status, s.resolver)

/-- The session after a step of the loader of a firewall. -/
def update (s : HostSession) (name : String) (state : Loading × FqdnResolver) : HostSession :=
  { s with session := s.session.update name state.1, resolver := state.2 }

/-- The session after an action.  A row looks up its hosts in the caches. -/
def step (config : ModelConfig) (s : HostSession) : HostAction → HostSession
  | .session (.addRule name rule status) => s.update name
      (exec (HostFactory.addRule s.resolverConfig config s.session.store rule)
        (s.loading name status)).2
  | .session action => { s with session := s.session.step config action }
  | .setResolver resolverConfig resolver => ⟨s.session, resolverConfig, resolver⟩

/-- The session after a list of actions. -/
def run (config : ModelConfig) (s : HostSession) (actions : List HostAction) : HostSession :=
  actions.foldl (step config) s

/-- The session is reached from some store and some resolver. -/
def Reached (config : ModelConfig) (s : HostSession) : Prop :=
  ∃ store resolverConfig resolver actions,
    s = (fresh config store resolverConfig resolver).run config actions

/-- The network is sound, and the services of applications have the packets of their texts. -/
structure Sound (config : ModelConfig) (s : HostSession) : Prop where
  network : s.session.network.Sound
  appsvc : AppsvcSound config s.session.network

theorem sound_step {s : HostSession} (hs : s.Sound config) (action : HostAction) :
    (s.step config action).Sound config := by
  cases action with
  | setResolver resolverConfig resolver => exact ⟨hs.network, hs.appsvc⟩
  | session action =>
    cases action with
    | setStore store => exact ⟨hs.network, hs.appsvc⟩
    | clear name => exact ⟨hs.network, hs.appsvc⟩
    | addDenyAllRule name => exact ⟨hs.network, hs.appsvc⟩
    | addRule name rule status =>
      have hstep := @HostFactory.step_addRule s.resolverConfig config s.session.store rule
        (s.loading name status)
      exact ⟨(hstep hs.network).1, HostFactory.appsvcSound_addRule hs.appsvc⟩

theorem sound_run {s : HostSession} (hs : s.Sound config) (actions : List HostAction) :
    (s.run config actions).Sound config := by
  induction actions generalizing s with
  | nil => exact hs
  | cons action actions ih => exact ih (sound_step hs action)

theorem Reached.sound {s : HostSession} (h : s.Reached config) : s.Sound config := by
  obtain ⟨store, resolverConfig, resolver, actions, rfl⟩ := h
  exact sound_run ⟨sound_fresh config, appsvcTexts_fresh config⟩ actions

/-- **Loads do not depend on the history** in networks that agree with the store, as long as both
resolvers answer the hosts of the row in the same way: rules of the same row have the same
addresses and the same services, whatever was loaded before. -/
theorem load_independent (config : ModelConfig) (s₁ s₂ : HostSession)
    (hreached₁ : s₁.Reached config) (hreached₂ : s₂.Reached config)
    (hstore : s₁.session.store = s₂.session.store) (row : RuleObject)
    (answers : AddressObject → Option AddressObject)
    (hanswered₁ : HostFactory.RowAnswered s₁.resolverConfig config s₁.session.store answers row
      s₁.resolver)
    (hanswered₂ : HostFactory.RowAnswered s₂.resolverConfig config s₂.session.store answers row
      s₂.resolver)
    (hagrees₁ : RowAgrees config (s₁.session.store.withAnswers answers) row s₁.session.network)
    (hagrees₂ : RowAgrees config (s₂.session.store.withAnswers answers) row s₂.session.network)
    (name₁ name₂ : String) (status₁ status₂ : LoaderStatus) (t₁ t₂ : Loading × FqdnResolver)
    (h₁ : Returns (HostFactory.addRule s₁.resolverConfig config s₁.session.store row)
      (s₁.loading name₁ status₁) true t₁)
    (h₂ : Returns (HostFactory.addRule s₂.resolverConfig config s₂.session.store row)
      (s₂.loading name₂ status₂) true t₂) :
    ∃ c₁ c₂, Adds (s₁.loading name₁ status₁).1 t₁.1 c₁ ∧ Adds (s₂.loading name₂ status₂).1 t₂.1 c₂ ∧
      SameSets t₁.1.network c₁ t₂.1.network c₂ := by
  -- both loads are loads that ask the answers
  obtain ⟨-, c₁, u₁, hrun₁, hsame₁, hadds₁⟩ :=
    adds_of_returns (HostFactory.returns_of_rowAnswered hanswered₁ h₁)
  obtain ⟨-, c₂, u₂, hrun₂, hsame₂, hadds₂⟩ :=
    adds_of_returns (HostFactory.returns_of_rowAnswered hanswered₂ h₂)
  refine ⟨c₁, c₂, hadds₁, hadds₂, ?_⟩
  rw [hsame₁, hsame₂]
  rw [← hstore] at hagrees₂ hrun₂
  have hs₁ := hreached₁.sound
  have hs₂ := hreached₂.sound
  have hsets := sameSets_of_agrees hs₁.network hs₂.network hs₁.appsvc hs₂.appsvc hagrees₁ hagrees₂
    hrun₁ hrun₂
  exact hsets

/-- A store with a host, and a pool of services. -/
def mailStore : ObjectStore :=
  { Session.siteStore with
    addresses := Session.siteStore.addresses ++ [⟨"mail", .fqdn, ["host.example"]⟩] }

/-- A resolver that finds an address for every host, with empty caches. -/
def mailConfig : ResolverConfig := ⟨⟨true, true, "rulan.fqdn"⟩, fun _ => .found ["192.0.2.1"]⟩

/-- The answers for the hosts of `mailStore`. -/
def mailAnswers (fqdn : AddressObject) : Option AddressObject :=
  ipmaskAddressObject fqdn.name ["192.0.2.1"]

/-- A row from the host to the services. -/
def mailRow (id : ℤ) (services : List String) : RuleObject :=
  { RuleObject.ofServices id services with sourceAddresses := ["mail"] }

/-- A session that has loaded a row of the host. -/
def afterMail : HostSession :=
  (fresh .dotted mailStore mailConfig (.loaded true (fun _ => none) none)).run .dotted
    [.session (.addRule "fw" (mailRow 1 ["tcp/80"]) {})]

/-- A session where the store was loaded last. -/
def storeLoaded : HostSession :=
  (fresh .dotted (.builtin .ip4Model) mailConfig (.loaded true (fun _ => none) none)).run .dotted
    [.session (.setStore mailStore)]

theorem rowAnswered_mail {resolverConfig : ResolverConfig} {s : FqdnResolver}
    (hnext : s.next resolverConfig .dotted ⟨"mail", .fqdn, ["host.example"]⟩ =
      mailAnswers ⟨"mail", .fqdn, ["host.example"]⟩) :
    HostFactory.RowAnswered resolverConfig .dotted mailStore mailAnswers (mailRow 2 ["any", "site"])
      s := by
  have hobjects : ∀ name ∈ ["mail", "any"],
      (mailStore.withAnswers mailAnswers).addressResolver.objects name ≠ none := by decide +kernel
  have hlooked : ∀ name ∈ HostFactory.lookedUp .dotted (mailStore.withAnswers mailAnswers)
      (mailRow 2 ["any", "site"]), name ∈ ["mail", "any"] := by
    rintro name ⟨side, root, hroot, -, hreaches⟩
    have hmem : root ∈ ["mail", "any"] := by
      cases side with
      | src => exact List.mem_cons.mpr (Or.inl (List.mem_singleton.mp hroot))
      | dst => exact List.mem_cons_of_mem _ hroot
    obtain rfl := hreaches.eq_of_object (hobjects root hmem)
    exact hmem
  have hfqdns : ∀ name ∈ ["mail", "any"], ∀ fqdn ∈ ObjectDictionary.get mailStore.addresses name,
      fqdn.type = .fqdn → fqdn = ⟨"mail", .fqdn, ["host.example"]⟩ := by decide +kernel
  have hhosts : ∀ name ∈ ["mail", "any"],
      AddressObjects.hostOf mailStore.addresses name ≠ none → name = "mail" := by decide +kernel
  refine ⟨fun name hname fqdn hfqdn htype => ?_,
    fun name hname name' hname' hostname h h' _ _ => ?_⟩
  · obtain rfl := hfqdns name (hlooked name hname) fqdn hfqdn htype
    exact hnext
  · rw [hhosts name (hlooked name hname) (h ▸ Option.some_ne_none _),
      hhosts name' (hlooked name' hname') (h' ▸ Option.some_ne_none _)]

theorem rowAgrees_mail {nw : Network}
    (hmail : (nw.registries (.address .src)).items "mail" = none ∨
      (nw.registries (.address .src)).items "mail" =
        (createAddress .dotted .src "mail" "192.0.2.1").toOption)
    (hgroup : (nw.registries (.address .src)).groups "mail" = none)
    (hany : (nw.registries (.address .dst)).items "any" =
      (freshRegistry .dotted (.address .dst)).items "any")
    (hanyGroup : (nw.registries (.address .dst)).groups "any" = none)
    (hservice : (nw.registries .service).items "any" = (freshRegistry .dotted .service).items "any")
    (hnew : ∀ k ∈ ["site", "web", "https", "https[0]", "https[1]"],
      (nw.registries .service).items k = none)
    (hgroups : ∀ k ∈ ["any", "site", "web", "https"], (nw.registries .service).groups k = none) :
    RowAgrees .dotted (mailStore.withAnswers mailAnswers) (mailRow 2 ["any", "site"]) nw where
  addresses side := by
    cases side with
    | src =>
      refine (namesFit_address .src "mail" "192.0.2.1" (by decide +kernel) (by decide +kernel)
        (by decide +kernel) (fun t ht => ?_) hgroup fun name hname =>
          List.mem_singleton.mp hname).consistent
      -- when the host is cached, it is cached with the answer
      rcases hmail with hnone | hmail
      · exact nomatch hnone.symm.trans ht
      · rw [hmail] at ht
        rcases hcreate : createAddress .dotted .src "mail" "192.0.2.1" with fault | address
        · rw [hcreate] at ht
          cases ht
        · rw [hcreate] at ht
          obtain rfl := Option.some.inj ht
          exact addressPackets_create hcreate
    | dst =>
      exact (namesFit_any .dst (by decide +kernel) (by decide +kernel) hany hanyGroup
        fun name hname => List.mem_singleton.mp hname).consistent
  services _ := by
    have hnames : ∀ name ∈ ["any", "site"], name ∈ ["any", "site", "tcp/80"] ∧ name ≠ "tcp/80" := by
      decide
    exact (Session.namesFit_site hservice hnew (fun h => absurd rfl (hnames _ h).2) hgroups
      fun name hname => (hnames name hname).1).consistent
  applications h := absurd h (by decide +kernel)

theorem store_addRule (s : HostSession) (name : String) (rule : RuleObject)
    (status : LoaderStatus) : (s.step config (.session (.addRule name rule status))).session.store =
      s.session.store := rfl

theorem store_afterMail : afterMail.session.store = mailStore := store_addRule _ _ _ _

theorem store_storeLoaded : storeLoaded.session.store = mailStore := rfl

theorem answered_afterMail : HostFactory.RowAnswered mailConfig .dotted mailStore mailAnswers
    (mailRow 2 ["any", "site"]) afterMail.resolver := rowAnswered_mail (by decide +kernel)

theorem answered_storeLoaded : HostFactory.RowAnswered mailConfig .dotted mailStore mailAnswers
    (mailRow 2 ["any", "site"]) storeLoaded.resolver := rowAnswered_mail (by decide +kernel)

theorem agrees_afterMail : RowAgrees .dotted (mailStore.withAnswers mailAnswers)
    (mailRow 2 ["any", "site"]) afterMail.session.network :=
  rowAgrees_mail (Or.inr (by decide +kernel)) (by decide +kernel) (by decide +kernel)
    (by decide +kernel) (by decide +kernel) (by decide +kernel) (by decide +kernel)

theorem agrees_storeLoaded : RowAgrees .dotted (mailStore.withAnswers mailAnswers)
    (mailRow 2 ["any", "site"]) storeLoaded.session.network :=
  rowAgrees_mail (Or.inl (by decide +kernel)) (by decide +kernel) (by decide +kernel)
    (by decide +kernel) (by decide +kernel) (by decide +kernel) (by decide +kernel)

theorem load_independent_witness :
    ∃ t₁ t₂,
      Returns (HostFactory.addRule mailConfig .dotted mailStore (mailRow 2 ["any", "site"]))
        (afterMail.loading "fw" {}) true t₁ ∧
      Returns (HostFactory.addRule mailConfig .dotted mailStore (mailRow 2 ["any", "site"]))
        (storeLoaded.loading "fw" {}) true t₂ ∧
      ∃ c₁ c₂, Adds (afterMail.loading "fw" {}).1 t₁.1 c₁ ∧
        Adds (storeLoaded.loading "fw" {}).1 t₂.1 c₂ ∧
        SameSets t₁.1.network c₁ t₂.1.network c₂ := by
  have htrue₁ : (exec (HostFactory.addRule mailConfig .dotted mailStore
      (mailRow 2 ["any", "site"])) (afterMail.loading "fw" {})).1.toOption = some true := by
    decide +kernel
  have htrue₂ : (exec (HostFactory.addRule mailConfig .dotted mailStore
      (mailRow 2 ["any", "site"])) (storeLoaded.loading "fw" {})).1.toOption = some true := by
    decide +kernel
  have hrun₁ := returns_of_toOption htrue₁
  have hrun₂ := returns_of_toOption htrue₂
  refine ⟨_, _, hrun₁, hrun₂, ?_⟩
  exact load_independent .dotted afterMail storeLoaded ⟨_, _, _, _, rfl⟩ ⟨_, _, _, _, rfl⟩
    (store_afterMail.trans store_storeLoaded.symm) (mailRow 2 ["any", "site"]) mailAnswers
    (by rw [store_afterMail]; exact answered_afterMail)
    (by rw [store_storeLoaded]; exact answered_storeLoaded)
    (by rw [store_afterMail]; exact agrees_afterMail)
    (by rw [store_storeLoaded]; exact agrees_storeLoaded) "fw" "fw" {} {} _ _
    (by rw [store_afterMail]; exact hrun₁) (by rw [store_storeLoaded]; exact hrun₂)

/-- The packets of the group of one service. -/
theorem mem_serviceGroup_item {nw : Network} {service : Service} {pk : Packet} :
    pk ∈ (nw.serviceGroup [.item service]).makeBdd ↔ service.Matches pk := by
  have hitems : ∀ s, s ∈ (nw.serviceGroup [.item service]).items ↔ s = service := fun s =>
    Group.mem_items.trans List.mem_singleton
  rw [mem_makeBdd_serviceGroup]
  simp only [hitems, exists_eq_left]

/-- A store with a service `web`. -/
def dnsStore : ObjectStore := .ofServices .ip4Model [⟨"web", ["udp/53"]⟩]

/-- A store that defines the service as another port. -/
def webStore : ObjectStore := .ofServices .ip4Model [⟨"web", ["tcp/80"]⟩]

/-- A session that has loaded a row of the service before it was defined anew. -/
def afterWeb : HostSession :=
  (fresh .dotted dnsStore mailConfig (.loaded true (fun _ => none) none)).run .dotted
    [.session (.addRule "fw" (.ofServices 1 ["web"]) {}), .session (.setStore webStore)]

/-- A session that has only loaded the second definition. -/
def onlyWeb : HostSession :=
  (fresh .dotted dnsStore mailConfig (.loaded true (fun _ => none) none)).run .dotted
    [.session (.setStore webStore)]

theorem store_afterWeb : afterWeb.session.store = webStore := rfl

theorem store_onlyWeb : onlyWeb.session.store = webStore := rfl

/-- The service `web` keeps the definition it had when a network cached it. -/
theorem load_stale : afterWeb.session.store = webStore ∧ onlyWeb.session.store = webStore ∧
    ¬∀ t₁ t₂,
      Returns (HostFactory.addRule mailConfig .dotted webStore (.ofServices 2 ["web"]))
        (afterWeb.loading "fw" {}) true t₁ →
      Returns (HostFactory.addRule mailConfig .dotted webStore (.ofServices 2 ["web"]))
        (onlyWeb.loading "fw" {}) true t₂ →
      ∃ c₁ c₂, Adds (afterWeb.loading "fw" {}).1 t₁.1 c₁ ∧
        Adds (onlyWeb.loading "fw" {}).1 t₂.1 c₂ ∧
        SameSets t₁.1.network c₁ t₂.1.network c₂ := by
  refine ⟨store_afterWeb, store_onlyWeb, fun h => ?_⟩
  have htrue₁ : (exec (HostFactory.addRule mailConfig .dotted webStore (.ofServices 2 ["web"]))
      (afterWeb.loading "fw" {})).1.toOption = some true := by decide +kernel
  have hlast₁ : (exec (HostFactory.addRule mailConfig .dotted webStore (.ofServices 2 ["web"]))
      (afterWeb.loading "fw" {})).2.1.lastServices =
      some [.item (Service.udp "web" (Range.singleton 53 (by decide)))] := by decide +kernel
  have htrue₂ : (exec (HostFactory.addRule mailConfig .dotted webStore (.ofServices 2 ["web"]))
      (onlyWeb.loading "fw" {})).1.toOption = some true := by decide +kernel
  have hlast₂ : (exec (HostFactory.addRule mailConfig .dotted webStore (.ofServices 2 ["web"]))
      (onlyWeb.loading "fw" {})).2.1.lastServices =
      some [.item (Service.tcp "web" (Range.singleton 80 (by decide)))] := by decide +kernel
  obtain ⟨c₁, c₂, hadds₁, hadds₂, hsets⟩ :=
    h _ _ (returns_of_toOption htrue₁) (returns_of_toOption htrue₂)
  -- the first load still uses the service of the old store
  have hdns := hsets.services (Packet.ofValues fun dt => if dt = .dstUdpPort then 53 else 0)
  rw [hadds₁.services hlast₁, hadds₂.services hlast₂] at hdns
  have htcp := mem_serviceGroup_item.mp (hdns.mp (mem_serviceGroup_item.mpr
    ⟨by decide +kernel, Range.mem_singleton.mpr (by decide +kernel)⟩))
  exact absurd htcp.1 (by decide +kernel)

end HostSession

end RulesAnalyzer
