import RulesAnalyzer.Criteria

/-!
# References and the definitions of the store

The caches of a network outlive the rows that filled them.  As long as the store stays
and the names of all rows can be loaded together, each name of each row means what the
store defines; two names that meet in a cache with different contents do not.

## Main definitions

* `FirewallFactory.addressContents`, `FirewallFactory.serviceContents` — what a name denotes.
* `FirewallFactory.RowDenotes` — the names of a row mean what they denote.
* `FirewallFactory.RowsFit` — the names of rows can be loaded together.

## Main results

* `Session.on_run` — what all rows preserve holds after a run.
* `Session.references_denote` — **references denote the definitions of the store.**
-/

namespace RulesAnalyzer

open Effect Shared

/-! ### Rows of one store -/

/-- The registered services of the last rule. -/
def Loading.lastServices (s : Loading) : Option (List (Member (Item .service))) :=
  match s.rules.getLast? with
  | some ⟨_, _, _, _, .ofCriteria ⟨_, _, _, _, _, _, .registered members, _, _, _, _⟩⟩ =>
    some members
  | _ => none

namespace FirewallFactory

open Network

variable {α : Type} {config : ModelConfig} {store : ObjectStore} {k : Kind}

/-- What a name of an address, or of a service, denotes in the store. -/
def addressContents (config : ModelConfig) (store : ObjectStore) (side : Side) (name : String) :
    Set Packet := (valuedReading (addressSet config side)).contents store.addressResolver name

/-- The packets of a name of a service object or pool, by the store alone. -/
def serviceContents (config : ModelConfig) (store : ObjectStore) (name : String) : Set Packet :=
  (valuedReading (serviceSet config)).contents store.serviceResolver name

/-- Each name of a row that the store defines has a member in the criteria that means exactly what
the name denotes. -/
structure RowDenotes (config : ModelConfig) (store : ObjectStore) (row : RuleObject) (nw : Network)
    (c : CriteriaRef) : Prop where
  addresses : ∀ side, ∀ name ∈ row.addresses side, store.addressResolver.Found name →
    ∃ member ∈ c.addresses side, (nw.registries (.address side)).meaning (addressPackets side)
      member = addressContents config store side name
  services : row.defaultAppServices = false → ∃ members, c.services = .registered members ∧
    ∀ name ∈ row.services, store.serviceResolver.Found name →
    ∃ member ∈ members, (nw.registries .service).meaning servicePackets member =
      serviceContents config store name

/-- The names can be loaded together: they do not meet in the caches with different contents, all
values can be read, and literals that the store defines are defined as themselves. -/
structure NamesFit {σ T : Type} (create : String → String → Except Fault T)
    (scope : Scope σ T ValuedObject Packet) : Prop where
  consistent : scope.Consistent
  decodes : scope.Decodes create
  literals : ∀ name ∈ scope.names, scope.reference.isLiteral name = .ok true →
    scope.reference.resolver.Found name →
    scope.reading.literal name = scope.reading.contents scope.reference.resolver name

/-- A name that the store defines means what it denotes. -/
theorem NamesFit.means_eq {σ T : Type} {create : String → String → Except Fault T}
    {scope : Scope σ T ValuedObject Packet} (h : NamesFit create scope) {name : String}
    (hname : name ∈ scope.names) (hfound : scope.reference.resolver.Found name) :
    scope.reading.means scope.reference name =
      scope.reading.contents scope.reference.resolver name := by
  unfold Reading.means
  split
  · next hliteral => exact h.literals name hname hliteral hfound
  · rfl

/-- The names of a list can be loaded together. -/
theorem namesFit_of_listed {T : Type} [DecidableEq T] {create : String → String → Except Fault T}
    {isLiteral : String → Except Fault Bool} {resolver : GenericResolver ValuedObject}
    {den : T → Set Packet} {contains : String → Set Packet} {start : Registry String T}
    {names : Set String} {list : List String} (h : Listed isLiteral resolver names list)
    (hconsistent :
      (valuedScope create isLiteral resolver den contains start names).Consistent)
    (hreads : ∀ name ∈ list, ∀ object, resolver.objects name = some object →
      object.values.length > 1 → ∀ value ∈ object.values.zipIdx,
        ∃ t, create (indexedName object.name value.2) value.1 = .ok t)
    (hliterals : ∀ name ∈ names, isLiteral name = .ok true → ¬resolver.Found name) :
    NamesFit create (valuedScope create isLiteral resolver den contains start names) where
  consistent := hconsistent
  decodes := h.decodes hreads
  literals name hname hliteral hfound := absurd hfound (hliterals name hname hliteral)

/-- The name of an address with one value can be loaded.  It is the only name that is looked up,
and it fits what is cached under it. -/
theorem namesFit_address (side : Side) (name value : String)
    {start : Registry String (Item (.address side))} {names : Set String}
    (hobject : store.addressResolver.objects name = some ⟨name, [value]⟩)
    (hpool : store.addressResolver.pool name = none)
    (hliteral : isIpAddress InetPton.dotted name .ip4Model true = false)
    (hitem : ∀ t, start.items name = some t →
      addressPackets side t = addressSet .dotted side value)
    (hgroup : start.groups name = none) (hnames : ∀ n ∈ names, n = name) :
    NamesFit (createAddress .dotted side) (addressScope .dotted store side start names) := by
  have helements : [name].flatMap (elementNames store.addressResolver) = [] := by
    rw [List.flatMap_singleton, elementNames, hobject]
    rfl
  -- the name is no literal, so that the store is asked
  have hnot : ∀ n ∈ names,
      (Except.ok (isIpAddress InetPton.dotted n .ip4Model true) : Except Fault Bool) ≠
        .ok true := by
    intro n hn htrue
    obtain rfl := hnames n hn
    cases (congrArg Except.ok hliteral).symm.trans htrue
  -- the only name that is looked up is the name itself
  have hlisted : Listed (fun n => .ok (isIpAddress .dotted n .ip4Model true))
      store.addressResolver names [name] := {
    roots := fun n hn _ => List.mem_singleton.mpr (hnames n hn)
    members := fun n hn pool hsome => by
      obtain rfl := List.mem_singleton.mp hn
      cases hpool.symm.trans hsome
    found := fun n hn => by
      obtain rfl := List.mem_singleton.mp hn
      exact Or.inl (hobject ▸ Option.some_ne_none _)
    own := fun n hn object hsome => by
      obtain rfl := List.mem_singleton.mp hn
      obtain rfl := Option.some.inj (hobject.symm.trans hsome)
      rfl
    apart := by
      rw [helements]
      exact List.nodup_singleton _
    literals := fun n hn htrue => absurd htrue (hnot n hn) }
  refine namesFit_of_listed hlisted (hlisted.consistent (fun k hk t ht => ?_) (fun k hk => ?_)
    (fun k hk htrue => absurd htrue (hnot k hk)) fun k hk => ?_)
    (fun n hn object hsome hlength => ?_) fun n hn htrue => absurd htrue (hnot _ hn)
  · obtain rfl := List.mem_singleton.mp hk
    exact ⟨value, hobject, hitem t ht⟩
  · rw [helements] at hk
    exact absurd hk List.not_mem_nil
  · obtain rfl := List.mem_singleton.mp hk
    exact hgroup
  · obtain rfl := List.mem_singleton.mp hn
    obtain rfl := Option.some.inj (hobject.symm.trans hsome)
    exact absurd hlength (Nat.lt_irrefl 1)

/-- The name of all addresses can be loaded. -/
theorem namesFit_any (side : Side) {start : Registry String (Item (.address side))}
    {names : Set String} (hobject : store.addressResolver.objects "any" = some ⟨"any", ["any"]⟩)
    (hpool : store.addressResolver.pool "any" = none)
    (hstart : start.items "any" = (freshRegistry .dotted (.address side)).items "any")
    (hgroup : start.groups "any" = none) (hnames : ∀ name ∈ names, name = "any") :
    NamesFit (createAddress .dotted side) (addressScope .dotted store side start names) := by
  refine namesFit_address side "any" "any" hobject hpool (by decide +kernel) (fun t ht => ?_)
    hgroup hnames
  have hcreate : (createAddress .dotted side "any" "any").toOption = none := by
    cases side <;> decide +kernel
  exact (addressSet_eq ((textValue_of_builtin hcreate).trans (hstart.symm.trans ht))).symm

/-- The row has an action and a status, so that its names are looked up. -/
structure WellFormed (row : RuleObject) : Prop where
  action : ruleAction row.action ≠ none
  status : ruleStatus row.status ≠ none

/-- The names of addresses of the rows. -/
def addressNames (rows : List RuleObject) (side : Side) : Set String :=
  {name | ∃ row ∈ rows, WellFormed row ∧ name ∈ row.addresses side}

/-- The names of services of the rows. -/
def serviceNames (rows : List RuleObject) : Set String :=
  {name | ∃ row ∈ rows, WellFormed row ∧ row.defaultAppServices = false ∧ name ∈ row.services}

/-- The names of the rows can be loaded together into a fresh network. -/
structure RowsFit (config : ModelConfig) (store : ObjectStore) (rows : List RuleObject) : Prop where
  addresses : ∀ side, NamesFit (createAddress config side) (addressScope config store side
    (freshRegistry config (.address side)) (addressNames rows side))
  services : NamesFit Service.create (serviceScope config store (freshRegistry config .service)
    (serviceNames rows))

/-- The addresses in the caches are those of the rows. -/
theorem preserves_addresses {rows : List RuleObject} (hfits : RowsFit config store rows)
    {row : RuleObject} (hrow : row ∈ rows) (hwell : WellFormed row) (side : Side) :
    Keeps (Preserves (Loading.On (.address side) (addressScope config store side
      (freshRegistry config (.address side)) (addressNames rows side)).Inv))
      (buildCriteria config store row) := by
  refine (keeping_preserves (k := .address side) ?_ nofun nofun nofun
    ⟨nofun, nofun, nofun⟩).buildCriteria
  intro side' hside
  obtain rfl := Kind.address.inj hside
  have htriple := triple_buildAddressGroup (hfits.addresses side).consistent (fun _ hr => hr)
    (Or.inr (hfits.addresses side).decodes) fun name hname => ⟨row, hrow, hwell, hname⟩
  exact preserves_onNames _ (htriple.preserves (fun _ _ hs => hs.1) fun _ hs => hs)

/-- The services in the caches are those of the rows. -/
theorem preserves_services {rows : List RuleObject} (hfits : RowsFit config store rows)
    {row : RuleObject} (hrow : row ∈ rows) (hwell : WellFormed row) :
    Keeps (Preserves (Loading.On .service (serviceScope config store
      (freshRegistry config .service) (serviceNames rows)).Inv))
      (buildCriteria config store row) := by
  refine (keeping_preserves (k := .service) nofun ?_ nofun nofun
    ⟨nofun, nofun, nofun⟩).buildCriteria
  intro _ applications
  unfold buildServices
  split
  · exact keeps_bind keeps_get fun _ => keeps_pure _
  · next hrule =>
    have hdefault := Bool.eq_false_iff.mpr hrule
    have htriple := triple_buildServiceGroup hfits.services.consistent (fun _ hr => hr)
      (Or.inr hfits.services.decodes) hdefault fun name hname => ⟨row, hrow, hwell, hdefault, hname⟩
    exact keeps_map _
      (preserves_onNames _ (htriple.preserves (fun _ _ hs => hs.1) fun _ hs => hs))

/-- What the criteria of a row preserve, the row preserves. -/
theorem on_addRule {P : Registry String (Item k) → Prop} {rule : RuleObject} {s : Loading}
    (h : WellFormed rule → Keeps (Preserves (Loading.On k P)) (buildCriteria config store rule))
    (hs : Loading.On k P s) : Loading.On k P (exec (addRule config store rule) s).2 := by
  have hbuild : WellFormed rule → Loading.On k P (exec (buildCriteria config store rule) s).2 :=
    fun hwell => h hwell s hs
  have hadds := addsRule config store rule s
  generalize exec (addRule config store rule) s = result at hadds ⊢
  cases hadds with
  | malformed _ => exact hs
  | raised haction hstatus hrun =>
    rw [hrun] at hbuild
    exact hbuild ⟨haction, hstatus⟩
  | rejected haction hstatus hrun _ =>
    rw [hrun] at hbuild
    exact hbuild ⟨haction, hstatus⟩
  | added haction hstatus hrun _ =>
    rw [hrun] at hbuild
    exact hbuild ⟨haction ▸ Option.some_ne_none _, hstatus ▸ Option.some_ne_none _⟩

/-- The rules after a rule of the criteria was added. -/
def Adds (s s' : Loading) (criteria : CriteriaRef) : Prop :=
  ∃ rule, s'.rules = s.rules ++ [rule] ∧ rule.predicate = .ofCriteria criteria

theorem Adds.services {s s' : Loading} {criteria : CriteriaRef} (h : Adds s s' criteria)
    {members : List (Member (Item .service))} (hlast : s'.lastServices = some members) :
    criteria.services = .registered members := by
  obtain ⟨⟨id, name, status, action, predicate⟩, hrules, hpredicate⟩ := h
  obtain rfl : predicate = .ofCriteria criteria := hpredicate
  rw [Loading.lastServices, hrules, List.getLast?_concat] at hlast
  obtain ⟨_, _, _, _, _, _, services, _, _, _, _⟩ := criteria
  cases services with
  | registered members' =>
    obtain rfl := Option.some.inj hlast
    rfl
  | appDefault services => exact nomatch hlast

/-- A row that is added is the rule of its criteria. -/
theorem adds_of_returns {rule : RuleObject} {s s' : Loading}
    (h : Returns (addRule config store rule) s true s') :
    WellFormed rule ∧ ∃ criteria t,
      Returns (buildCriteria config store rule) s (criteria, true) t ∧
      s'.network = t.network ∧ Adds s s' criteria := by
  have hadds := addsRule config store rule s
  rw [h] at hadds
  cases hadds with
  | @added action status criteria t haction hstatus hrun _ =>
    refine ⟨⟨haction ▸ Option.some_ne_none _, hstatus ▸ Option.some_ne_none _⟩, criteria, t, hrun,
      rfl, ⟨rule.id, rule.name, status, action, .ofCriteria criteria⟩, ?_, rfl⟩
    rw [Loading.addRule, (builds_of_exec config store hrun).rules]

end FirewallFactory

/-- The rows an action loads. -/
def Action.rows : Action → List RuleObject
  | .addRule _ rule _ => [rule]
  | _ => []

namespace Session

open FirewallFactory Network

variable {config : ModelConfig}

/-- What all actions preserve holds after a run. -/
theorem run_induction {I : Session → Prop} {actions : List Action}
    (hstep : ∀ action ∈ actions, ∀ s : Session, I s → I (s.step config action)) {s : Session}
    (hs : I s) : I (s.run config actions) := by
  induction actions generalizing s with
  | nil => exact hs
  | cons action actions ih =>
    exact ih (fun a ha => hstep a (List.mem_cons_of_mem _ ha))
      (hstep action List.mem_cons_self s hs)

/-- What the criteria of all rows preserve holds after a run that does not change the store. -/
theorem on_run {store : ObjectStore} {k : Kind} {P : Registry String (Item k) → Prop}
    {actions : List Action} (hstore : ∀ action ∈ actions, ∀ store', action ≠ .setStore store')
    (hrows : ∀ action ∈ actions, ∀ row ∈ action.rows, WellFormed row →
      Keeps (Preserves (Loading.On k P)) (buildCriteria config store row))
    (hfresh : P (freshRegistry config k)) :
    P (((fresh config store).run config actions).network.registries k) := by
  have hrun : ((fresh config store).run config actions).store = store ∧
      P (((fresh config store).run config actions).network.registries k) := by
    refine run_induction (I := fun s => s.store = store ∧ P (s.network.registries k)) ?_
      ⟨rfl, hfresh⟩
    rintro action haction s ⟨rfl, hs⟩
    cases action with
    | setStore store' => exact absurd rfl (hstore _ haction store')
    | clear name => exact ⟨rfl, hs⟩
    | addRule name row status =>
      exact ⟨rfl, on_addRule (hrows _ haction row (List.mem_singleton_self row)) hs⟩
    | addDenyAllRule name => exact ⟨rfl, hs⟩
  exact hrun.2

/-- A store with a pool of services, one of which has several values. -/
def siteStore : ObjectStore :=
  { ObjectStore.ofServices .ip4Model
      [⟨"https", ["tcp/443", "udp/443"]⟩, ⟨"web", ["tcp/80"]⟩] with
    servicePools := [⟨"site", ["web", "https"]⟩] }

/-- The names of `siteStore` that are looked up can be listed. -/
theorem listed_site {names : Set String}
    (hnames : ∀ name ∈ names, name ∈ ["any", "site", "tcp/80"]) :
    Listed isProtocolPort siteStore.serviceResolver names ["any", "site", "web", "https"] where
  roots name hname hliteral := by
    have hroots : ∀ name ∈ ["any", "site", "tcp/80"], (isProtocolPort name).toOption = some true ∨
        name ∈ ["any", "site", "web", "https"] := by decide +kernel
    refine (hroots name (hnames name hname)).resolve_left ?_
    rw [hliteral]
    nofun
  members := by
    have hmembers : ∀ name ∈ ["any", "site", "web", "https"],
        ∀ pool ∈ siteStore.serviceResolver.pool name, ∀ member ∈ pool.members,
          member ∈ ["any", "site", "web", "https"] := by decide +kernel
    exact hmembers
  found := by unfold GenericResolver.Found; decide +kernel
  own := by
    have hown : ∀ name ∈ ["any", "site", "web", "https"],
        ∀ object ∈ siteStore.serviceResolver.objects name, object.name = name := by decide +kernel
    exact hown
  apart := by decide +kernel
  literals name hname hliteral := by
    have hroots : ∀ name ∈ ["any", "site", "tcp/80"], (isProtocolPort name).toOption = some true →
        name ∉ ["any", "site", "web", "https"] ++
          ["any", "site", "web", "https"].flatMap (elementNames siteStore.serviceResolver) := by
      decide +kernel
    exact hroots name (hnames name hname) (by rw [hliteral]; rfl)

/-- The names of `siteStore` can be loaded together. -/
theorem namesFit_site {start : Registry String (Item .service)} {names : Set String}
    (hany : start.items "any" = (freshRegistry .dotted .service).items "any")
    (hnew : ∀ k ∈ ["site", "web", "https", "https[0]", "https[1]"], start.items k = none)
    (hliteral : "tcp/80" ∈ names → start.items "tcp/80" = none)
    (hgroups : ∀ k ∈ ["any", "site", "web", "https"], start.groups k = none)
    (hnames : ∀ name ∈ names, name ∈ ["any", "site", "tcp/80"]) :
    NamesFit Service.create (serviceScope .dotted siteStore start names) := by
  have hliterals : ∀ name ∈ names, isProtocolPort name = .ok true → name = "tcp/80" := by
    intro name hname htrue
    have hroots : ∀ name ∈ ["any", "site", "tcp/80"], (isProtocolPort name).toOption = some true →
        name = "tcp/80" := by decide +kernel
    exact hroots name (hnames name hname) (by rw [htrue]; rfl)
  have hlisted := listed_site hnames
  refine namesFit_of_listed hlisted (hlisted.consistent (fun k hk t ht => ?_) (fun k hk => ?_)
    (fun k hk htrue t ht => ?_) hgroups) ?_ fun name hname htrue => ?_
  · -- `any` is cached from the start, with the value that the store gives it
    have hkeys : ∀ k ∈ ["any", "site", "web", "https"], k = "any" ∨
        k ∈ ["site", "web", "https", "https[0]", "https[1]"] := by decide
    rcases hkeys k hk with rfl | hk
    · have hcreate : (Service.create "any" "any").toOption = none := by decide +kernel
      have hvalue := (textValue_of_builtin hcreate).trans (hany.symm.trans ht)
      exact ⟨"any", by decide +kernel, (serviceSet_eq hvalue).symm⟩
    · exact nomatch (hnew k hk).symm.trans ht
  · -- the elements of the object with two services are new
    have helements : ∀ k ∈ ["any", "site", "web", "https"].flatMap
        (elementNames siteStore.serviceResolver),
        k ∈ ["site", "web", "https", "https[0]", "https[1]"] := by decide +kernel
    exact hnew k (helements k hk)
  · obtain rfl := hliterals k hk htrue
    exact nomatch (hliteral hk).symm.trans ht
  · -- both elements can be read
    have hreads : ∀ name ∈ ["any", "site", "web", "https"],
        ∀ object ∈ siteStore.serviceResolver.objects name, object.values.length > 1 →
          ∀ value ∈ object.values.zipIdx,
            (Service.create (indexedName object.name value.2) value.1).toOption.isSome = true := by
      decide +kernel
    intro name hname object hobject hlength value hvalue
    have hsome := hreads name hname object hobject hlength value hvalue
    rcases hcreate : Service.create (indexedName object.name value.2) value.1 with fault | t
    · rw [hcreate] at hsome
      cases hsome
    · exact ⟨t, rfl⟩
  · obtain rfl := hliterals name hname htrue
    have hnone : siteStore.serviceResolver.objects "tcp/80" = none ∧
        siteStore.serviceResolver.pool "tcp/80" = none := by decide +kernel
    exact not_or.mpr ⟨not_not.mpr hnone.1, not_not.mpr hnone.2⟩

/-- **References denote the definitions of the store.**  When the names of all rows can be loaded
together, each name of each row that is added means exactly what the store defines. -/
theorem references_denote (config : ModelConfig) (store : ObjectStore) (actions : List Action)
    (hstore : ∀ action ∈ actions, ∀ store', action ≠ .setStore store') (name : String)
    (status : LoaderStatus) (row : RuleObject)
    (hfits : RowsFit config store (row :: actions.flatMap Action.rows)) (s' : Loading)
    (h : Returns (addRule config store row)
      (((fresh config store).run config actions).loading name status) true s') :
    ∃ criteria, Adds (((fresh config store).run config actions).loading name status) s' criteria ∧
      RowDenotes config store row s'.network criteria := by
  obtain ⟨hwell, criteria, t, hrun, hsame, hadds⟩ := adds_of_returns h
  refine ⟨criteria, hadds, ?_⟩
  rw [hsame]
  -- what the earlier rows cached fits, since their names were in the condition as well
  have hs := (good_run config (good_fresh config store) actions).1.sound
  have hrows : ∀ action ∈ actions, ∀ row' ∈ action.rows,
      row' ∈ row :: actions.flatMap Action.rows := fun action haction row' hrow' =>
    List.mem_cons_of_mem _ (List.mem_flatMap.mpr ⟨action, haction, hrow'⟩)
  have hself : row ∈ row :: actions.flatMap Action.rows := List.mem_cons_self
  refine ⟨fun side n hn hfound => ?_, fun hrule => ?_⟩
  · -- addresses
    have hfit := hfits.addresses side
    have hinv := on_run (k := .address side) hstore
      (fun action haction row' hrow' hwell =>
        preserves_addresses hfits (hrows _ haction _ hrow') hwell side)
      (Scope.inv_start (sound_fresh config (.address side)))
    have hmeans := means_addresses hs hrun hfit.consistent hinv fun n hn => ⟨row, hself, hwell, hn⟩
    obtain ⟨member, hmember, hmeaning⟩ := hmeans.of_name n hn (Or.inr hfound)
    exact ⟨member, hmember, hmeaning.trans (hfit.means_eq ⟨row, hself, hwell, hn⟩ hfound)⟩
  · -- services, unless the row takes those of its applications
    have hfit := hfits.services
    have hinv := on_run (k := .service) hstore
      (fun action haction row' hrow' hwell =>
        preserves_services hfits (hrows _ haction _ hrow') hwell)
      (Scope.inv_start (sound_fresh config .service))
    obtain ⟨members, hservices, hmeans⟩ := means_services hs hrun hrule hfit.consistent hinv
      fun n hn => ⟨row, hself, hwell, hrule, hn⟩
    refine ⟨members, hservices, fun n hn hfound => ?_⟩
    obtain ⟨member, hmember, hmeaning⟩ := hmeans.of_name n hn (Or.inr hfound)
    exact ⟨member, hmember, hmeaning.trans (hfit.means_eq ⟨row, hself, hwell, hrule, hn⟩ hfound)⟩

theorem references_denote_witness :
    ∃ s', Returns (addRule .dotted siteStore (.ofServices 2 ["any", "tcp/80", "site"]))
      (((fresh .dotted siteStore).run .dotted
        [.addRule "fw" (.ofServices 1 ["site"]) {}]).loading "fw" {}) true s' ∧
      ∃ criteria, Adds (((fresh .dotted siteStore).run .dotted
          [.addRule "fw" (.ofServices 1 ["site"]) {}]).loading "fw" {}) s' criteria ∧
        RowDenotes .dotted siteStore (.ofServices 2 ["any", "tcp/80", "site"]) s'.network
          criteria := by
  have htrue : (exec (addRule .dotted siteStore (.ofServices 2 ["any", "tcp/80", "site"]))
      (((fresh .dotted siteStore).run .dotted
        [.addRule "fw" (.ofServices 1 ["site"]) {}]).loading "fw" {})).1.toOption = some true := by
    decide +kernel
  have hfits : RowsFit .dotted siteStore (.ofServices 2 ["any", "tcp/80", "site"] ::
      [Action.addRule "fw" (.ofServices 1 ["site"]) {}].flatMap Action.rows) := by
    have hrows : ∀ row ∈ RuleObject.ofServices 2 ["any", "tcp/80", "site"] ::
        [Action.addRule "fw" (.ofServices 1 ["site"]) {}].flatMap Action.rows,
        (row.addresses .src = ["any"] ∧ row.addresses .dst = ["any"]) ∧
          ∀ name ∈ row.services, name ∈ ["any", "site", "tcp/80"] := by
      decide +kernel
    refine ⟨fun side => namesFit_any side (by decide +kernel) (by decide +kernel) rfl
      (by cases side <;> rfl) ?_,
      namesFit_site rfl (by decide +kernel) (fun _ => rfl) (by decide +kernel) ?_⟩
    · rintro name ⟨row, hrow, -, hname⟩
      obtain ⟨⟨hsrc, hdst⟩, -⟩ := hrows row hrow
      cases side with
      | src => exact List.mem_singleton.mp (hsrc ▸ hname)
      | dst => exact List.mem_singleton.mp (hdst ▸ hname)
    · rintro name ⟨row, hrow, -, -, hname⟩
      exact (hrows row hrow).2 name hname
  exact ⟨_, returns_of_toOption htrue, references_denote .dotted siteStore _
    (fun action haction store' => by
      obtain rfl := List.mem_singleton.mp haction
      nofun) "fw" {} _ hfits _ (returns_of_toOption htrue)⟩

/-- A store where an element of the services `A` has the name of the service `A[0]`. -/
def clashStore : ObjectStore :=
  .ofServices .ip4Model [⟨"A", ["tcp/80", "tcp/443"]⟩, ⟨"A[0]", ["udp/53"]⟩]

/-- After a row that uses `A`, the name `A[0]` means the port 80 of `A` and not what the store
defines. -/
theorem references_clash : clashStore.NoFqdn ∧
    ¬∀ s', Returns (addRule .dotted clashStore (.ofServices 2 ["A[0]"]))
        (((fresh .dotted clashStore).run .dotted
          [.addRule "fw" (.ofServices 1 ["A"]) {}]).loading "fw" {}) true s' →
      ∃ criteria, Adds (((fresh .dotted clashStore).run .dotted
          [.addRule "fw" (.ofServices 1 ["A"]) {}]).loading "fw" {}) s' criteria ∧
        RowDenotes .dotted clashStore (.ofServices 2 ["A[0]"]) s'.network criteria := by
  refine ⟨by unfold ObjectStore.NoFqdn; decide +kernel, fun h => ?_⟩
  have htrue : (exec (addRule .dotted clashStore (.ofServices 2 ["A[0]"]))
      (((fresh .dotted clashStore).run .dotted
        [.addRule "fw" (.ofServices 1 ["A"]) {}]).loading "fw" {})).1.toOption = some true := by
    decide +kernel
  have hlast : (exec (addRule .dotted clashStore (.ofServices 2 ["A[0]"]))
      (((fresh .dotted clashStore).run .dotted
        [.addRule "fw" (.ofServices 1 ["A"]) {}]).loading "fw" {})).2.lastServices =
      some [.item (Service.tcp "A[0]" (Range.singleton 80 (by decide)))] := by
    decide +kernel
  obtain ⟨criteria, hadds, hdenotes⟩ := h _ (returns_of_toOption htrue)
  obtain ⟨members, hservices, hmembers⟩ := hdenotes.services (by decide +kernel)
  obtain ⟨member, hmember, hmeaning⟩ := hmembers "A[0]" (by decide +kernel)
    (Or.inl (by decide +kernel))
  obtain rfl := ServicesRef.registered.inj (hservices.symm.trans (hadds.services hlast))
  obtain rfl := List.mem_singleton.mp hmember
  -- the object has port 53 of udp, but the item that is cached has port 80 of tcp
  have hdns : (Packet.ofValues fun dt => if dt = .dstUdpPort then 53 else 0) ∈
      serviceContents .dotted clashStore "A[0]" := by
    have hobject : clashStore.serviceResolver.objects "A[0]" = some ⟨"A[0]", ["udp/53"]⟩ := by
      decide +kernel
    rw [serviceContents, Reading.contents_object hobject, object_valuedReading_item rfl]
    have hservice : (Service.udp "udp/53" (Range.singleton 53 (by decide))).Matches
        (Packet.ofValues fun dt => if dt = .dstUdpPort then 53 else 0) :=
      ⟨by decide +kernel, Range.mem_singleton.mpr (by decide +kernel)⟩
    exact ⟨Service.udp "udp/53" (Range.singleton 53 (by decide)), by decide +kernel, hservice⟩
  rw [← hmeaning] at hdns
  have htcp := (Set.ext_iff.mp (Registry.meaning_item _) _).mp hdns
  exact absurd htcp.1 (by decide +kernel)

end Session

end RulesAnalyzer
