import RulesAnalyzer.DefaultServices

/-!
# What the criteria of a row mean

Each kind of criterion has its own registries, so what the caches of one kind hold
is only changed by the builds of that kind.  The groups of a row are built one after
the other, and mean what the names of the row denote when the row is built.

## Main definitions

* `Loading.Leaves`, `Loading.On` — the registry of a kind stays, and a property of it.
* `FirewallFactory.BuildsGroup`, `FirewallFactory.BuildsServices` — groups that are built.

## Main results

* `FirewallFactory.keeping_preserves` — what the builds of one kind preserve, the row preserves.
* `FirewallFactory.means_addresses`, `FirewallFactory.means_services`,
  `FirewallFactory.means_applications` — **what the criteria of a row mean.**
* `FirewallFactory.mem_addressGroup`, … — the packets of the groups.
-/

namespace RulesAnalyzer

open Effect Shared

/-! ### What a row leaves alone -/

/-- The registry of a kind stays. -/
abbrev Loading.Leaves (k : Kind) : Loading → Loading → Prop :=
  Through Loading.network (Network.Leaves k)

/-- A property of the registry of a kind. -/
abbrev Loading.On (k : Kind) (P : Registry String (Item k) → Prop) (s : Loading) : Prop :=
  P (s.network.registries k)

/-- The addresses of criteria. -/
def CriteriaRef.addresses (c : CriteriaRef) : (side : Side) → List (Member (Item (.address side)))
  | .src => c.srcAddresses
  | .dst => c.dstAddresses

namespace FirewallFactory

open Network

variable {α : Type} {config : ModelConfig} {store : ObjectStore} {k : Kind}

/-- A program that leaves a registry alone preserves what holds of the registry. -/
theorem preserves_of_leaves {P : Registry String (Item k) → Prop} {p : Program Loading Fault α}
    (h : Keeps (Loading.Leaves k) p) : Keeps (Preserves (Loading.On k P)) p := by
  intro s hs
  have hsame : s.network.registries k = (exec p s).2.network.registries k := h s
  rwa [Loading.On, ← hsame]

theorem leaves_onNetwork {p : Program Network Fault α} (hp : Keeps (Network.Leaves k) p) :
    Keeps (Loading.Leaves k) (onNetwork p) := keeps_zoom hp fun _ _ h => h

theorem leaves_onNames {names : NamesField} {p : Program (Network × List String) Fault α}
    (hp : Keeps (Through Prod.fst (Network.Leaves k)) p) :
    Keeps (Loading.Leaves k) (onNames names p) := keeps_zoom hp fun _ _ h => h

theorem leaves_onKindNames {k' : Kind} (hk : k ≠ k')
    (p : Program (Registry String (Item k') × List String) Fault α) :
    Keeps (Through Prod.fst (Network.Leaves k)) (onKindNames k' p) :=
  fun _ => (registries_setRegistry_of_ne hk _ _).symm

theorem leaves_buildAddressGroup {side : Side} (hk : k ≠ .address side) (addresses : List String) :
    Keeps (Through Prod.fst (Network.Leaves k)) (buildAddressGroup config store side addresses) :=
  leaves_onKindNames hk _

theorem leaves_buildServiceGroup (hk : k ≠ .service) (rule : RuleObject) :
    Keeps (Through Prod.fst (Network.Leaves k)) (buildServiceGroup store rule) := by
  unfold buildServiceGroup
  split
  · exact keeps_bind (leaves_onKindNames hk _) fun _ => keeps_pure _
  · exact leaves_onKindNames hk _

theorem leaves_buildApplicationGroup (hk : ∀ useAppSvc, k ≠ .application useAppSvc)
    (hsvc : k ≠ .appsvc) (rule : RuleObject) :
    Keeps (Through Prod.fst (Network.Leaves k)) (buildApplicationGroup store rule) := by
  have hkeeping : (applicationReference store rule.defaultAppServices).Keeping
      (Network.Leaves k) := {
    literal := fun _ => keeps_throw _
    object := fun _ => keeps_bind (keeps_ofExcept _) fun _ =>
      keeps_map _ (leaves_registerApplication (hk _) hsvc _ _)
    pool := fun _ _ => keeps_bind (leaves_onKind (hk _) _) fun _ => keeps_pure _ }
  exact hkeeping.build _

theorem leaves_buildZoneGroup {side : Side} (hk : k ≠ .zone side) (zones : List String) :
    Keeps (Network.Leaves k) (buildZoneGroup side zones) :=
  keeps_foldlM fun _ _ _ => keeps_bind (leaves_registerZone hk _) fun _ => keeps_pure _

theorem leaves_buildUserGroup (hk : k ≠ .user) (rule : RuleObject) :
    Keeps (Through Prod.fst (Network.Leaves k)) (buildUserGroup store rule) := by
  have hkeeping : (userReference store).Keeping (Network.Leaves k) := {
    literal := fun _ => keeps_throw _
    object := fun _ => keeps_map _ (leaves_registerUser hk _)
    pool := fun _ _ => keeps_bind (leaves_onKind hk _) fun _ => keeps_pure _ }
  exact hkeeping.build _

theorem leaves_buildUrlGroup (hk : k ≠ .url) (rule : RuleObject) :
    Keeps (Through Prod.fst (Network.Leaves k)) (buildUrlGroup store rule) := by
  have hkeeping : (urlReference store).Keeping (Network.Leaves k) := {
    literal := fun _ => leaves_registerUrl hk _
    object := fun _ => keeps_map _ (leaves_registerUrl hk _)
    pool := fun _ _ => keeps_bind (leaves_onKind hk _) fun _ => keeps_pure _ }
  exact hkeeping.build _

theorem leaves_buildServices (hk : k ≠ .service) (rule : RuleObject)
    (applications : List (Member (Item (.application rule.defaultAppServices)))) :
    Keeps (Loading.Leaves k) (buildServices store rule applications) := by
  unfold buildServices
  split
  · exact keeps_bind keeps_get fun _ => keeps_pure _
  · exact keeps_map _ (leaves_onNames (leaves_buildServiceGroup hk rule))

theorem preserves_onNames {names : NamesField} {p : Program (Network × List String) Fault α}
    (P : Registry String (Item k) → Prop)
    (h : Keeps (Preserves fun s : Network × List String => P (s.1.registries k)) p) :
    Keeps (Preserves (Loading.On k P)) (onNames names p) := keeps_zoom h fun _ _ hs => hs

/-- What holds of a registry of zones, of addresses, of services or of services of applications
is preserved by a row when the builds of that kind preserve it. -/
theorem keeping_preserves {rule : RuleObject} {P : Registry String (Item k) → Prop}
    (haddress : ∀ side, k = .address side → Keeps (Preserves (Loading.On k P))
      (onAddresses (buildAddressGroup config store side (rule.addresses side))))
    (hservices : k = .service → ∀ applications, Keeps (Preserves (Loading.On k P))
      (buildServices store rule applications))
    (happlications : k = .appsvc → Keeps (Preserves (Loading.On k P))
      (onApplications (buildApplicationGroup store rule)))
    (hzones : ∀ side, k = .zone side → ∀ zones, Keeps (Preserves (Loading.On k P))
      (onNetwork (buildZoneGroup side zones)))
    (hk : (∀ useAppSvc, k ≠ .application useAppSvc) ∧ k ≠ .user ∧ k ≠ .url) :
    Keeping config store (Preserves (Loading.On k P)) rule where
  -- a build of another kind does not write the registry
  report _ _ _ := id
  sourceAddresses := by
    by_cases h : k = .address .src
    · exact haddress .src h
    · exact preserves_of_leaves (leaves_onNames (leaves_buildAddressGroup h _))
  destinationAddresses := by
    by_cases h : k = .address .dst
    · exact haddress .dst h
    · exact preserves_of_leaves (leaves_onNames (leaves_buildAddressGroup h _))
  applications := by
    by_cases h : k = .appsvc
    · exact happlications h
    · exact preserves_of_leaves (leaves_onNames (leaves_buildApplicationGroup hk.1 h rule))
  services applications := by
    by_cases h : k = .service
    · exact hservices h applications
    · exact preserves_of_leaves (leaves_buildServices h rule applications)
  zones side zones := by
    by_cases h : k = .zone side
    · exact hzones side h zones
    · exact preserves_of_leaves (leaves_onNetwork (leaves_buildZoneGroup h zones))
  users := preserves_of_leaves (leaves_onNames (leaves_buildUserGroup hk.2.1 rule))
  urls := preserves_of_leaves (leaves_onNames (leaves_buildUrlGroup hk.2.2 rule))

/-! ### What the criteria of a row mean -/

/-- A group is built; the names that are not resolved do not matter. -/
def BuildsGroup (p : Program (Network × List String) Fault α) (nw : Network) (a : α)
    (nw' : Network) : Prop := ∃ u u', Returns p (nw, u) a (nw', u')

/-- The services of a rule are built. -/
inductive BuildsServices (store : ObjectStore) (rule : RuleObject)
    (applications : List (Member (Item (.application rule.defaultAppServices)))) (nw : Network) :
    ServicesRef → Network → Prop
  | appDefault (h : rule.defaultAppServices = true) : BuildsServices store rule applications nw
      (.appDefault (defaultServices (nw.applicationGroup _ applications))) nw
  | registered {members : List (Member (Item .service))} {nw' : Network}
      (h : rule.defaultAppServices = false)
      (hrun : BuildsGroup (buildServiceGroup store rule) nw members nw') :
      BuildsServices store rule applications nw (.registered members) nw'

theorem Built.group {names : NamesField} {p : Program (Network × List String) Fault α}
    {s s' : Loading} {a : α} (h : Built (onNames names p) s a s') :
    BuildsGroup p s.network a s'.network := by
  obtain ⟨t, hbuild, hsame⟩ := h
  obtain ⟨u, hrun⟩ := returns_onNames hbuild
  exact ⟨_, u, hsame ▸ hrun⟩

theorem Built.services {rule : RuleObject}
    {applications : List (Member (Item (.application rule.defaultAppServices)))}
    {s s' : Loading} {services : ServicesRef}
    (h : Built (buildServices store rule applications) s services s') :
    BuildsServices store rule applications s.network services s'.network := by
  obtain ⟨t, hbuild, hsame⟩ := h
  rw [hsame]
  unfold buildServices at hbuild
  split at hbuild
  · next hdefault =>
    obtain ⟨_, t', hget, hpure⟩ := returns_bind.mp hbuild
    obtain ⟨rfl, rfl⟩ := returns_get.mp hget
    obtain ⟨hservices, rfl⟩ := returns_pure.mp hpure
    rw [← hservices]
    exact .appDefault hdefault
  · next hdefault =>
    obtain ⟨members, hmembers, hservices⟩ := returns_map.mp hbuild
    obtain ⟨u, hrun⟩ := returns_onNames hmembers
    rw [← hservices]
    exact .registered (Bool.eq_false_iff.mpr hdefault) ⟨_, u, hrun⟩

theorem Built.step {build : Program Loading Fault α} (hbuild : Keeps Loading.Builds build)
    {s s' : Loading} {a : α} (h : Built build s a s') : Step s.network s'.network := by
  obtain ⟨t, hrun, hsame⟩ := h
  rw [hsame]
  exact (hbuild.returns hrun).network

/-- The networks between the builds of a row. -/
theorem returns_buildCriteria {rule : RuleObject} {s s' : Loading} {criteria : CriteriaRef × Bool}
    (h : Returns (buildCriteria config store rule) s criteria s') :
    ∃ nw₁ nw₂ nw₃ nw₄ applications,
      BuildsGroup (buildAddressGroup config store .src rule.sourceAddresses) s.network
        criteria.1.srcAddresses nw₁ ∧
      BuildsGroup (buildAddressGroup config store .dst rule.destinationAddresses) nw₁
        criteria.1.dstAddresses nw₂ ∧
      BuildsGroup (buildApplicationGroup store rule) nw₂ applications nw₃ ∧
      BuildsServices store rule applications nw₃ criteria.1.services nw₄ ∧
      Step nw₄ s'.network := by
  have hbuilds := builds_buildCriteria h
  generalize criteria.1 = built at hbuilds ⊢
  cases hbuilds with
  | intro hsrc hdst happ hsvc hsrcZone hdstZone huser hurl =>
    have hkeeping := keeping_builds config store rule
    have h₅ := hsrcZone.step (hkeeping.zones .src rule.sourceZones)
    have h₆ := hdstZone.step (hkeeping.zones .dst rule.destinationZones)
    have h₇ := huser.step hkeeping.users
    have h₈ := hurl.step hkeeping.urls
    exact ⟨_, _, _, _, _, hsrc.group, hdst.group, happ.group, hsvc.services,
      Trans.trans (Trans.trans h₅ h₆) (Trans.trans h₇ h₈)⟩

theorem BuildsGroup.keeps {p : Program (Network × List String) Fault α} {nw nw' : Network} {a : α}
    {R : Network → Network → Prop} (hp : Keeps (Through Prod.fst R) p)
    (h : BuildsGroup p nw a nw') : R nw nw' := by
  obtain ⟨u, u', hrun⟩ := h
  exact hp.returns hrun

theorem BuildsServices.step {rule : RuleObject}
    {applications : List (Member (Item (.application rule.defaultAppServices)))}
    {nw nw' : Network} {services : ServicesRef}
    (h : BuildsServices store rule applications nw services nw') : Step nw nw' := by
  cases h with
  | appDefault _ => exact refl nw
  | registered _ hrun => exact hrun.keeps (keeps_buildServiceGroup store rule)

/-- **The addresses of a row mean what the names denote.**  The sources are built before the
destinations, and what is built later leaves them as they are. -/
theorem means_addresses {rule : RuleObject} {s s' : Loading} {criteria : CriteriaRef × Bool}
    (hs : s.network.Sound) (h : Returns (buildCriteria config store rule) s criteria s')
    {side : Side} {start : Registry String (Item (.address side))} {names : Set String}
    (hc : (addressScope config store side start names).Consistent)
    (hinv : (addressScope config store side start names).Inv (s.network.registries (.address side)))
    (hnames : ∀ name ∈ rule.addresses side, name ∈ names) :
    (addressScope config store side start names).Means (s'.network.registries (.address side))
      (rule.addresses side) (criteria.1.addresses side) := by
  obtain ⟨nw₁, nw₂, nw₃, nw₄, applications, hsrc, hdst, happ, hsvc, h₅⟩ := returns_buildCriteria h
  have h₁ := hsrc.keeps (keeps_buildAddressGroup config store .src _)
  have h₂ := hdst.keeps (keeps_buildAddressGroup config store .dst _)
  have h₃ := happ.keeps ((keeping_applicationReference store _).build _)
  -- what follows the addresses only extends the registries
  have h₂' : Step nw₂ s'.network := Trans.trans h₃ (Trans.trans hsvc.step h₅)
  have hmeans : ∀ {addresses : List String} {nw nw' : Network}
      {members : List (Member (Item (.address side)))},
      (∀ name ∈ addresses, name ∈ names) →
      (addressScope config store side start names).Inv (nw.registries (.address side)) →
      BuildsGroup (buildAddressGroup config store side addresses) nw members nw' →
      (addressScope config store side start names).Means (nw'.registries (.address side)) addresses
        members := by
    intro addresses nw nw' members hnames hinv ⟨u, u', hrun⟩
    have htriple := @triple_buildAddressGroup config store side start names addresses
      (fun _ => True) hc (fun _ _ => trivial) (Or.inl fun _ => trivial) hnames
    exact (htriple.returns hinv hrun).2
  have hs₁ := (h₁ hs).1
  cases side with
  | src => exact (hmeans hnames hinv hsrc).extends (hs₁ _) ((Trans.trans h₂ h₂' hs₁).2.registries _)
  | dst =>
    -- the source addresses leave the destination addresses alone
    have hsame : s.network.registries (.address .dst) = nw₁.registries (.address .dst) :=
      hsrc.keeps (@leaves_buildAddressGroup config store (.address .dst) .src nofun _)
    rw [hsame] at hinv
    have hs₂ := (h₂ hs₁).1
    exact (hmeans hnames hinv hdst).extends (hs₂ _) ((h₂' hs₂).2.registries _)

/-- **The services of a row mean what the names denote.**  Addresses and applications are built
before, and leave the registry of services as it is. -/
theorem means_services {rule : RuleObject} {s s' : Loading} {criteria : CriteriaRef × Bool}
    (hs : s.network.Sound) (h : Returns (buildCriteria config store rule) s criteria s')
    (hrule : rule.defaultAppServices = false) {start : Registry String (Item .service)}
    {names : Set String} (hc : (serviceScope config store start names).Consistent)
    (hinv : (serviceScope config store start names).Inv (s.network.registries .service))
    (hnames : ∀ name ∈ rule.services, name ∈ names) :
    ∃ members, criteria.1.services = .registered members ∧
      (serviceScope config store start names).Means (s'.network.registries .service) rule.services
        members := by
  obtain ⟨nw₁, nw₂, nw₃, nw₄, applications, hsrc, hdst, happ, hsvc, h₅⟩ := returns_buildCriteria h
  have hs₁ := (hsrc.keeps (keeps_buildAddressGroup config store .src _) hs).1
  have hs₂ := (hdst.keeps (keeps_buildAddressGroup config store .dst _) hs₁).1
  have hs₃ := (happ.keeps ((keeping_applicationReference store _).build _) hs₂).1
  have hs₄ := (hsvc.step hs₃).1
  -- addresses and applications leave the services alone
  have hsame₁ : s.network.registries .service = nw₁.registries .service :=
    hsrc.keeps (leaves_buildAddressGroup (k := .service) nofun _)
  have hsame₂ : nw₁.registries .service = nw₂.registries .service :=
    hdst.keeps (leaves_buildAddressGroup (k := .service) nofun _)
  have hsame₃ : nw₂.registries .service = nw₃.registries .service :=
    happ.keeps (leaves_buildApplicationGroup (k := .service) nofun nofun _)
  rw [hsame₁, hsame₂, hsame₃] at hinv
  generalize criteria.1.services = services at hsvc
  cases hsvc with
  | appDefault hdefault => exact nomatch hrule.symm.trans hdefault
  | registered _ hrun =>
    obtain ⟨u, u', hrun⟩ := hrun
    have htriple := @triple_buildServiceGroup config store start names rule (fun _ => True) hc
      (fun _ _ => trivial) (Or.inl fun _ => trivial) hrule hnames
    exact ⟨_, rfl, (htriple.returns hinv hrun).2.extends (hs₄ _) ((h₅ hs₄).2.registries _)⟩

/-- **The default services of a row mean what the names of its applications denote.**  They are
read off the application group, in the network in which it was built. -/
theorem means_applications {rule : RuleObject} {s s' : Loading} {criteria : CriteriaRef × Bool}
    (hs : s.network.Sound) (happsvc : AppsvcSound config s.network)
    (h : Returns (buildCriteria config store rule) s criteria s')
    (hrule : rule.defaultAppServices = true)
    {start : Registry String (Item (.application rule.defaultAppServices))} {names : Set String}
    (hc : (applicationScope config store rule.defaultAppServices start names).Consistent)
    (hinv : (applicationScope config store rule.defaultAppServices start names).Inv
      (s.network.registries _))
    (hnames : ∀ name ∈ rule.applications, name ∈ names) :
    ∃ (nw : Network) (applications : List (Member (Item (.application rule.defaultAppServices)))),
      nw.Sound ∧ criteria.1.services =
        .appDefault (defaultServices (nw.applicationGroup rule.defaultAppServices applications)) ∧
      (applicationScope config store rule.defaultAppServices start names).Means
        (nw.registries _) rule.applications applications := by
  obtain ⟨nw₁, nw₂, nw₃, nw₄, applications, hsrc, hdst, happ, hsvc, -⟩ := returns_buildCriteria h
  have hs₁ := (hsrc.keeps (keeps_buildAddressGroup config store .src _) hs).1
  have hs₂ := (hdst.keeps (keeps_buildAddressGroup config store .dst _) hs₁).1
  have hs₃ := (happ.keeps ((keeping_applicationReference store _).build _) hs₂).1
  -- the addresses leave the applications and their services alone
  have hsame : ∀ {k : Kind}, (∀ side, k ≠ .address side) →
      s.network.registries k = nw₂.registries k := fun hk =>
    (hsrc.keeps (leaves_buildAddressGroup (hk .src) _)).trans
      (hdst.keeps (leaves_buildAddressGroup (hk .dst) _))
  have happsvc₂ : AppsvcSound config nw₂ := by
    rwa [AppsvcSound, ← hsame (k := .appsvc) (by rintro _ ⟨⟩)]
  rw [hsame (k := .application rule.defaultAppServices) (by rintro _ ⟨⟩)] at hinv
  obtain ⟨u, u', hrun⟩ := happ
  have hmeans := (triple_buildApplicationGroup hc hnames).returns ⟨⟨hs₂, happsvc₂⟩, hinv⟩ hrun
  generalize criteria.1.services = services at hsvc
  cases hsvc with
  | appDefault _ => exact ⟨nw₃, applications, hs₃, rfl, hmeans⟩
  | registered hdefault _ => exact absurd hrule (Bool.eq_false_iff.mp hdefault)

end FirewallFactory

/-! ### The packets of the criteria -/

namespace Network

/-- **The packets of a group are those its members stand for.** -/
theorem mem_groupValue_iff {T S : Type} [Mnode S] {f : T → S} {r : Registry String T}
    (hr : r.Sound) {members : List (Member T)} (h : Below r.heap.length members)
    {den : T → Set Packet} (hden : ∀ t pk, pk ∈ Mnode.makeBdd (f t) ↔ pk ∈ den t) {pk : Packet} :
    pk ∈ (groupValue f r members).makeBdd ↔ ∃ member ∈ members, pk ∈ r.meaning den member := by
  rw [mem_groupValue hr h]
  constructor
  · intro ⟨t, ht, hpk⟩
    obtain ⟨member, hmember, hleads⟩ := leads_iff.mp ht
    exact ⟨member, hmember, t, hleads, (hden t pk).mp hpk⟩
  · intro ⟨member, hmember, t, hleads, hpk⟩
    exact ⟨t, leads_iff.mpr ⟨member, hmember, hleads⟩, (hden t pk).mpr hpk⟩

end Network

namespace FirewallFactory

open Network

variable (config : ModelConfig) (store : ObjectStore)

/-- What a name of an address of a row means. -/
def addressMeans (side : Side) (name : String) : Set Packet :=
  (valuedReading (addressSet config side)).means (addressReference config store side) name

/-- What a name of a service of a row means. -/
def serviceMeans (name : String) : Set Packet :=
  (valuedReading (serviceSet config)).means (serviceReference store) name

/-- What a name of an application of a row means, for its default services. -/
def applicationMeans (useAppSvc : Bool) (name : String) : Set Packet :=
  (applicationReading config store).means (applicationReference store useAppSvc) name

variable {config store} {nw : Network} {names : Set String} {pk : Packet}

theorem mem_addressGroup (hs : nw.Sound) {side : Side}
    {start : Registry String (Item (.address side))} {addresses : List String}
    {members : List (Member (Item (.address side)))}
    (h : (addressScope config store side start names).Means (nw.registries _) addresses members) :
    pk ∈ (nw.addressGroup side members).makeBdd ↔
      ∃ name ∈ addresses, pk ∈ addressMeans config store side name :=
  (mem_groupValue_iff (hs _) h.below fun _ _ => mem_makeBdd_ipAddress).trans h.iff

theorem mem_serviceGroup (hs : nw.Sound) {start : Registry String (Item .service)}
    {services : List String} {members : List (Member (Item .service))}
    (h : (serviceScope config store start names).Means (nw.registries _) services members) :
    pk ∈ (nw.serviceGroup members).makeBdd ↔
      ∃ name ∈ services, pk ∈ serviceMeans config store name :=
  (mem_groupValue_iff (hs _) h.below fun _ _ => mem_makeBdd_service).trans h.iff

theorem mem_defaultServices (hs : nw.Sound) {useAppSvc : Bool}
    {start : Registry String (Item (.application useAppSvc))} {applications : List String}
    {members : List (Member (Item (.application useAppSvc)))}
    (h : (applicationScope config store useAppSvc start names).Means (nw.registries _)
      applications members) :
    pk ∈ (defaultServices (nw.applicationGroup useAppSvc members)).makeBdd ↔
      ∃ name ∈ applications, pk ∈ applicationMeans config store useAppSvc name := by
  refine Iff.trans ?_ h.iff
  rw [mem_makeBdd_serviceGroup]
  constructor
  · intro ⟨service, hservice, hpk⟩
    obtain ⟨application, happlication, hservice⟩ := mem_items_defaultServices.mp hservice
    obtain ⟨item, hleads, rfl⟩ :=
      (mem_parse_groupValue (hs _) h.below).mp (Group.mem_items.mp happlication)
    obtain ⟨member, hmember, hleads⟩ := leads_iff.mp hleads
    exact ⟨member, hmember, item, hleads, service, hservice, hpk⟩
  · intro ⟨member, hmember, item, hleads, service, hservice, hpk⟩
    refine ⟨service, ?_, hpk⟩
    refine mem_items_defaultServices.mpr ⟨item.val, Group.mem_items.mpr ?_, hservice⟩
    exact (mem_parse_groupValue (hs _) h.below).mpr
      ⟨item, leads_iff.mpr ⟨member, hmember, hleads⟩, rfl⟩

end FirewallFactory

end RulesAnalyzer
