import RulesAnalyzer.FirewallFactory

/-!
# Isolation of loaded rules

The rules of a firewall refer to groups that all firewalls of a network share, and a
group is cached before it is filled.  Still no later load changes the packets of a
rule: once the criteria of a rule are built, its groups are only looked at.

## Main definitions

* `CriteriaRef.Valid` — all groups of a rule exist in the network.
* `FirewallFactory.BuildsCriteria` — the criteria of a row, built one after the other.
* `Session`, `Action` — the store, the network and the firewalls, and what happens to them.

## Main results

* `CriteriaRef.makeBdd_extends` — the diagram in an extended network is the same.
* `FirewallFactory.valid_buildCriteria` — the criteria of a row only refer to groups that exist.
* `Session.isolated` — **no later action changes the packets of a rule.**
-/

namespace RulesAnalyzer

open Diagram Effect Shared

/-! ### Groups in an extended network -/

namespace Network

variable {T S : Type} [Mnode S] {f : T → S}

/-- What a group holds in an extended registry. -/
theorem groupValue_extends {r r' : Registry String T} (hr : r.Sound) (hext : r.Extends r')
    {members : List (Member T)} (h : Below r.heap.length members) :
    groupValue f r' members = groupValue f r members :=
  fold_congr hr.descending hext.cells h (Nat.lt_succ_self _) (Nat.lt_succ_of_le hext.length_le)

theorem mem_parse_groupValue {r : Registry String T} (hr : r.Sound) {members : List (Member T)}
    (h : Below r.heap.length members) {a : S} :
    a ∈ (groupValue f r members).parse ↔ ∃ t, Leads r.heap members t ∧ a = f t := by
  have hbelow : Below r.heap.length (⟨"$root", members⟩ : Cell String T).members := h
  refine fold_iff (P := fun (group : Group S) a => a ∈ group.parse) (Q := fun t a => a = f t)
    ?_ ?_ ?_ hr.descending hbelow (Nat.lt_succ_self _)
  · exact fun _ _ => List.not_mem_nil
  · intro group item a
    rw [Group.parse, List.mem_append, List.mem_singleton]
  · intro group sub a
    rw [Group.parse, List.mem_append]

/-- **The packets of a group are those of the objects it leads to.** -/
theorem mem_groupValue {r : Registry String T} (hr : r.Sound) {members : List (Member T)}
    (h : Below r.heap.length members) {pk : Packet} :
    pk ∈ (groupValue f r members).makeBdd ↔
      ∃ t, Leads r.heap members t ∧ pk ∈ Mnode.makeBdd (f t) := by
  rw [Group.mem_makeBdd_iff_parse]
  constructor
  · rintro ⟨a, ha, hpk⟩
    obtain ⟨t, ht, rfl⟩ := (mem_parse_groupValue hr h).mp ha
    exact ⟨t, ht, hpk⟩
  · exact fun ⟨t, ht, hpk⟩ => ⟨f t, (mem_parse_groupValue hr h).mpr ⟨t, ht, rfl⟩, hpk⟩

/-- All groups exist. -/
abbrev Has (nw : Network) (k : Kind) (members : List (Member (Item k))) : Prop :=
  Below (nw.registries k).heap.length members

section Groups

variable {nw nw' : Network} (hs : nw.Sound) (hext : nw.Extends nw')

include hs hext

theorem zoneGroup_extends {side : Side} {members : List (Member (Item (.zone side)))}
    (h : nw.Has _ members) : nw'.zoneGroup side members = nw.zoneGroup side members :=
  groupValue_extends (hs _) (hext.registries _) h

theorem addressGroup_extends {side : Side} {members : List (Member (Item (.address side)))}
    (h : nw.Has _ members) : nw'.addressGroup side members = nw.addressGroup side members :=
  groupValue_extends (hs _) (hext.registries _) h

theorem serviceGroup_extends {members : List (Member (Item .service))} (h : nw.Has _ members) :
    nw'.serviceGroup members = nw.serviceGroup members :=
  congrArg (fun group => (⟨group, false⟩ : ServiceGroup))
    (groupValue_extends (hs _) (hext.registries _) h)

theorem applicationGroup_extends {useAppSvc : Bool}
    {members : List (Member (Item (.application useAppSvc)))} (h : nw.Has _ members) :
    nw'.applicationGroup useAppSvc members = nw.applicationGroup useAppSvc members :=
  groupValue_extends (hs _) (hext.registries _) h

theorem userGroup_extends {members : List (Member (Item .user))} (h : nw.Has _ members) :
    nw'.userGroup members = nw.userGroup members :=
  groupValue_extends (hs _) (hext.registries _) h

theorem urlGroup_extends {members : List (Member (Item .url))} (h : nw.Has _ members) :
    nw'.urlGroup members = nw.urlGroup members :=
  groupValue_extends (hs _) (hext.registries _) h

end Groups

theorem has_extends {nw nw' : Network} (hext : nw.Extends nw') {k : Kind}
    {members : List (Member (Item k))} (h : nw.Has k members) : nw'.Has k members :=
  h.mono (hext.registries k).length_le

end Network

/-- All groups of the services exist. -/
def ServicesRef.In (nw : Network) : ServicesRef → Prop
  | registered members => nw.Has .service members
  | appDefault _ => True

/-- All groups of the criteria exist, and default services are those of the applications. -/
structure CriteriaRef.Valid (nw : Network) (c : CriteriaRef) : Prop where
  srcZones : nw.Has _ c.srcZones
  srcAddresses : nw.Has _ c.srcAddresses
  dstZones : nw.Has _ c.dstZones
  dstAddresses : nw.Has _ c.dstAddresses
  services : c.services.In nw
  applications : nw.Has _ c.applications
  users : nw.Has _ c.users
  urls : nw.Has _ c.urls
  appDefault : (c.services.value nw).isAppServices = true → c.useAppSvc = true ∧
    c.services.value nw = defaultServices (nw.applicationGroup c.useAppSvc c.applications)

/-- The criteria of the predicate are valid. -/
def PredicateRef.Valid (nw : Network) : PredicateRef → Prop
  | ofCriteria criteria => criteria.Valid nw
  | any _ => True

section Extends

variable {nw nw' : Network} (hs : nw.Sound) (hext : nw.Extends nw')

include hext in
theorem ServicesRef.in_extends {services : ServicesRef} (h : services.In nw) :
    services.In nw' := by
  cases services with
  | registered members => exact Network.has_extends hext h
  | appDefault services => exact trivial

include hs hext

theorem ServicesRef.value_extends {services : ServicesRef} (h : services.In nw) :
    services.value nw' = services.value nw := by
  cases services with
  | registered members => exact Network.serviceGroup_extends hs hext h
  | appDefault services => rfl

theorem CriteriaRef.valid_extends {c : CriteriaRef} (h : c.Valid nw) : c.Valid nw' where
  srcZones := Network.has_extends hext h.srcZones
  srcAddresses := Network.has_extends hext h.srcAddresses
  dstZones := Network.has_extends hext h.dstZones
  dstAddresses := Network.has_extends hext h.dstAddresses
  services := ServicesRef.in_extends hext h.services
  applications := Network.has_extends hext h.applications
  users := Network.has_extends hext h.users
  urls := Network.has_extends hext h.urls
  appDefault := by
    rw [ServicesRef.value_extends hs hext h.services,
      Network.applicationGroup_extends hs hext h.applications]
    exact h.appDefault

/-- **The diagram of criteria in an extended network is the same.** -/
theorem CriteriaRef.makeBdd_extends {c : CriteriaRef} (h : c.Valid nw) :
    c.makeBdd nw' = c.makeBdd nw := by
  rw [CriteriaRef.makeBdd, CriteriaRef.makeBdd, Network.zoneGroup_extends hs hext h.srcZones,
    Network.zoneGroup_extends hs hext h.dstZones,
    Network.addressGroup_extends hs hext h.srcAddresses,
    Network.addressGroup_extends hs hext h.dstAddresses,
    ServicesRef.value_extends hs hext h.services,
    Network.applicationGroup_extends hs hext h.applications,
    Network.userGroup_extends hs hext h.users, Network.urlGroup_extends hs hext h.urls]

theorem PredicateRef.valid_extends {p : PredicateRef} (h : p.Valid nw) : p.Valid nw' := by
  cases p with
  | ofCriteria criteria => exact CriteriaRef.valid_extends hs hext h
  | any ipModel => exact trivial

theorem PredicateRef.makeBdd_extends {p : PredicateRef} (h : p.Valid nw) :
    p.makeBdd nw' = p.makeBdd nw := by
  cases p with
  | ofCriteria criteria => exact CriteriaRef.makeBdd_extends hs hext h
  | any ipModel => rfl

end Extends

/-! ### The predicate of a rule -/

/-- The criteria with the groups of the network. -/
def CriteriaRef.criteria {nw : Network} (hs : nw.Sound) (c : CriteriaRef) (h : c.Valid nw) :
    Criteria where
  sources := ⟨nw.zoneGroup .src c.srcZones, nw.addressGroup .src c.srcAddresses,
    c.negateSrcAddresses⟩
  destinations := ⟨nw.zoneGroup .dst c.dstZones, nw.addressGroup .dst c.dstAddresses,
    c.negateDstAddresses⟩
  services := c.services.value nw
  applications := nw.applicationGroup c.useAppSvc c.applications
  users := nw.userGroup c.users
  urls := nw.urlGroup c.urls
  appDefault := by
    intro happ
    refine ⟨(h.appDefault happ).2, fun a ha => ?_⟩
    obtain ⟨item, -, rfl⟩ :=
      (Network.mem_parse_groupValue (hs _) h.applications).mp (Group.mem_items.mp ha)
    exact item.property (h.appDefault happ).1

/-! ### The groups of a row exist -/

namespace FirewallFactory

open Network

variable {α : Type} {config : ModelConfig} {store : ObjectStore} {k : Kind}

theorem returns_onKindNames {p : Program (Registry String (Item k) × List String) Fault α}
    {s s' : Network × List String} {a : α} (h : Returns (onKindNames k p) s a s') :
    Returns p (s.1.registries k, s.2) a (s'.1.registries k, s'.2) := by
  obtain ⟨t, hrun, rfl⟩ := returns_zoom.mp h
  rwa [registries_setRegistry]

theorem has_buildAddressGroup {side : Side} {addresses : List String}
    {s s' : Network × List String} {members : List (Member (Item (.address side)))}
    (hs : s.1.Sound) (h : Returns (buildAddressGroup config store side addresses) s members s') :
    s'.1.Has _ members := by
  rw [buildAddressGroup, addressReference_eq] at h
  exact below_valuedReference _ (hs _) (returns_onKindNames h)

theorem has_buildServiceGroup {rule : RuleObject} {s s' : Network × List String}
    {members : List (Member (Item .service))} (hs : s.1.Sound)
    (h : Returns (buildServiceGroup store rule) s members s') : s'.1.Has _ members := by
  unfold buildServiceGroup at h
  split at h
  · obtain ⟨service, t, -, h⟩ := returns_bind.mp h
    obtain ⟨rfl, -⟩ := returns_pure.mp h
    exact below_item
  · rw [serviceReference_eq] at h
    exact below_valuedReference _ (hs _) (returns_onKindNames h)

/-- References to objects of the network that are registered one by one. -/
theorem has_build {O : Type} {reference : Reference Network (Item k) O}
    (hkeeps : reference.Keeping Step)
    (hgroup : ∀ nw name, reference.getGroup nw name = (nw.registries k).groups name)
    (hobject : ∀ object nw member nw',
      Returns (reference.registerObject object) nw member nw' → ∃ item, member = .item item)
    {names : List String} {s s' : Network × List String} {members : List (Member (Item k))}
    (hs : s.1.Sound) (h : Returns (reference.build names) s members s') : s'.1.Has k members := by
  refine below_iff.mpr (Reference.holds_build (P := fun nw member => nw.Has k [member]) hkeeps
    (fun _ _ _ hext hmember => has_extends hext hmember) ?_ hs h)
  intro name nw member nw' hnw hnw' hrefers
  refine @Reference.below_of_refers _ _ _ reference Sound
    (fun nw => (nw.registries k).heap.length) ?_ ?_ _ _ _ _ hnw hnw' hrefers
  · intro nw name id hsound hid
    rw [hgroup] at hid
    exact (hsound k).lt_length hid
  · intro object nw member nw' _ _ hrun
    obtain ⟨item, rfl⟩ := hobject object nw member nw' hrun
    exact below_item

theorem has_buildApplicationGroup {rule : RuleObject} {s s' : Network × List String}
    {members : List (Member (Item (.application rule.defaultAppServices)))} (hs : s.1.Sound)
    (h : Returns (buildApplicationGroup store rule) s members s') : s'.1.Has _ members := by
  refine has_build (keeping_applicationReference store _) (fun _ _ => rfl) ?_ hs h
  intro object nw member nw' hrun
  obtain ⟨services, nw'', -, hrun⟩ := returns_bind.mp hrun
  obtain ⟨item, -, rfl⟩ := returns_map.mp hrun
  exact ⟨item, rfl⟩

theorem has_buildUserGroup {rule : RuleObject} {s s' : Network × List String}
    {members : List (Member (Item .user))} (hs : s.1.Sound)
    (h : Returns (buildUserGroup store rule) s members s') : s'.1.Has _ members := by
  refine has_build (keeping_userReference store) (fun _ _ => rfl) ?_ hs h
  intro object nw member nw' hrun
  obtain ⟨item, -, rfl⟩ := returns_map.mp hrun
  exact ⟨item, rfl⟩

theorem has_buildUrlGroup {rule : RuleObject} {s s' : Network × List String}
    {members : List (Member (Item .url))} (hs : s.1.Sound)
    (h : Returns (buildUrlGroup store rule) s members s') : s'.1.Has _ members := by
  refine has_build (keeping_urlReference store) (fun _ _ => rfl) ?_ hs h
  intro object nw member nw' hrun
  obtain ⟨item, -, rfl⟩ := returns_map.mp hrun
  exact ⟨item, rfl⟩

theorem has_buildZoneGroup {side : Side} {zones : List String} {nw nw' : Network}
    {members : List (Member (Item (.zone side)))}
    (h : Returns (buildZoneGroup side zones) nw members nw') : nw'.Has _ members := by
  have hitems : ∀ member ∈ members, ∃ zone, member = .item zone := by
    refine @returns_foldlM _ _ _ _ _ (fun members (_ : Network) =>
      ∀ member ∈ members, ∃ zone : Item (.zone side), member = .item zone) zones ?_ _ _ _ _
      (fun _ hmem => absurd hmem List.not_mem_nil) h
    intro members nw name _ members' nw' hmembers hrun
    obtain ⟨zone, t, -, hpure⟩ := returns_bind.mp hrun
    obtain ⟨rfl, rfl⟩ := returns_pure.mp hpure
    intro member hmem
    rcases Registry.mem_pushMember.mp hmem with hmem | rfl
    · exact hmembers member hmem
    · exact ⟨zone, rfl⟩
  refine below_iff.mpr fun member hmem => ?_
  obtain ⟨zone, rfl⟩ := hitems member hmem
  exact below_item

/-- A criterion only refers to groups that exist once it is built. -/
def Refers (build : Program Loading Fault α) (holds : α → Network → Prop) : Prop :=
  Keeps Loading.Builds build ∧
    ∀ s a s', s.network.Sound → Returns build s a s' → holds a s'.network

theorem refers_onNames {names : NamesField} {p : Program (Network × List String) Fault α}
    {holds : α → Network → Prop} (hkeeps : Keeps (Through Prod.fst Step) p)
    (h : ∀ s a s', s.1.Sound → Returns p s a s' → holds a s'.1) :
    Refers (onNames names p) holds := by
  refine ⟨builds_onNames hkeeps, fun s a s' hs hbuild => ?_⟩
  obtain ⟨names, hrun⟩ := returns_onNames hbuild
  exact h _ a _ hs hrun

/-- The services of a row exist, or are the default services of the applications. -/
def ServicesOf (rule : RuleObject)
    (applications : List (Member (Item (.application rule.defaultAppServices))))
    (services : ServicesRef) (nw : Network) : Prop :=
  services.In nw ∧ ((services.value nw).isAppServices = true → rule.defaultAppServices = true ∧
    services.value nw = defaultServices (nw.applicationGroup _ applications))

theorem refers_buildServices (rule : RuleObject)
    (applications : List (Member (Item (.application rule.defaultAppServices)))) :
    Refers (buildServices store rule applications) (ServicesOf rule applications) := by
  refine ⟨keeps_buildServices store rule applications, fun s services s' hs hrun => ?_⟩
  unfold buildServices at hrun
  split at hrun
  · next hdefault =>
    obtain ⟨_, t, hget, hpure⟩ := returns_bind.mp hrun
    obtain ⟨rfl, rfl⟩ := returns_get.mp hget
    obtain ⟨rfl, rfl⟩ := returns_pure.mp hpure
    exact ⟨trivial, fun _ => ⟨hdefault, rfl⟩⟩
  · obtain ⟨members, hmembers, rfl⟩ := returns_map.mp hrun
    obtain ⟨names, hbuild⟩ := returns_onNames hmembers
    exact ⟨has_buildServiceGroup hs hbuild, fun h => absurd h Bool.false_ne_true⟩

theorem refers_buildZoneGroup (side : Side) (zones : List String) :
    Refers (onNetwork (buildZoneGroup side zones)) fun group nw => nw.Has _ group := by
  exact ⟨builds_onNetwork (keeps_buildZoneGroup side zones),
    fun s group s' _ hrun => has_buildZoneGroup (returns_onNetwork hrun)⟩

/-- A part of a row is built; whether it is empty does not change the network. -/
def Built (build : Program Loading Fault α) (s : Loading) (a : α) (s' : Loading) : Prop :=
  ∃ t, Returns build s a t ∧ s'.network = t.network

theorem built_of_criterion {build : Program Loading Fault α} {isEmpty : α → Network → Bool}
    {report : LoaderStatus → LoaderStatus} {s s' : Loading} {a : α × Bool}
    (h : Returns (criterion build isEmpty report) s a s') : Built build s a.1 s' := by
  obtain ⟨group, t, hbuild, h⟩ := returns_bind.mp h
  obtain ⟨t', t'', hget, h⟩ := returns_bind.mp h
  obtain ⟨rfl, rfl⟩ := returns_get.mp hget
  split at h
  · obtain ⟨_, t', hreport, h⟩ := returns_bind.mp h
    obtain ⟨rfl, rfl⟩ := returns_pure.mp h
    obtain rfl := returns_modify.mp hreport
    exact ⟨t, hbuild, rfl⟩
  · obtain ⟨rfl, rfl⟩ := returns_pure.mp h
    exact ⟨t, hbuild, rfl⟩

/-- The criteria of a row, built one after the other. -/
inductive BuildsCriteria (config : ModelConfig) (store : ObjectStore) (rule : RuleObject)
    (s : Loading) : CriteriaRef → Loading → Prop
  | intro {s₁ s₂ s₃ s₄ s₅ s₆ s₇ s' : Loading} {srcZones : List (Member (Item (.zone .src)))}
      {srcAddresses : List (Member (Item (.address .src)))}
      {dstZones : List (Member (Item (.zone .dst)))}
      {dstAddresses : List (Member (Item (.address .dst)))} {services : ServicesRef}
      {applications : List (Member (Item (.application rule.defaultAppServices)))}
      {users : List (Member (Item .user))} {urls : List (Member (Item .url))}
      (hsrc : Built (onAddresses (buildAddressGroup config store .src rule.sourceAddresses)) s
        srcAddresses s₁)
      (hdst : Built (onAddresses (buildAddressGroup config store .dst rule.destinationAddresses)) s₁
        dstAddresses s₂)
      (happ : Built (onApplications (buildApplicationGroup store rule)) s₂ applications s₃)
      (hsvc : Built (buildServices store rule applications) s₃ services s₄)
      (hsrcZone : Built (onNetwork (buildZoneGroup .src rule.sourceZones)) s₄ srcZones s₅)
      (hdstZone : Built (onNetwork (buildZoneGroup .dst rule.destinationZones)) s₅ dstZones s₆)
      (huser : Built (onUsers (buildUserGroup store rule)) s₆ users s₇)
      (hurl : Built (onUrls (buildUrlGroup store rule)) s₇ urls s') :
      BuildsCriteria config store rule s
        { srcZones, srcAddresses, dstZones, dstAddresses, services, applications, users, urls
          negateSrcAddresses := rule.negateSourceAddresses
          negateDstAddresses := rule.negateDestinationAddresses
          useAppSvc := rule.defaultAppServices } s'

/-- **What building the criteria of a row does.** -/
theorem builds_buildCriteria {rule : RuleObject} {s s' : Loading} {criteria : CriteriaRef × Bool}
    (h : Returns (buildCriteria config store rule) s criteria s') :
    BuildsCriteria config store rule s criteria.1 s' := by
  obtain ⟨src, s₁, hsrc, h⟩ := returns_bind.mp h
  obtain ⟨dst, s₂, hdst, h⟩ := returns_bind.mp h
  obtain ⟨app, s₃, happ, h⟩ := returns_bind.mp h
  obtain ⟨svc, s₄, hsvc, h⟩ := returns_bind.mp h
  obtain ⟨srcZone, s₅, hsrcZone, h⟩ := returns_bind.mp h
  obtain ⟨dstZone, s₆, hdstZone, h⟩ := returns_bind.mp h
  obtain ⟨user, s₇, huser, h⟩ := returns_bind.mp h
  obtain ⟨url, s₈, hurl, h⟩ := returns_bind.mp h
  obtain ⟨rfl, rfl⟩ := returns_pure.mp h
  exact .intro (built_of_criterion hsrc) (built_of_criterion hdst) (built_of_criterion happ)
    (built_of_criterion hsvc) (built_of_criterion hsrcZone) (built_of_criterion hdstZone)
    (built_of_criterion huser) (built_of_criterion hurl)

/-- What holds of a group when it is built holds of it in the network then. -/
theorem Refers.built {build : Program Loading Fault α} {holds : α → Network → Prop}
    (h : Refers build holds) {s s' : Loading} {a : α} (hs : s.network.Sound)
    (hbuilt : Built build s a s') :
    holds a s'.network ∧ s'.network.Sound ∧ s.network.Extends s'.network := by
  obtain ⟨t, hbuild, hsame⟩ := hbuilt
  have hstep := (h.1.returns hbuild).network hs
  rw [hsame]
  exact ⟨h.2 s a t hs hbuild, hstep⟩

/-- **The criteria of a row only refer to groups that exist.**  Each group exists when it is
built, and everything that is built after it only extends the network. -/
theorem valid_buildCriteria {rule : RuleObject} {s s' : Loading} {criteria : CriteriaRef × Bool}
    (hs : s.network.Sound) (h : Returns (buildCriteria config store rule) s criteria s') :
    criteria.1.Valid s'.network := by
  have hbuilds := builds_buildCriteria h
  generalize criteria.1 = built at hbuilds ⊢
  cases hbuilds with
  | intro hsrc hdst happ hsvc hsrcZone hdstZone huser hurl =>
    have haddress : ∀ side names, Refers (onAddresses (buildAddressGroup config store side names))
        fun group nw => nw.Has _ group := fun side names =>
      refers_onNames (keeps_buildAddressGroup config store side names)
        fun _ _ _ => has_buildAddressGroup
    obtain ⟨hsrc, hs₁, -⟩ := (haddress _ _).built hs hsrc
    obtain ⟨hdst, hs₂, h₂⟩ := (haddress _ _).built hs₁ hdst
    have happlications : Refers (onApplications (buildApplicationGroup store rule))
        fun group nw => nw.Has _ group :=
      refers_onNames ((keeping_applicationReference store _).build _)
        fun _ _ _ => has_buildApplicationGroup
    obtain ⟨happ, hs₃, h₃⟩ := happlications.built hs₂ happ
    obtain ⟨⟨hsvc, hdefault⟩, hs₄, h₄⟩ := (refers_buildServices rule _).built hs₃ hsvc
    obtain ⟨hsrcZone, hs₅, h₅⟩ := (refers_buildZoneGroup _ _).built hs₄ hsrcZone
    obtain ⟨hdstZone, hs₆, h₆⟩ := (refers_buildZoneGroup _ _).built hs₅ hdstZone
    have husers : Refers (onUsers (buildUserGroup store rule)) fun group nw => nw.Has _ group :=
      refers_onNames ((keeping_userReference store).build _) fun _ _ _ => has_buildUserGroup
    obtain ⟨huser, hs₇, h₇⟩ := husers.built hs₆ huser
    have hurls : Refers (onUrls (buildUrlGroup store rule)) fun group nw => nw.Has _ group :=
      refers_onNames ((keeping_urlReference store).build _) fun _ _ _ => has_buildUrlGroup
    obtain ⟨hurl, -, h₈⟩ := hurls.built hs₇ hurl
    -- each group exists when it is built, and the rest of the criteria extends the network
    have e₇ := h₈
    have e₆ := Trans.trans h₇ e₇
    have e₅ := Trans.trans h₆ e₆
    have e₄ := Trans.trans h₅ e₅
    have e₃ := Trans.trans h₄ e₄
    have e₂ := Trans.trans h₃ e₃
    have e₁ := Trans.trans h₂ e₂
    exact {
      srcZones := has_extends e₅ hsrcZone
      srcAddresses := has_extends e₁ hsrc
      dstZones := has_extends e₆ hdstZone
      dstAddresses := has_extends e₂ hdst
      services := ServicesRef.in_extends e₄ hsvc
      applications := has_extends e₃ happ
      users := has_extends e₇ huser
      urls := hurl
      appDefault := by
        rw [ServicesRef.value_extends hs₄ e₄ hsvc,
          applicationGroup_extends hs₄ e₄ (has_extends h₄ happ)]
        exact hdefault }

end FirewallFactory

/-! ### Sessions -/

/-- The object store, the network, and the rules of each firewall. -/
structure Session where
  store : ObjectStore
  network : Network
  firewalls : String → List RuleRef

/-- What changes a session.  A load of a policy clears the firewall, adds the rules of the rows
until a row raises, and a rule that denies everything at the end; a load, a redefinition or a
clear of objects leaves some store. -/
inductive Action
  | setStore (store : ObjectStore)
  | clear (name : String)
  | addRule (name : String) (rule : RuleObject) (status : LoaderStatus)
  | addDenyAllRule (name : String)

namespace Session

/-- A session without firewalls. -/
def fresh (config : ModelConfig) (store : ObjectStore) : Session :=
  ⟨store, .fresh config, fun _ => []⟩

/-- The state of the loader for a firewall. -/
def loading (s : Session) (name : String) (status : LoaderStatus) : Loading :=
  ⟨s.network, s.firewalls name, status⟩

/-- The session after a step of the loader of a firewall. -/
def update (s : Session) (name : String) (state : Loading) : Session :=
  { s with network := state.network, firewalls := Function.update s.firewalls name state.rules }

/-- The session after an action.  What a row did before it raised stays. -/
def step (config : ModelConfig) (s : Session) : Action → Session
  | .setStore store => { s with store := store }
  | .clear name => { s with firewalls := Function.update s.firewalls name [] }
  | .addRule name rule status => s.update name
      (exec (FirewallFactory.addRule config s.store rule) (s.loading name status)).2
  | .addDenyAllRule name => s.update name
      (FirewallFactory.addDenyAllRule config (s.loading name {}))

/-- The session after a list of actions. -/
def run (config : ModelConfig) (s : Session) (actions : List Action) : Session :=
  actions.foldl (step config) s

theorem run_append (config : ModelConfig) (s : Session) (before after : List Action) :
    s.run config (before ++ after) = (s.run config before).run config after :=
  List.foldl_append

/-- The network is sound, and the rules are valid in it. -/
structure Good (s : Session) : Prop where
  sound : s.network.Sound
  valid : ∀ name, ∀ rule ∈ s.firewalls name, rule.predicate.Valid s.network

theorem good_fresh (config : ModelConfig) (store : ObjectStore) : (fresh config store).Good :=
  ⟨Network.sound_fresh config, fun _ _ h => absurd h List.not_mem_nil⟩

/-- A step of the loader that extends the network and only adds valid rules. -/
theorem good_update {s : Session} (hs : s.Good) {name : String} {state : Loading}
    (hstep : Network.Step s.network state.network)
    (hrules : ∀ rule ∈ state.rules, rule ∈ s.firewalls name ∨ rule.predicate.Valid state.network) :
    (s.update name state).Good ∧ s.network.Extends (s.update name state).network := by
  obtain ⟨hsound, hext⟩ := hstep hs.sound
  refine ⟨⟨hsound, fun name' rule hrule => ?_⟩, hext⟩
  have hold : ∀ name, rule ∈ s.firewalls name → rule.predicate.Valid state.network :=
    fun name h => PredicateRef.valid_extends hs.sound hext (hs.valid name rule h)
  by_cases hname : name' = name
  · subst hname
    simp only [update, Function.update_self] at hrule
    exact (hrules rule hrule).elim (hold name') id
  · simp only [update, Function.update_of_ne hname] at hrule
    exact hold name' hrule

/-- The rules after `addRule` are the old ones, and perhaps one that is valid. -/
theorem valid_addRule (config : ModelConfig) (store : ObjectStore) (rule : RuleObject) {s : Loading}
    (hs : s.network.Sound) :
    Network.Step s.network (exec (FirewallFactory.addRule config store rule) s).2.network ∧
      ∀ r ∈ (exec (FirewallFactory.addRule config store rule) s).2.rules, r ∈ s.rules ∨
        r.predicate.Valid (exec (FirewallFactory.addRule config store rule) s).2.network := by
  have hadds := FirewallFactory.addsRule config store rule s
  generalize exec (FirewallFactory.addRule config store rule) s = result at hadds ⊢
  cases hadds with
  | malformed h => exact ⟨refl _, fun r hr => Or.inl hr⟩
  | raised _ _ hrun =>
    have hbuilds := FirewallFactory.builds_of_exec config store hrun
    exact ⟨hbuilds.network, fun r hr => Or.inl (hbuilds.rules ▸ hr)⟩
  | rejected _ _ hrun _ =>
    have hbuilds := FirewallFactory.builds_of_exec config store hrun
    exact ⟨hbuilds.network, fun r hr => Or.inl (hbuilds.rules ▸ hr)⟩
  | added _ _ hrun _ =>
    have hbuilds := FirewallFactory.builds_of_exec config store hrun
    refine ⟨hbuilds.network, fun r hr => ?_⟩
    rcases List.mem_append.mp hr with hr | hr
    · exact Or.inl (hbuilds.rules ▸ hr)
    · obtain rfl := List.mem_singleton.mp hr
      exact Or.inr (FirewallFactory.valid_buildCriteria hs hrun)

/-- **Every action extends the network and leaves valid rules.** -/
theorem good_step (config : ModelConfig) {s : Session} (hs : s.Good) (action : Action) :
    (s.step config action).Good ∧ s.network.Extends (s.step config action).network := by
  cases action with
  | setStore store => exact ⟨⟨hs.sound, hs.valid⟩, refl _⟩
  | clear name =>
    refine ⟨⟨hs.sound, fun name' rule hrule => ?_⟩, refl _⟩
    by_cases hname : name' = name
    · subst hname
      simp only [step, Function.update_self] at hrule
      exact absurd hrule List.not_mem_nil
    · simp only [step, Function.update_of_ne hname] at hrule
      exact hs.valid name' rule hrule
  | addRule name rule status =>
    have hsound : (s.loading name status).network.Sound := hs.sound
    obtain ⟨hstep, hrules⟩ := valid_addRule config s.store rule hsound
    exact good_update hs hstep hrules
  | addDenyAllRule name =>
    refine good_update hs (refl _) fun rule hrule => ?_
    rcases List.mem_append.mp hrule with hrule | hrule
    · exact Or.inl hrule
    · obtain rfl := List.mem_singleton.mp hrule
      exact Or.inr trivial

theorem good_run (config : ModelConfig) {s : Session} (hs : s.Good) (actions : List Action) :
    (s.run config actions).Good ∧ s.network.Extends (s.run config actions).network := by
  induction actions generalizing s with
  | nil => exact ⟨hs, refl _⟩
  | cons action actions ih =>
    obtain ⟨hgood, hext⟩ := good_step config hs action
    obtain ⟨hrun, hrest⟩ := ih hgood
    exact ⟨hrun, Trans.trans hext hrest⟩

/-- **Loaded rules are isolated from later changes.**  Whatever happens to the object store and
whatever is loaded into the firewalls of the network after a rule was added, the rule holds the
same packets. -/
theorem isolated (config : ModelConfig) (store : ObjectStore) (before after : List Action)
    (name : String) (rule : RuleRef)
    (h : rule ∈ ((fresh config store).run config before).firewalls name) (pk : Packet) :
    pk ∈ rule.predicate.makeBdd ((fresh config store).run config (before ++ after)).network ↔
      pk ∈ rule.predicate.makeBdd ((fresh config store).run config before).network := by
  obtain ⟨hgood, -⟩ := good_run config (good_fresh config store) before
  have hext := (good_run config hgood after).2
  rw [run_append, PredicateRef.makeBdd_extends hgood.sound hext (hgood.valid name rule h)]

theorem isolated_witness :
    ∃ rule ∈ ((fresh .dotted (.builtin .ip4Model)).run .dotted
      [.addRule "fw" (.ofServices 1 ["tcp/80"]) {}]).firewalls "fw", ∀ pk : Packet,
      pk ∈ rule.predicate.makeBdd ((fresh .dotted (.builtin .ip4Model)).run .dotted
        ([.addRule "fw" (.ofServices 1 ["tcp/80"]) {}] ++
          [.addRule "other" (.ofServices 1 ["tcp/80", "udp/53"]) {}])).network ↔
        pk ∈ rule.predicate.makeBdd ((fresh .dotted (.builtin .ip4Model)).run .dotted
          [.addRule "fw" (.ofServices 1 ["tcp/80"]) {}]).network := by
  have hlength : (((fresh .dotted (.builtin .ip4Model)).run .dotted
      [.addRule "fw" (.ofServices 1 ["tcp/80"]) {}]).firewalls "fw").length = 1 := by
    decide +kernel
  obtain ⟨rule, hrule⟩ := List.exists_mem_of_length_pos (hlength ▸ Nat.one_pos)
  exact ⟨rule, hrule, fun pk => isolated .dotted (.builtin .ip4Model) _
    [.addRule "other" (.ofServices 1 ["tcp/80", "udp/53"]) {}] "fw" rule hrule pk⟩

end Session

end RulesAnalyzer
