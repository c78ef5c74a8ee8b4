import RulesAnalyzer.CachedGroups
import RulesAnalyzer.ObjectLoader

/-!
# The objects of a loaded store

What is loaded into the store is used later, when a rule refers to it by name.  The loaders
check the fields of a row, but not all that the later use relies on: the text `any` is no
service for the network, and builtin names are not protected everywhere.

## Main definitions

* `AddressObject.Buildable` — rules can be built from an object.
* `ObjectStore.HasBuiltins` — the builtin names have their builtin definitions.
* `ObjectStore.SparesBuiltins` — a file has no address or pool with a builtin name.

## Main results

* `ObjectStore.loaded_buildable` — **rules can be built from loaded addresses.**
* `ObjectStore.loaded_hasBuiltins` — **loads keep the builtin definitions**, if no file of
  addresses redefines them.
* `FirewallFactory.accepted_service_iff` — **which loaded services are registered.**
-/

namespace RulesAnalyzer

open Csv Effect Shared

/-! ### Addresses -/

/-- The object has an address, all its addresses are read on both sides, and on both sides the
object is registered without an exception. -/
structure AddressObject.Buildable (config : ModelConfig) (store : ObjectStore)
    (object : AddressObject) : Prop where
  nonempty : object.addresses ≠ []
  created : ∀ address ∈ object.addresses, ∀ (side : Side) (name : String),
    ∃ a : IpAddress side, IpAddress.create config.inet name address config.ipModel
      config.strictIpParser = .ok a
  registered : ∀ (side : Side) (r : Registry String (Item (.address side))), ∃ member r',
    Returns ((FirewallFactory.addressReference config store side).registerObject object.valued)
      r member r'

/-- Rules can be built from an object whose addresses are read. -/
theorem AddressObjects.Usable.buildable {config : OstoreConfig} {object : AddressObject}
    (h : Usable config object) (store : ObjectStore) :
    object.Buildable config.modelConfig store := by
  have hcreated : ∀ address ∈ object.addresses, ∀ (side : Side) (name : String),
      ∃ a : IpAddress side, IpAddress.create config.modelConfig.inet name address
        config.modelConfig.ipModel config.modelConfig.strictIpParser = .ok a :=
    fun address haddress _ name =>
      IpAddress.create_of_isIpAddress name (h.isIpAddress address haddress)
  refine ⟨h.nonempty, hcreated, fun side r => ?_⟩
  rw [FirewallFactory.addressReference_eq]
  exact Network.returns_registerValued_iff.mpr <| Network.objectRegistrable_of_forall h.nonempty
    (fun address haddress => hcreated address haddress side) r

namespace ObjectStore

/-- The objects of a dictionary after a load were there before, or were made of a row. -/
theorem mem_loaded {T : Type} [FirewallObject T] {makeObject : CsvValues → Except Fault (Option T)}
    {dictionary : ObjectDictionary T} {rows : List CsvValues} {object : T}
    (h : object ∈ loaded makeObject dictionary rows) :
    object ∈ dictionary ∨ ∃ values ∈ rows, makeObject values = .ok (some object) := by
  refine ObjectDictionary.load_induction (P := fun d => ∀ object ∈ d, object ∈ dictionary ∨
    ∃ values ∈ rows, makeObject values = .ok (some object)) ?_ (fun _ => Or.inl) object h
  intro values hvalues item hitem d hd other hother
  rcases ObjectDictionary.mem_add hother with rfl | hother
  · exact Or.inr ⟨values, hvalues, hitem⟩
  · exact hd other hother

/-- **Rules can be built from loaded addresses.**  After any loads of any files, the objects that
were loaded and are no host names have an address, and all their addresses are read and
registered without an exception. -/
theorem loaded_buildable (config : OstoreConfig) (store : ObjectStore) (files : List StoreFile)
    (object : AddressObject) (hobject : object ∈ (store.loadAll config files).addresses)
    (htype : object.type ≠ .fqdn) : object ∈ store.addresses ∨
      object.Buildable config.modelConfig (store.loadAll config files) := by
  have hrun : ∀ object ∈ (store.loadAll config files).addresses, object.type ≠ .fqdn →
      object ∈ store.addresses ∨ AddressObjects.Usable config object := by
    clear hobject
    induction files generalizing store with
    | nil => exact fun _ hobject _ => Or.inl hobject
    | cons file files ih =>
      intro object hobject htype
      rcases ih (store.load config file) object hobject htype with hold | husable
      · cases file with
        | addresses rows =>
          rcases mem_loaded hold with hold | ⟨values, -, hmake⟩
          · exact Or.inl hold
          · exact Or.inr (AddressObjects.usable_of_makeObject hmake htype)
        | _ => exact Or.inl hold
      · exact Or.inr husable
  exact (hrun object hobject htype).imp_right fun husable => husable.buildable _

/-- IPv4 addresses, lists with semicolons, and no other files. -/
def semicolons : OstoreConfig := ⟨.dotted, ';', fun _ => none⟩

/-- The second row would make an object without an address; the program ends there. -/
theorem loaded_buildable_witness :
    (⟨"net", .ipmask, ["10.0.0.0/8", "11.0.0.0/8"]⟩ : AddressObject) ∈
        (builtin .ip4Model).addresses ∨
      AddressObject.Buildable .dotted ((builtin .ip4Model).loadAll semicolons
        [.addresses [["net", "ipmask", "10.0.0.0/8;11.0.0.0/8"], ["net", "ipmask", ";"]]])
        ⟨"net", .ipmask, ["10.0.0.0/8", "11.0.0.0/8"]⟩ :=
  loaded_buildable semicolons (builtin .ip4Model)
    [.addresses [["net", "ipmask", "10.0.0.0/8;11.0.0.0/8"], ["net", "ipmask", ";"]]] _
    (by decide +kernel) nofun

/-! ### Builtin definitions -/

/-- The names of the builtin addresses. -/
def builtinAddresses : IPAddressModel → List String
  | .ip64Model => ["any4", "any6"]
  | _ => ["any"]

/-- The names the store starts with have their builtin definitions. -/
structure HasBuiltins (ipModel : IPAddressModel) (store : ObjectStore) : Prop where
  addresses : ∀ name ∈ builtinAddresses ipModel,
    ObjectDictionary.get store.addresses name = some ⟨name, .ipmask, [name]⟩
  /-- The name `any` stands for the pool of the builtin addresses of both families. -/
  anyPool : ipModel = .ip64Model → ObjectDictionary.get store.addresses "any" = none ∧
    ObjectDictionary.get store.addressPools "any" = some ⟨"any", ["any4", "any6"]⟩
  services : ∀ name, isBuiltinService name = true →
    ObjectDictionary.get store.services name = some ⟨name, [name]⟩
  applications : ∀ name, isBuiltinService name = true →
    ObjectDictionary.get store.applications name = some ⟨name, [name]⟩
  user : ObjectDictionary.get store.users "any" = some ⟨"any"⟩
  url : ObjectDictionary.get store.urls "any" = some ⟨"any"⟩

/-- The file has no address, and no pool of addresses, that takes a builtin name for another
definition.  The loaders of the other files check that themselves. -/
def SparesBuiltins (config : OstoreConfig) : StoreFile → Prop
  | .addresses rows => ∀ values ∈ rows, ∀ object : AddressObject,
    AddressObjects.makeObject config values = .ok (some object) →
      (object.name ∈ builtinAddresses config.modelConfig.ipModel →
        object = ⟨object.name, .ipmask, [object.name]⟩) ∧
      (config.modelConfig.ipModel = .ip64Model → object.name ≠ "any")
  | .addressPools rows => config.modelConfig.ipModel = .ip64Model → ∀ values ∈ rows,
    ∀ pool : PoolObject, Pools.makeObject config.csvListDelimiter values = .ok (some pool) →
      pool.name = "any" → pool.members = ["any4", "any6"]
  | _ => True

/-- A definition stays in a dictionary, when no row makes another object of its name. -/
theorem get_loaded {T : Type} [FirewallObject T]
    {makeObject : CsvValues → Except Fault (Option T)} {dictionary : ObjectDictionary T}
    {rows : List CsvValues} {name : String} {value : Option T}
    (h : ObjectDictionary.get dictionary name = value)
    (hmake : ∀ values ∈ rows, ∀ object, makeObject values = .ok (some object) →
      FirewallObject.name object = name → some object = value) :
    ObjectDictionary.get (loaded makeObject dictionary rows) name = value := by
  refine ObjectDictionary.load_induction
    (P := fun d => ObjectDictionary.get d name = value) ?_ h
  intro values hvalues object hobject d hd
  rw [ObjectDictionary.get_add]
  split
  · next hname => exact hmake values hvalues object hobject hname.symm
  · exact hd

/-- The store starts with its builtin definitions. -/
theorem hasBuiltins_clear (store : ObjectStore) (ipModel : IPAddressModel) :
    (store.clear ipModel).HasBuiltins ipModel := by
  have hservice : ∀ name, isBuiltinService name = true →
      name = "icmp" ∨ name = "udp" ∨ name = "tcp" ∨ name = "any" := by
    intro name hname
    simpa [isBuiltinService, or_assoc] using hname
  refine ⟨?_, ?_, ?_, ?_, rfl, rfl⟩
  · intro name hname
    cases ipModel with
    | ip64Model =>
      rcases List.mem_cons.mp hname with rfl | hname
      · rfl
      · obtain rfl := List.mem_singleton.mp hname
        rfl
    | _ =>
      obtain rfl := List.mem_singleton.mp hname
      rfl
  · rintro rfl
    exact ⟨rfl, rfl⟩
  · intro name hname
    rcases hservice name hname with rfl | rfl | rfl | rfl <;> rfl
  · intro name hname
    rcases hservice name hname with rfl | rfl | rfl | rfl <;> rfl

/-- The loaders of services and of applications leave builtin names alone. -/
theorem name_ne_of_makeServices {T : Type} [FirewallObject T] {known : String → Bool}
    {what empty blank : String} {mk : String → List String → T} {delimiter : Char}
    {values : CsvValues} {object : T} {builtin : String}
    (hmk : ∀ name services, FirewallObject.name (mk name services) = name)
    (h : makeServices known (makeListed what empty blank mk) delimiter values = .ok (some object))
    (hbuiltin : isBuiltinService builtin = true) : FirewallObject.name object ≠ builtin := by
  obtain ⟨name, services, rfl, hname, -, -⟩ := of_makeServices h
  rw [hmk]
  rintro rfl
  exact Bool.false_ne_true (hname.symm.trans hbuiltin)

/-- The loaders of users and of urls leave the name `any` alone. -/
theorem name_ne_of_makeNamed {T : Type} [FirewallObject T] {mk : String → T} {values : CsvValues}
    {object : T} (hmk : ∀ name, FirewallObject.name (mk name) = name)
    (h : makeNamed mk values = .ok (some object)) : FirewallObject.name object ≠ "any" := by
  unfold makeNamed at h
  split at h
  · split_ifs at h with hname hany
    · cases h
    · cases h
    · obtain rfl := Option.some.inj (Except.ok.inj h)
      rw [hmk]
      exact fun heq => hany (beq_iff_eq.mpr heq)
  · cases h

/-- A load of a file that spares the builtin names keeps the builtin definitions.  Services,
applications, users and urls refuse the names by themselves. -/
theorem HasBuiltins.load {config : OstoreConfig} {store : ObjectStore} {file : StoreFile}
    (h : store.HasBuiltins config.modelConfig.ipModel) (hspares : SparesBuiltins config file) :
    (store.load config file).HasBuiltins config.modelConfig.ipModel := by
  cases file with
  | addresses rows =>
    -- in the model with both families the name `any` belongs to a pool
    refine { h with addresses := fun name hname => ?_, anyPool := fun hmodel => ⟨?_, ?_⟩ }
    · refine get_loaded (h.addresses name hname) fun values hvalues object hobject hobjectName => ?_
      subst hobjectName
      exact congrArg some ((hspares values hvalues object hobject).1 hname)
    · refine get_loaded (h.anyPool hmodel).1 fun values hvalues object hobject hobjectName => ?_
      exact absurd hobjectName ((hspares values hvalues object hobject).2 hmodel)
    · exact (h.anyPool hmodel).2
  | addressPools rows =>
    refine { h with anyPool := fun hmodel => ⟨(h.anyPool hmodel).1, ?_⟩ }
    refine get_loaded (h.anyPool hmodel).2 fun values hvalues pool hpool hpoolName => ?_
    have hmembers := hspares hmodel values hvalues pool hpool hpoolName
    exact congrArg some (congrArg₂ PoolObject.mk hpoolName hmembers)
  | services rows =>
    refine { h with services := fun name hname => ?_ }
    refine get_loaded (h.services name hname) fun values _ object hobject hobjectName => ?_
    exact absurd hobjectName (name_ne_of_makeServices (fun _ _ => rfl) hobject hname)
  | applications rows =>
    refine { h with applications := fun name hname => ?_ }
    refine get_loaded (h.applications name hname) fun values _ object hobject hobjectName => ?_
    exact absurd hobjectName (name_ne_of_makeServices (fun _ _ => rfl) hobject hname)
  | users rows =>
    refine { h with user := get_loaded h.user fun values _ object hobject hobjectName => ?_ }
    exact absurd hobjectName (name_ne_of_makeNamed (fun _ => rfl) hobject)
  | urls rows =>
    refine { h with url := get_loaded h.url fun values _ object hobject hobjectName => ?_ }
    exact absurd hobjectName (name_ne_of_makeNamed (fun _ => rfl) hobject)
  | _ => exact { h with }

/-- **Loads keep the builtin definitions.**  After the store is cleared and any files are loaded
in any order, the names the store starts with have their builtin definitions, if no file of
addresses or of pools of addresses takes one of these names. -/
theorem loaded_hasBuiltins (config : OstoreConfig) (store : ObjectStore) (files : List StoreFile)
    (hspares : ∀ file ∈ files, SparesBuiltins config file) :
    ((store.clear config.modelConfig.ipModel).loadAll config files).HasBuiltins
      config.modelConfig.ipModel := by
  have hrun : ∀ store : ObjectStore, store.HasBuiltins config.modelConfig.ipModel →
      (store.loadAll config files).HasBuiltins config.modelConfig.ipModel := by
    induction files with
    | nil => exact fun _ h => h
    | cons file files ih =>
      intro store h
      exact ih (fun other hother => hspares other (List.mem_cons_of_mem _ hother)) _
        (h.load (hspares file List.mem_cons_self))
  exact hrun _ (hasBuiltins_clear store _)

theorem loaded_hasBuiltins_witness : HasBuiltins .ip4Model
    ((clear (builtin .ip4Model) .ip4Model).loadAll semicolons
      [.addresses [["net", "ipmask", "10.0.0.0/8"]], .services [["any", "tcp/80"]]]) := by
  refine loaded_hasBuiltins semicolons _ _ fun file hfile => ?_
  rcases List.mem_cons.mp hfile with rfl | hfile
  · intro values hvalues object hobject
    obtain rfl := List.mem_singleton.mp hvalues
    have hmake : AddressObjects.makeObject semicolons ["net", "ipmask", "10.0.0.0/8"] =
        .ok (some ⟨"net", .ipmask, ["10.0.0.0/8"]⟩) := by decide +kernel
    obtain rfl := Option.some.inj (Except.ok.inj (hmake.symm.trans hobject))
    decide
  · obtain rfl := List.mem_singleton.mp hfile
    trivial

/-- The loader of addresses has no guard: a row turns `any` into a single host. -/
theorem loaded_redefines_any : ¬HasBuiltins .ip4Model
    ((clear (builtin .ip4Model) .ip4Model).loadAll semicolons
      [.addresses [["any", "ipmask", "10.0.0.1"]]]) := by
  intro h
  have hget : ObjectDictionary.get ((clear (builtin .ip4Model) .ip4Model).loadAll semicolons
      [.addresses [["any", "ipmask", "10.0.0.1"]]]).addresses "any" =
        some ⟨"any", .ipmask, ["10.0.0.1"]⟩ := by decide +kernel
  have hany := hget.symm.trans (h.addresses "any" (by decide))
  revert hany
  decide

end ObjectStore

/-! ### Services -/

/-- The text `any` is no protocol. -/
theorem Service.create_any (name : String) : ∀ service, create name "any" ≠ .ok service := by
  intro service h
  obtain ⟨range, hrange, -⟩ := create_eq_ok.mp h
  have hparse : parseProtocolPort "any" = .error (.serviceError "any") := by decide
  exact nomatch hparse.symm.trans hrange

/-- Texts that were checked are created as services, except for the text `any`. -/
theorem Service.create_iff {name value : String}
    (h : value = "any" ∨ ∃ range, parseProtocolPort value = .ok range) :
    (∃ service, create name value = .ok service) ↔ value ≠ "any" := by
  constructor
  · rintro ⟨service, hservice⟩ rfl
    exact create_any name service hservice
  · intro hne
    obtain ⟨range, hrange⟩ := h.resolve_left hne
    exact ⟨_, create_eq_ok.mpr ⟨range, hrange, rfl⟩⟩

/-- No element of a group has the name `any`. -/
theorem indexedName_ne_any (name : String) (idx : ℕ) : indexedName name idx ≠ "any" := by
  intro h
  have hlast : (indexedName name idx).toList.getLast? = some ']' := by
    rw [indexedName, String.toList_append, List.getLast?_append]
    rfl
  rw [h] at hlast
  exact absurd hlast (by decide)

namespace FirewallFactory

/-- A registry of services at the start has nothing cached but `any`. -/
theorem items_fresh (config : ModelConfig) {name : String} (hname : name ≠ "any") :
    (Network.freshRegistry config .service).items name = none := Function.update_of_ne hname ..

/-- No object that was accepted has the name of any service. -/
theorem name_ne_any {delimiter : Char} {values : CsvValues} {object : ServiceObject}
    (hmake : ServiceObjects.makeObject delimiter values = .ok (some object)) :
    object.name ≠ "any" := by
  intro h
  have hbuiltin := (ServiceObjects.of_makeObject hmake).1
  rw [h] at hbuiltin
  exact absurd hbuiltin (by decide)

/-- The services of an object that was accepted are registered in a registry without other
services, unless `any` is one of them. -/
theorem objectRegistrable_iff (config : ModelConfig) {delimiter : Char} {values : CsvValues}
    {object : ServiceObject}
    (hmake : ServiceObjects.makeObject delimiter values = .ok (some object)) :
    Network.ObjectRegistrable Service.create object.valued
      (Network.freshRegistry config .service) ↔ "any" ∉ object.services := by
  obtain ⟨-, hne, hall⟩ := ServiceObjects.of_makeObject hmake
  have hname := name_ne_any hmake
  obtain ⟨name, services⟩ := object
  match services with
  | [] => exact absurd rfl hne
  | [value] =>
    refine (or_iff_right (not_not_intro (items_fresh config hname))).trans ?_
    rw [Service.create_iff (hall value List.mem_cons_self), List.mem_singleton, ne_comm]
  | first :: second :: rest =>
    refine (or_iff_right (not_not_intro rfl)).trans ?_
    -- no element is cached, since no generated name is the name of any service
    have hcreate : ∀ idx value, (first :: second :: rest)[idx]? = some value →
        ((Network.freshRegistry config .service).items (indexedName name idx) ≠ none ∨
          (∃ service, Service.create (indexedName name idx) value = .ok service) ↔
            value ≠ "any") := by
      intro idx value hvalue
      rw [Service.create_iff (hall value (List.mem_of_getElem? hvalue))]
      exact or_iff_right (not_not_intro (items_fresh config (indexedName_ne_any name idx)))
    constructor
    · intro h hany
      obtain ⟨idx, hidx⟩ := List.mem_iff_getElem?.mp hany
      exact (hcreate idx "any" hidx).mp (h idx "any" hidx) rfl
    · intro hany idx value hvalue
      refine (hcreate idx value hvalue).mpr ?_
      rintro rfl
      exact hany (List.mem_of_getElem? hvalue)

/-- A rule that uses the default services of its applications registers no other service. -/
theorem not_cachedAs_default {config : ModelConfig} {store : ObjectStore} {rule : RuleObject}
    {s s' : Network × List String} {member : Member (Item .service)} {name : String}
    (hs : s.1.registries .service = Network.freshRegistry config .service)
    (hdefault : rule.defaultAppServices = true) (hname : name ≠ "any")
    (h : Returns (buildServiceGroup store rule) s [member] s') :
    ¬Network.CachedAs (s'.1.registries .service) name member := by
  rw [buildServiceGroup, if_pos hdefault] at h
  obtain ⟨service, t, hrun, h⟩ := returns_bind.mp h
  obtain ⟨hmember, rfl⟩ := returns_pure.mp h
  obtain rfl := List.singleton_inj.mp hmember
  -- the rule registers `any`, which is cached already
  have hregister := (Reference.returns_onRegistry.mp (returns_onKindNames hrun)).1
  have hany : exec (Network.registerService "any" "any") (Network.freshRegistry config .service) =
      (.ok Service.any, Network.freshRegistry config .service) := exec_registerItem "any" _ _
  rw [hs, Returns, hany] at hregister
  have hsame : Network.freshRegistry config .service = t.1.registries .service :=
    (Prod.mk.inj hregister).2
  rw [← hsame, Network.CachedAs, items_fresh config hname]
  intro hcached
  cases hcached

/-- A rule that refers to an object of the store registers it when its name is a service, or
when its services can be registered. -/
theorem registers_object_iff {store : ObjectStore} {nw : Network} {unresolved : List String}
    {rule : RuleObject} {object : ServiceObject} (hsound : (nw.registries .service).Sound)
    (hstored : ObjectDictionary.get store.services object.name = some object)
    (hrule : rule.services = [object.name]) (hdefault : rule.defaultAppServices = false) :
    (∃ member s', Returns (buildServiceGroup store rule) (nw, unresolved) [member] s' ∧
        Network.CachedAs (s'.1.registries .service) object.name member) ↔
      isProtocolPort object.name = .ok true ∨ isProtocolPort object.name = .ok false ∧
        Network.ObjectRegistrable Service.create object.valued (nw.registries .service) := by
  have hobject : (serviceReference store).resolver.objects object.name = some object.valued :=
    congrArg (Option.map ServiceObject.valued) hstored
  rw [buildServiceGroup, if_neg (hdefault ▸ Bool.false_ne_true), hrule]
  constructor
  · rintro ⟨member, s', hrun, -⟩
    -- the only name of the rule is looked at as a literal, then in the store
    obtain ⟨found, hrefer, hmember⟩ :=
      Reference.returns_build_singleton.mp (returns_onKindNames hrun)
    obtain ⟨-, ⟨hliteral, -⟩ | ⟨hliteral, m, hregister, -⟩⟩ :=
      (Reference.returns_refer_object_iff hobject).mp hrefer
    · exact Or.inl hliteral
    · exact Or.inr ⟨hliteral, Network.returns_registerValued_iff.mp
        ⟨m, s'.1.registries .service, hregister⟩⟩
  · intro h
    have hrefer : ∃ member r', Network.CachedAs r' object.name member ∧
        Returns ((serviceReference store).refer object.name)
          (nw.registries .service, unresolved) (some member) (r', unresolved) := by
      rcases h with hliteral | ⟨hliteral, hregistrable⟩
      · -- the name is read as a service, and the object is not used
        obtain ⟨t, r', hregister⟩ := Network.returns_registerValue_iff.mpr
          (Or.inr (Service.create_of_isProtocolPort object.name hliteral))
        refine ⟨.item t, r', Network.cachedAs_registerValue hregister, ?_⟩
        exact (Reference.returns_refer_object_iff hobject).mpr
          ⟨rfl, Or.inl ⟨hliteral, t, hregister, rfl⟩⟩
      · obtain ⟨m, r', hregister⟩ := Network.returns_registerValued_iff.mpr hregistrable
        refine ⟨m, r', Network.cachedAs_registerValued hsound hregister, ?_⟩
        exact (Reference.returns_refer_object_iff hobject).mpr
          ⟨rfl, Or.inr ⟨hliteral, m, hregister, rfl⟩⟩
    obtain ⟨member, r', hcached, hrefer⟩ := hrefer
    refine ⟨member, (nw.setRegistry .service r', unresolved),
      returns_zoom.mpr ⟨(r', unresolved), ?_, rfl⟩, ?_⟩
    · exact Reference.returns_build_singleton.mpr ⟨some member, hrefer, rfl⟩
    · rwa [Network.registries_setRegistry]

/-- **Which loaded services are registered.**  A rule that refers to an object that was accepted
registers it in a network without other services when its name is a service, which is then
registered in its place, or when `any` is not among its services. -/
theorem accepted_service_iff (config : ModelConfig) (store : ObjectStore) (nw : Network)
    (unresolved : List String) (rule : RuleObject) {delimiter : Char} {values : CsvValues}
    {object : ServiceObject} (hnw : nw.registries .service = Network.freshRegistry config .service)
    (hmake : ServiceObjects.makeObject delimiter values = .ok (some object))
    (hstored : ObjectDictionary.get store.services object.name = some object)
    (hrule : rule.services = [object.name]) :
    (∃ member s', Returns (buildServiceGroup store rule) (nw, unresolved) [member] s' ∧
        Network.CachedAs (s'.1.registries .service) object.name member) ↔
      rule.defaultAppServices = false ∧ (isProtocolPort object.name = .ok true ∨
        isProtocolPort object.name = .ok false ∧ "any" ∉ object.services) := by
  cases hdefault : rule.defaultAppServices with
  | true =>
    refine iff_of_false ?_ (fun h => nomatch h.1)
    rintro ⟨member, s', hrun, hcached⟩
    exact not_cachedAs_default hnw hdefault (name_ne_any hmake) hrun hcached
  | false =>
    have hsound : (nw.registries .service).Sound := hnw ▸ Network.sound_fresh config .service
    rw [registers_object_iff hsound hstored hrule hdefault, hnw,
      objectRegistrable_iff config hmake, and_iff_right rfl]

/-- The builtin objects, and the service objects of a row. -/
def withServices (values : CsvValues) : ObjectStore :=
  (ObjectStore.builtin .ip4Model).load ObjectStore.semicolons (.services [values])

theorem accepted_service_witness : ∃ member s',
    Returns (buildServiceGroup (withServices ["SSH", "tcp/22"]) (.ofServices 1 ["SSH"]))
      (Network.fresh .dotted, []) [member] s' ∧
    Network.CachedAs (s'.1.registries .service) "SSH" member := by
  have hmake : ServiceObjects.makeObject ';' ["SSH", "tcp/22"] =
      .ok (some ⟨"SSH", ["tcp/22"]⟩) := by decide +kernel
  exact (accepted_service_iff .dotted _ _ _ _ rfl hmake (by decide +kernel) rfl).mpr
    ⟨rfl, Or.inr ⟨by decide +kernel, by decide⟩⟩

/-- An object that stands for any service is accepted, and raises when a rule refers to it. -/
theorem accepted_service_raises :
    ServiceObjects.makeObject ';' ["ALL", "any"] = .ok (some ⟨"ALL", ["any"]⟩) ∧
      ObjectDictionary.get (withServices ["ALL", "any"]).services "ALL" = some ⟨"ALL", ["any"]⟩ ∧
      ∀ members s', ¬Returns (buildServiceGroup (withServices ["ALL", "any"])
        (.ofServices 1 ["ALL"])) (Network.fresh .dotted, []) members s' := by
  refine ⟨by decide +kernel, by decide +kernel, fun members s' hrun => ?_⟩
  have hraised : (exec (buildServiceGroup (withServices ["ALL", "any"]) (.ofServices 1 ["ALL"]))
      (Network.fresh .dotted, [])).1.toOption.isNone = true := by decide +kernel
  rw [hrun] at hraised
  cases hraised

end FirewallFactory

end RulesAnalyzer
