import RulesAnalyzer.Firewall
import RulesAnalyzer.Network

/-!
# The firewall factory

A row of a policy file becomes a rule.  Its names are looked up in the object store
and registered in the network; the rule refers to the registered objects, so its
predicate is read off the network.

## Main definitions

* `RuleObject`, `LoaderStatus` — a row, and what the loader reports.
* `CriteriaRef`, `RuleRef` — the rules of a firewall, with references into the network.
* `FirewallFactory.buildAddressGroup`, … — the criteria of a row.
* `FirewallFactory.addRule` — adds the rule of a row, unless the row is not valid.

## Main results

* `FirewallFactory.keeps_buildCriteria` — building the criteria extends the network, whether it
  succeeds or not.
-/

namespace RulesAnalyzer

open Diagram Effect Shared

/-! ### Rows and the report -/

/-- A row of a policy file. -/
structure RuleObject where
  rowNumber : ℕ
  id : ℤ
  name : String
  status : String
  action : String
  sourceZones : List String
  destinationZones : List String
  sourceAddresses : List String
  negateSourceAddresses : Bool
  destinationAddresses : List String
  negateDestinationAddresses : Bool
  services : List String
  applications : List String
  users : List String
  urls : List String
  deriving DecidableEq

/-- The row uses the default services of its applications. -/
def RuleObject.defaultAppServices (rule : RuleObject) : Bool :=
  match rule.services with
  | [service] => iequal service "application-default" || iequal service "app-default"
  | _ => false

/-- The addresses of a row. -/
def RuleObject.addresses (rule : RuleObject) : Side → List String
  | .src => rule.sourceAddresses
  | .dst => rule.destinationAddresses

/-- A row that allows services between all addresses. -/
def RuleObject.ofServices (id : ℤ) (services : List String) : RuleObject where
  rowNumber := 0
  id := id
  name := ""
  status := "enabled"
  action := "allow"
  sourceZones := ["any"]
  destinationZones := ["any"]
  sourceAddresses := ["any"]
  negateSourceAddresses := false
  destinationAddresses := ["any"]
  negateDestinationAddresses := false
  services := services
  applications := ["any"]
  users := ["any"]
  urls := ["any"]

/-- What the loader reports. -/
structure LoaderStatus where
  loadedCount : ℕ := 0
  errorCount : ℕ := 0
  disabledCount : ℕ := 0
  emptySources : List ℕ := []
  emptyDestinations : List ℕ := []
  emptyServices : List ℕ := []
  emptyApplications : List ℕ := []
  emptySrcZones : List ℕ := []
  emptyDstZones : List ℕ := []
  emptyUsers : List ℕ := []
  emptyUrls : List ℕ := []
  unresolvedAddresses : List String := []
  unresolvedServices : List String := []
  unresolvedApplications : List String := []
  unresolvedUsers : List String := []
  unresolvedUrls : List String := []
  deriving DecidableEq

/-- The counts of the report. -/
def LoaderStatus.counts (status : LoaderStatus) : ℕ × ℕ × ℕ :=
  (status.loadedCount, status.errorCount, status.disabledCount)

/-- One of the lists of names of the report. -/
structure NamesField where
  get : LoaderStatus → List String
  set : List String → LoaderStatus → LoaderStatus
  counts_set : ∀ names status, (set names status).counts = status.counts

/-! ### Rules with references -/

namespace Network

/-- The group of registered objects, as a value. -/
def groupValue {T S : Type} [Mnode S] (f : T → S) (r : Registry String T)
    (members : List (Member T)) : Group S :=
  fold Group.empty (fun group item => group.addItem (f item)) Group.addGroup r.heap
    (r.heap.length + 1) ⟨"$root", members⟩

/-- The groups of the network, as values. -/
def zoneGroup (nw : Network) (side : Side) (members : List (Member (Item (.zone side)))) :
    Group (Zone side) :=
  groupValue (T := Item (.zone side)) (fun item => item) (nw.registries (.zone side)) members

/-- The addresses of one side, as they are registered there. -/
def addressGroup (nw : Network) (side : Side) (members : List (Member (Item (.address side)))) :
    Group (IpAddress side) :=
  groupValue (T := Item (.address side)) (fun item => item) (nw.registries (.address side)) members

/-- Registered services.  They are no default services of applications. -/
def serviceGroup (nw : Network) (members : List (Member (Item .service))) : ServiceGroup :=
  ⟨groupValue (T := Item .service) (fun item => item) (nw.registries .service) members, false⟩

/-- Applications, from the registry of those with or without services of their own. -/
def applicationGroup (nw : Network) (useAppSvc : Bool)
    (members : List (Member (Item (.application useAppSvc)))) : ApplicationGroup :=
  groupValue (T := Item (.application useAppSvc)) Subtype.val
    (nw.registries (.application useAppSvc)) members

/-- Registered users. -/
def userGroup (nw : Network) (members : List (Member (Item .user))) : UserGroup :=
  groupValue (T := Item .user) (fun item => item) (nw.registries .user) members

/-- Registered urls. -/
def urlGroup (nw : Network) (members : List (Member (Item .url))) : UrlGroup :=
  groupValue (T := Item .url) (fun item => item) (nw.registries .url) members

end Network

/-- The services of a rule. -/
inductive ServicesRef
  /-- Registered services. -/
  | registered (members : List (Member (Item .service)))
  /-- The default services of the applications, put together when the rule was built. -/
  | appDefault (services : ServiceGroup)

/-- The criteria of a rule: the members of each group. -/
structure CriteriaRef where
  srcZones : List (Member (Item (.zone .src)))
  srcAddresses : List (Member (Item (.address .src)))
  negateSrcAddresses : Bool
  dstZones : List (Member (Item (.zone .dst)))
  dstAddresses : List (Member (Item (.address .dst)))
  negateDstAddresses : Bool
  services : ServicesRef
  useAppSvc : Bool
  applications : List (Member (Item (.application useAppSvc)))
  users : List (Member (Item .user))
  urls : List (Member (Item .url))

/-- The predicate of a rule. -/
inductive PredicateRef
  | ofCriteria (criteria : CriteriaRef)
  | any (ipModel : IPAddressModel)

/-- A rule of a firewall. -/
structure RuleRef where
  id : ℤ
  name : String
  status : RuleStatus
  action : RuleAction
  predicate : PredicateRef

/-- The services, as a value. -/
def ServicesRef.value (nw : Network) : ServicesRef → ServiceGroup
  | registered members => nw.serviceGroup members
  | appDefault services => services

/-- The diagram of criteria in a network. -/
def CriteriaRef.makeBdd (nw : Network) (c : CriteriaRef) : ModelBdd :=
  bddAnd (bddAnd (bddAnd (bddAnd (bddAnd (bddAnd (bddAnd
    (nw.zoneGroup .src c.srcZones).makeBdd
    (nw.zoneGroup .dst c.dstZones).makeBdd)
    (Mnode.negateIf (nw.addressGroup .src c.srcAddresses) c.negateSrcAddresses))
    (Mnode.negateIf (nw.addressGroup .dst c.dstAddresses) c.negateDstAddresses))
    (if (c.services.value nw).isAppServices then bddTrue else (c.services.value nw).makeBdd))
    (nw.applicationGroup c.useAppSvc c.applications).makeBdd)
    (nw.userGroup c.users).makeBdd)
    (nw.urlGroup c.urls).makeBdd

/-- The diagram of a predicate in a network. -/
def PredicateRef.makeBdd (nw : Network) : PredicateRef → ModelBdd
  | ofCriteria criteria => criteria.makeBdd nw
  | any _ => bddTrue

/-- The state of the loader: the network, the rules of the firewall, and the report. -/
structure Loading where
  network : Network
  rules : List RuleRef
  status : LoaderStatus

/-! ### The resolvers of the store -/

/-- An address object lists addresses. -/
def AddressObject.valued (object : AddressObject) : ValuedObject := ⟨object.name, object.addresses⟩

/-- A service object lists services. -/
def ServiceObject.valued (object : ServiceObject) : ValuedObject := ⟨object.name, object.services⟩

namespace ObjectStore

variable (store : ObjectStore)

/-- Names of addresses: objects, where hosts stand for what they are resolved to, and pools. -/
def addressResolver : GenericResolver ValuedObject where
  objects name := (store.getAddress name).map AddressObject.valued
  pools := store.addressPools
  poolsName := "address pools"

/-- Names of services: objects and pools. -/
def serviceResolver : GenericResolver ValuedObject where
  objects name := (ObjectDictionary.get store.services name).map ServiceObject.valued
  pools := store.servicePools
  poolsName := "service pools"

/-- Names of applications: objects and pools. -/
def applicationResolver : GenericResolver ApplicationObject where
  objects := ObjectDictionary.get store.applications
  pools := store.applicationPools
  poolsName := "application pools"

/-- Names of users: objects and pools. -/
def userResolver : GenericResolver UserObject where
  objects := ObjectDictionary.get store.users
  pools := store.userPools
  poolsName := "user pools"

/-- Names of urls: objects and pools. -/
def urlResolver : GenericResolver UrlObject where
  objects := ObjectDictionary.get store.urls
  pools := store.urlPools
  poolsName := "url pools"

end ObjectStore

/-! ### The criteria of a row -/

namespace FirewallFactory

variable {α : Type} (config : ModelConfig) (store : ObjectStore)

/-- A program on the registry of one kind, and on names that are not resolved. -/
def onKindNames (k : Kind) (p : Program (Registry String (Item k) × List String) Fault α) :
    Program (Network × List String) Fault α :=
  zoom (fun s => (s.1.registries k, s.2)) (fun t s => (s.1.setRegistry k t.1, t.2)) p

/-- The references to addresses, through the values an object of the store lists. -/
def addressReference (side : Side) : Reference (Registry String (Item (.address side)))
    (Item (.address side)) ValuedObject where
  isLiteral name := .ok (isIpAddress config.inet name config.ipModel config.strictIpParser)
  registerLiteral name := Network.registerAddress config side name name
  resolver := store.addressResolver
  registerObject object :=
    if object.values.length > 1 then
      .group <$> Network.registerMultiAddress config side object.name object.values
    else
      match object.values with
      | address :: _ => .item <$> Network.registerAddress config side object.name address
      | [] => throw .undefined
  registerPool pool := do
    let _ ← Network.registerAddressGroup side pool.name pool.members
    pure ⟨⟩
  getGroup r name := r.groups name

/-- The addresses of a row, for the two sides. -/
def buildAddressGroup (side : Side) (addresses : List String) :
    Program (Network × List String) Fault (List (Member (Item (.address side)))) :=
  onKindNames (.address side) ((addressReference config store side).build addresses)

/-- The references to services. -/
def serviceReference :
    Reference (Registry String (Item .service)) (Item .service) ValuedObject where
  isLiteral := isProtocolPort
  registerLiteral name := Network.registerService name name
  resolver := store.serviceResolver
  registerObject object :=
    if object.values.length > 1 then
      .group <$> Network.registerMultiService object.name object.values
    else
      match object.values with
      | service :: _ => .item <$> Network.registerService object.name service
      | [] => throw .undefined
  registerPool pool := do
    let _ ← Network.registerServiceGroup pool.name pool.members
    pure ⟨⟩
  getGroup r name := r.groups name

/-- The services of a row. -/
def buildServiceGroup (rule : RuleObject) :
    Program (Network × List String) Fault (List (Member (Item .service))) :=
  if rule.defaultAppServices then do
    let service ← onKindNames .service (Reference.onRegistry (Network.registerService "any" "any"))
    pure [.item service]
  else onKindNames .service ((serviceReference store).build rule.services)

/-- The services of an application, with the objects of the store replaced by what they list.
A name that is not found is left out. -/
def resolveAppServices (applicationServices : List String) : Except Fault (List String) :=
  applicationServices.foldlM (fun resolved applicationService => do
    let literal ← isProtocolPort applicationService
    if literal then pure (resolved ++ [applicationService])
    else pure (resolved ++ match ObjectDictionary.get store.services applicationService with
      | some object => object.services
      | none => [])) []

/-- The references to applications.  There are no literals. -/
def applicationReference (useAppSvc : Bool) :
    Reference Network (Item (.application useAppSvc)) ApplicationObject where
  isLiteral _ := .ok false
  registerLiteral _ := throw .undefined
  resolver := store.applicationResolver
  registerObject object := do
    let services ← MonadExcept.ofExcept (resolveAppServices store object.services)
    .item <$> Network.registerApplication object.name services useAppSvc
  registerPool pool := do
    let _ ← Network.registerApplicationGroup pool.name pool.members useAppSvc
    pure ⟨⟩
  getGroup nw name := (nw.registries (.application useAppSvc)).groups name

/-- The applications of a row. -/
def buildApplicationGroup (rule : RuleObject) : Program (Network × List String) Fault
    (List (Member (Item (.application rule.defaultAppServices)))) :=
  (applicationReference store rule.defaultAppServices).build rule.applications

/-- The zones of a row, for the two sides. -/
def buildZoneGroup (side : Side) (zones : List String) :
    Program Network Fault (List (Member (Item (.zone side)))) :=
  zones.foldlM (fun members name => do
    let zone ← Network.registerZone side name
    pure (Registry.pushMember members (.item zone))) []

/-- The references to users.  There are no literals. -/
def userReference : Reference Network (Item .user) UserObject where
  isLiteral _ := .ok false
  registerLiteral _ := throw .undefined
  resolver := store.userResolver
  registerObject object := .item <$> Network.registerUser object.name
  registerPool pool := do
    let _ ← Network.registerUserGroup pool.name pool.members
    pure ⟨⟩
  getGroup nw name := (nw.registries .user).groups name

/-- The users of a row. -/
def buildUserGroup (rule : RuleObject) :
    Program (Network × List String) Fault (List (Member (Item .user))) :=
  (userReference store).build rule.users

/-- Every text is a url. -/
def isUrl (_url : String) : Bool := true

/-- The references to urls. -/
def urlReference : Reference Network (Item .url) UrlObject where
  isLiteral url := .ok (isUrl url)
  registerLiteral url := Network.registerUrl url
  resolver := store.urlResolver
  registerObject object := .item <$> Network.registerUrl object.name
  registerPool pool := do
    let _ ← Network.registerUrlGroup pool.name pool.members
    pure ⟨⟩
  getGroup nw name := (nw.registries .url).groups name

/-- The urls of a row. -/
def buildUrlGroup (rule : RuleObject) :
    Program (Network × List String) Fault (List (Member (Item .url))) :=
  (urlReference store).build rule.urls

/-! ### The rule of a row -/

/-- A program on the network. -/
def onNetwork (p : Program Network Fault α) : Program Loading Fault α :=
  zoom Loading.network (fun nw s => { s with network := nw }) p

/-- A program on the network and on one of the lists of names that are not resolved. -/
def onNames (names : NamesField) (p : Program (Network × List String) Fault α) :
    Program Loading Fault α :=
  zoom (fun s => (s.network, names.get s.status))
    (fun t s => { s with network := t.1, status := names.set t.2 s.status }) p

/-- A program that may leave addresses unresolved; both sides share the list. -/
def onAddresses (p : Program (Network × List String) Fault α) : Program Loading Fault α :=
  onNames ⟨LoaderStatus.unresolvedAddresses,
    fun names status => { status with unresolvedAddresses := names },
    fun _ _ => rfl⟩ p

/-- A program that may leave services unresolved. -/
def onServices (p : Program (Network × List String) Fault α) : Program Loading Fault α :=
  onNames ⟨LoaderStatus.unresolvedServices,
    fun names status => { status with unresolvedServices := names },
    fun _ _ => rfl⟩ p

/-- A program that may leave applications unresolved. -/
def onApplications (p : Program (Network × List String) Fault α) : Program Loading Fault α :=
  onNames ⟨LoaderStatus.unresolvedApplications,
    fun names status => { status with unresolvedApplications := names },
    fun _ _ => rfl⟩ p

/-- A program that may leave users unresolved. -/
def onUsers (p : Program (Network × List String) Fault α) : Program Loading Fault α :=
  onNames ⟨LoaderStatus.unresolvedUsers,
    fun names status => { status with unresolvedUsers := names },
    fun _ _ => rfl⟩ p

/-- A program that may leave urls unresolved. -/
def onUrls (p : Program (Network × List String) Fault α) : Program Loading Fault α :=
  onNames ⟨LoaderStatus.unresolvedUrls, fun names status => { status with unresolvedUrls := names },
    fun _ _ => rfl⟩ p

/-- Builds a group.  A group without items is reported, and the row is not valid. -/
def criterion (build : Program Loading Fault α) (isEmpty : α → Network → Bool)
    (report : LoaderStatus → LoaderStatus) : Program Loading Fault (α × Bool) := do
  let group ← build
  let s ← get
  if isEmpty group s.network then
    modify fun s => { s with status := report s.status }
    pure (group, false)
  else pure (group, true)

/-- The services of a rule: the registered ones, or the default services of its applications. -/
def buildServices (rule : RuleObject)
    (applications : List (Member (Item (.application rule.defaultAppServices)))) :
    Program Loading Fault ServicesRef := do
  if rule.defaultAppServices then
    let s ← get
    pure (.appDefault (defaultServices (s.network.applicationGroup _ applications)))
  else .registered <$> onServices (buildServiceGroup store rule)

/-- The criteria of a row once its addresses are built, and whether none of the groups is
empty. -/
def otherCriteria (rule : RuleObject) (srcAddresses : List (Member (Item (.address .src))) × Bool)
    (dstAddresses : List (Member (Item (.address .dst))) × Bool) :
    Program Loading Fault (CriteriaRef × Bool) := do
  let applications ← criterion (onApplications (buildApplicationGroup store rule))
    (fun group nw => (nw.applicationGroup _ group).items.isEmpty)
    fun status => { status with emptyApplications := status.emptyApplications ++ [rule.rowNumber] }
  let services ← criterion (buildServices store rule applications.1)
    (fun group nw => (group.value nw).items.isEmpty)
    fun status => { status with emptyServices := status.emptyServices ++ [rule.rowNumber] }
  let srcZones ← criterion (onNetwork (buildZoneGroup .src rule.sourceZones))
    (fun group nw => (nw.zoneGroup .src group).items.isEmpty)
    fun status => { status with emptySrcZones := status.emptySrcZones ++ [rule.rowNumber] }
  let dstZones ← criterion (onNetwork (buildZoneGroup .dst rule.destinationZones))
    (fun group nw => (nw.zoneGroup .dst group).items.isEmpty)
    fun status => { status with emptyDstZones := status.emptyDstZones ++ [rule.rowNumber] }
  let users ← criterion (onUsers (buildUserGroup store rule))
    (fun group nw => (nw.userGroup group).items.isEmpty)
    fun status => { status with emptyUsers := status.emptyUsers ++ [rule.rowNumber] }
  let urls ← criterion (onUrls (buildUrlGroup store rule))
    (fun group nw => (nw.urlGroup group).items.isEmpty)
    fun status => { status with emptyUrls := status.emptyUrls ++ [rule.rowNumber] }
  pure ({ srcZones := srcZones.1
          srcAddresses := srcAddresses.1
          negateSrcAddresses := rule.negateSourceAddresses
          dstZones := dstZones.1
          dstAddresses := dstAddresses.1
          negateDstAddresses := rule.negateDestinationAddresses
          services := services.1
          useAppSvc := rule.defaultAppServices
          applications := applications.1
          users := users.1
          urls := urls.1 },
    srcAddresses.2 && dstAddresses.2 && applications.2 && services.2 && srcZones.2 && dstZones.2 &&
      users.2 && urls.2)

/-- The criteria of a row, and whether none of the groups is empty.  The addresses are built
first: they are the only names that stand for hosts. -/
def buildCriteria (rule : RuleObject) : Program Loading Fault (CriteriaRef × Bool) := do
  let srcAddresses ← criterion
    (onAddresses (buildAddressGroup config store .src rule.sourceAddresses))
    (fun group nw => (nw.addressGroup .src group).items.isEmpty)
    fun status => { status with emptySources := status.emptySources ++ [rule.rowNumber] }
  let dstAddresses ← criterion
    (onAddresses (buildAddressGroup config store .dst rule.destinationAddresses))
    (fun group nw => (nw.addressGroup .dst group).items.isEmpty)
    fun status => { status with emptyDestinations := status.emptyDestinations ++ [rule.rowNumber] }
  otherCriteria store rule srcAddresses dstAddresses

end FirewallFactory

/-- The action of a text. -/
def ruleAction (action : String) : Option RuleAction :=
  if iequal action "allow" then some .allow
  else if iequal action "accept" then some .allow
  else if iequal action "drop" then some .deny
  else if iequal action "deny" then some .deny
  else none

/-- The status of a text. -/
def ruleStatus (status : String) : Option RuleStatus :=
  if iequal status "enable" || iequal status "enabled" then some .enabled
  else if iequal status "disable" || iequal status "disabled" then some .disabled
  else none

namespace Loading

/-- The rule with the given id; the rule added last counts. -/
def getRule (s : Loading) (ruleId : ℤ) : Option RuleRef :=
  s.rules.reverse.find? fun rule => rule.id == ruleId

/-- Adds a rule to the firewall. -/
def addRule (s : Loading) (rule : RuleRef) : Loading := { s with rules := s.rules ++ [rule] }

/-- The network is extended, and the rules and the counts stay. -/
structure Builds (s s' : Loading) : Prop where
  network : Network.Step s.network s'.network
  rules : s'.rules = s.rules
  counts : s'.status.counts = s.status.counts

instance : Std.Refl Builds := ⟨fun s => ⟨refl s.network, rfl, rfl⟩⟩

instance : IsTrans Loading Builds where
  trans _ _ _ h h' := ⟨IsTrans.trans _ _ _ h.network h'.network, h'.rules.trans h.rules,
    h'.counts.trans h.counts⟩

end Loading

namespace FirewallFactory

variable (config : ModelConfig) (store : ObjectStore)

/-- Adds the rule of a row to the firewall.  The answer says whether the row is valid. -/
def addRule (rule : RuleObject) : Program Loading Fault Bool := do
  let start ← get
  match ruleAction rule.action, ruleStatus rule.status with
  | some action, some status => do
    let criteria ← buildCriteria config store rule
    let valid := (start.getRule rule.id).isNone && criteria.2
    if valid then
      modify fun s => s.addRule ⟨rule.id, rule.name, status, action, .ofCriteria criteria.1⟩
      pure true
    else pure false
  | _, _ => pure false

/-- Adds a rule that denies everything. -/
def addDenyAllRule (s : Loading) : Loading :=
  s.addRule ⟨0, "", .enabled, .deny, .any config.ipModel⟩

/-! ### What a row changes -/

section Keeps

open Network

variable {α : Type} {k : Kind}

theorem keeps_onKindNames {p : Program (Registry String (Item k) × List String) Fault α}
    (hp : Keeps (Through Prod.fst (Under Registry.Sound Registry.Extends)) p) :
    Keeps (Through Prod.fst Step) (onKindNames k p) :=
  keeps_zoom hp fun _ _ => step_update

theorem addressReference_eq (side : Side) : addressReference config store side =
    valuedReference (createAddress config side)
      (fun name => .ok (isIpAddress config.inet name config.ipModel config.strictIpParser))
      store.addressResolver := rfl

theorem serviceReference_eq : serviceReference store =
    valuedReference Service.create isProtocolPort store.serviceResolver := rfl

theorem keeps_buildAddressGroup (side : Side) (addresses : List String) :
    Keeps (Through Prod.fst Step) (buildAddressGroup config store side addresses) := by
  unfold buildAddressGroup
  rw [addressReference_eq]
  exact keeps_onKindNames ((keeping_valuedReference _ _ _).build _)

theorem keeps_buildServiceGroup (rule : RuleObject) :
    Keeps (Through Prod.fst Step) (buildServiceGroup store rule) := by
  unfold buildServiceGroup
  split
  · exact keeps_bind (keeps_onKindNames (Reference.keeps_onRegistry (keeps_registerItem _ _)))
      fun _ => keeps_pure _
  · rw [serviceReference_eq]
    exact keeps_onKindNames ((keeping_valuedReference _ _ _).build _)

theorem keeping_applicationReference (useAppSvc : Bool) :
    (applicationReference store useAppSvc).Keeping Step where
  literal _ := keeps_throw _
  object _ := keeps_bind (keeps_ofExcept _) fun _ => keeps_map _ (keeps_registerApplication _ _ _)
  pool _ hpool := keeps_bind (keeps_registerGroupOf hpool) fun _ => keeps_pure _

theorem keeps_buildZoneGroup (side : Side) (zones : List String) :
    Keeps Step (buildZoneGroup side zones) :=
  keeps_foldlM fun _ _ _ => keeps_bind (keeps_registerZone _ _) fun _ => keeps_pure _

theorem keeping_userReference : (userReference store).Keeping Step where
  literal _ := keeps_throw _
  object _ := keeps_map _ (keeps_registerUser _)
  pool _ hpool := keeps_bind (keeps_registerGroupOf hpool) fun _ => keeps_pure _

theorem keeping_urlReference : (urlReference store).Keeping Step where
  literal _ := keeps_registerUrl _
  object _ := keeps_map _ (keeps_registerUrl _)
  pool _ hpool := keeps_bind (keeps_registerGroupOf hpool) fun _ => keeps_pure _

theorem builds_onNetwork {p : Program Network Fault α} (hp : Keeps Step p) :
    Keeps Loading.Builds (onNetwork p) := keeps_zoom hp fun _ _ h => ⟨h, rfl, rfl⟩

theorem builds_onNames {names : NamesField} {p : Program (Network × List String) Fault α}
    (hp : Keeps (Through Prod.fst Step) p) : Keeps Loading.Builds (onNames names p) :=
  keeps_zoom hp fun _ _ h => ⟨h, rfl, names.counts_set _ _⟩

theorem keeps_criterion {R : Loading → Loading → Prop} [Std.Refl R] [IsTrans Loading R]
    {build : Program Loading Fault α} {isEmpty : α → Network → Bool}
    {report : LoaderStatus → LoaderStatus}
    (hreport : ∀ report : LoaderStatus → LoaderStatus,
      (∀ status, (report status).counts = status.counts) →
      ∀ s : Loading, R s { s with status := report s.status })
    (hcounts : ∀ status, (report status).counts = status.counts) (hbuild : Keeps R build) :
    Keeps R (criterion build isEmpty report) := by
  refine keeps_bind hbuild fun group => keeps_bind keeps_get fun s => ?_
  split
  · exact keeps_bind (keeps_modify (hreport report hcounts)) fun _ => keeps_pure _
  · exact keeps_pure _

theorem keeps_buildServices (rule : RuleObject)
    (applications : List (Member (Item (.application rule.defaultAppServices)))) :
    Keeps Loading.Builds (buildServices store rule applications) := by
  unfold buildServices
  split
  · exact keeps_bind keeps_get fun _ => keeps_pure _
  · exact keeps_map _ (builds_onNames (keeps_buildServiceGroup store rule))

theorem returns_onNetwork {p : Program Network Fault α} {s s' : Loading} {a : α}
    (h : Returns (onNetwork p) s a s') : Returns p s.network a s'.network := by
  obtain ⟨nw, hrun, rfl⟩ := returns_zoom.mp h
  exact hrun

theorem returns_onNames {names : NamesField} {p : Program (Network × List String) Fault α}
    {s s' : Loading} {a : α} (h : Returns (onNames names p) s a s') :
    ∃ names', Returns p (s.network, names.get s.status) a (s'.network, names') := by
  obtain ⟨t, hrun, rfl⟩ := returns_zoom.mp h
  exact ⟨t.2, hrun⟩

/-- What all builds of a row keep. -/
structure Keeping (R : Loading → Loading → Prop) (rule : RuleObject) : Prop where
  report : ∀ report : LoaderStatus → LoaderStatus,
    (∀ status, (report status).counts = status.counts) →
    ∀ s : Loading, R s { s with status := report s.status }
  sourceAddresses : Keeps R (onAddresses (buildAddressGroup config store .src rule.sourceAddresses))
  destinationAddresses :
    Keeps R (onAddresses (buildAddressGroup config store .dst rule.destinationAddresses))
  applications : Keeps R (onApplications (buildApplicationGroup store rule))
  services : ∀ applications, Keeps R (buildServices store rule applications)
  zones : ∀ side zones, Keeps R (onNetwork (buildZoneGroup side zones))
  users : Keeps R (onUsers (buildUserGroup store rule))
  urls : Keeps R (onUrls (buildUrlGroup store rule))

variable {config store}

theorem Keeping.otherCriteria {R : Loading → Loading → Prop} [Std.Refl R] [IsTrans Loading R]
    {rule : RuleObject} (h : Keeping config store R rule)
    (srcAddresses : List (Member (Item (.address .src))) × Bool)
    (dstAddresses : List (Member (Item (.address .dst))) × Bool) :
    Keeps R (otherCriteria store rule srcAddresses dstAddresses) := by
  refine keeps_bind (keeps_criterion h.report (fun _ => rfl) h.applications) fun _ => ?_
  refine keeps_bind (keeps_criterion h.report (fun _ => rfl) (h.services _)) fun _ => ?_
  refine keeps_bind (keeps_criterion h.report (fun _ => rfl) (h.zones _ _)) fun _ => ?_
  refine keeps_bind (keeps_criterion h.report (fun _ => rfl) (h.zones _ _)) fun _ => ?_
  refine keeps_bind (keeps_criterion h.report (fun _ => rfl) h.users) fun _ => ?_
  exact keeps_bind (keeps_criterion h.report (fun _ => rfl) h.urls) fun _ => keeps_pure _

/-- What all builds of a row keep, the criteria keep. -/
theorem Keeping.buildCriteria {R : Loading → Loading → Prop} [Std.Refl R] [IsTrans Loading R]
    {rule : RuleObject} (h : Keeping config store R rule) :
    Keeps R (buildCriteria config store rule) := by
  unfold FirewallFactory.buildCriteria
  refine keeps_bind (keeps_criterion h.report (fun _ => rfl) h.sourceAddresses) fun _ => ?_
  refine keeps_bind (keeps_criterion h.report (fun _ => rfl) h.destinationAddresses) fun _ => ?_
  exact h.otherCriteria _ _

variable (config store)

theorem keeping_builds (rule : RuleObject) : Keeping config store Loading.Builds rule where
  report _ hcounts s := ⟨refl s.network, rfl, hcounts s.status⟩
  sourceAddresses := builds_onNames (keeps_buildAddressGroup config store .src _)
  destinationAddresses := builds_onNames (keeps_buildAddressGroup config store .dst _)
  applications := builds_onNames ((keeping_applicationReference store _).build _)
  services := keeps_buildServices store rule
  zones side zones := builds_onNetwork (keeps_buildZoneGroup side zones)
  users := builds_onNames ((keeping_userReference store).build _)
  urls := builds_onNames ((keeping_urlReference store).build _)

/-- **Building the criteria extends the network and leaves the rules alone**, whether it
succeeds or raises. -/
theorem keeps_buildCriteria (rule : RuleObject) :
    Keeps Loading.Builds (buildCriteria config store rule) :=
  (keeping_builds config store rule).buildCriteria

end Keeps

theorem builds_of_exec {rule : RuleObject} {s s' : Loading}
    {result : Except Fault (CriteriaRef × Bool)}
    (h : exec (buildCriteria config store rule) s = (result, s')) : Loading.Builds s s' := by
  have hbuilds := keeps_buildCriteria config store rule s
  rwa [h] at hbuilds

/-- Whether a group is empty does not depend on the rules. -/
theorem ignores_criterion {α : Type} {build : Program Loading Fault α}
    (isEmpty : α → Network → Bool) (report : LoaderStatus → LoaderStatus) {rules : List RuleRef}
    (hbuild : Ignores (fun s : Loading => { s with rules := rules }) build) :
    Ignores (fun s : Loading => { s with rules := rules }) (criterion build isEmpty report) := by
  refine ignores_bind hbuild fun group s => ?_
  rw [exec_get_bind, exec_get_bind]
  split <;> rfl

/-- The rules of the firewall do not matter for the criteria. -/
theorem ignores_otherCriteria (rule : RuleObject)
    (srcAddresses : List (Member (Item (.address .src))) × Bool)
    (dstAddresses : List (Member (Item (.address .dst))) × Bool) (rules : List RuleRef) :
    Ignores (fun s => { s with rules := rules })
      (otherCriteria store rule srcAddresses dstAddresses) := by
  have hnetwork : ∀ {α : Type} (p : Program Network Fault α),
      Ignores (fun s : Loading => { s with rules := rules }) (onNetwork p) := by
    intro α p
    refine ignores_zoom ?_ ?_ p
    · exact fun _ => rfl
    · exact fun _ _ => rfl
  have hnames : ∀ {α : Type} (names : NamesField) (p : Program (Network × List String) Fault α),
      Ignores (fun s : Loading => { s with rules := rules }) (onNames names p) := by
    intro α names p
    refine ignores_zoom ?_ ?_ p
    · exact fun _ => rfl
    · exact fun _ _ => rfl
  have hservices : ∀ applications, Ignores (fun s : Loading => { s with rules := rules })
      (buildServices store rule applications) := by
    intro applications
    unfold buildServices
    split
    · exact fun s => rfl
    · exact ignores_map _ (hnames _ _)
  -- one criterion after the other, all of which work on the network only
  refine ignores_bind (ignores_criterion _ _ (hnames _ _)) fun _ => ?_
  refine ignores_bind (ignores_criterion _ _ (hservices _)) fun _ => ?_
  refine ignores_bind (ignores_criterion _ _ (hnetwork _)) fun _ => ?_
  refine ignores_bind (ignores_criterion _ _ (hnetwork _)) fun _ => ?_
  refine ignores_bind (ignores_criterion _ _ (hnames _ _)) fun _ => ?_
  exact ignores_bind (ignores_criterion _ _ (hnames _ _)) fun _ => ignores_pure _

/-- What `addRule` can do with a row. -/
inductive AddsRule (rule : RuleObject) (s : Loading) : Except Fault Bool × Loading → Prop
  | malformed (h : ruleAction rule.action = none ∨ ruleStatus rule.status = none) :
      AddsRule rule s (.ok false, s)
  | raised {fault : Fault} {s' : Loading} (haction : ruleAction rule.action ≠ none)
      (hstatus : ruleStatus rule.status ≠ none)
      (hrun : exec (buildCriteria config store rule) s = (.error fault, s')) :
      AddsRule rule s (.error fault, s')
  | rejected {criteria : CriteriaRef × Bool} {s' : Loading}
      (haction : ruleAction rule.action ≠ none)
      (hstatus : ruleStatus rule.status ≠ none)
      (hrun : exec (buildCriteria config store rule) s = (.ok criteria, s'))
      (hreject : s.getRule rule.id ≠ none ∨ criteria.2 = false) : AddsRule rule s (.ok false, s')
  | added {action : RuleAction} {status : RuleStatus} {criteria : CriteriaRef} {s' : Loading}
      (haction : ruleAction rule.action = some action)
      (hstatus : ruleStatus rule.status = some status)
      (hrun : exec (buildCriteria config store rule) s = (.ok (criteria, true), s'))
      (hnew : s.getRule rule.id = none) : AddsRule rule s
        (.ok true, s'.addRule ⟨rule.id, rule.name, status, action, .ofCriteria criteria⟩)

/-- **What `addRule` does.** -/
theorem addsRule (rule : RuleObject) (s : Loading) :
    AddsRule config store rule s (exec (addRule config store rule) s) := by
  rw [addRule, exec_get_bind]
  rcases haction : ruleAction rule.action with _ | action
  · exact .malformed (Or.inl haction)
  rcases hstatus : ruleStatus rule.status with _ | status
  · exact .malformed (Or.inr hstatus)
  have haction' : ruleAction rule.action ≠ none := by rw [haction]; nofun
  have hstatus' : ruleStatus rule.status ≠ none := by rw [hstatus]; nofun
  simp only [exec_bind]
  rcases hrun : exec (buildCriteria config store rule) s with ⟨fault | ⟨criteria, filled⟩, s'⟩
  · exact .raised haction' hstatus' hrun
  · rcases hnew : s.getRule rule.id with _ | r
    · cases filled with
      | true => exact .added haction hstatus hrun hnew
      | false => exact .rejected haction' hstatus' hrun (Or.inr rfl)
    · have hold : s.getRule rule.id ≠ none := by rw [hnew]; nofun
      exact .rejected haction' hstatus' hrun (Or.inl hold)

end FirewallFactory

end RulesAnalyzer
