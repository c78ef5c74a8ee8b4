import RulesAnalyzer.Definitions
import RulesAnalyzer.Isolation

/-!
# The default services of applications

An application owns a group with its default services.  The services are cached under
their own texts, so what is cached there never depends on the store; the applications
are cached under their names, as addresses and services are.

## Main definitions

* `Network.AppsvcTexts` — the invariant: a cached service has the packets of its text.
* `applicationReading`, `FirewallFactory.applicationScope` — what applications contain: the packets
  of their default services.

## Main results

* `FirewallFactory.describes_application` — **applications are registered as the store defines
  them.**
-/

namespace RulesAnalyzer

open Effect Shared

namespace Network

variable {config : ModelConfig}

/-! ### Services under their own texts -/

/-- The packets of a cached service of an application. -/
def appsvcPackets (service : Item .appsvc) : Set Packet := {pk | (service : Service).Matches pk}

/-- A cached service of an application has the packets of its text. -/
def AppsvcTexts (config : ModelConfig) (r : Registry String (Item .appsvc)) : Prop :=
  ∀ text service, r.items text = some service → appsvcPackets service = serviceSet config text

/-- The services have the packets of the texts. -/
def Serves (config : ModelConfig) (services : ServiceGroup) (texts : List String) : Prop :=
  ∀ pk : Packet, (∃ service ∈ services.items, service.Matches pk) ↔
    ∃ text ∈ texts, pk ∈ serviceSet config text

theorem appsvcTexts_fresh (config : ModelConfig) :
    AppsvcTexts config (freshRegistry config .appsvc) := by
  intro text service hservice
  have hany : Function.update (fun _ : String => (none : Option (Item .appsvc))) "any"
      (some Service.any) text = some service := hservice
  by_cases htext : text = "any"
  · subst htext
    have hcreate : (Service.create "any" "any").toOption = none := by decide +kernel
    exact (serviceSet_eq ((textValue_of_builtin hcreate).trans hservice)).symm
  · rw [Function.update_of_ne htext] at hany
    exact nomatch hany

/-- A service is cached under its text. -/
theorem triple_registerText {text : String} {create : Except Fault (Item .appsvc)}
    (hcreate : ∀ service, create = .ok service → appsvcPackets service = serviceSet config text) :
    Triple (AppsvcTexts config) (registerItem text create)
      (fun service r => AppsvcTexts config r ∧ appsvcPackets service = serviceSet config text)
      (AppsvcTexts config) := by
  intro r hr
  rw [exec_registerItem]
  rcases hitem : r.items text with _ | service
  · rcases create with fault | service
    · exact hr
    · have hservice := hcreate service rfl
      refine ⟨fun text' service' hservice' => ?_, hservice⟩
      rw [Registry.items_setItem] at hservice'
      by_cases htext : text' = text
      · subst htext
        rw [Function.update_self] at hservice'
        obtain rfl := Option.some.inj hservice'
        exact hservice
      · rw [Function.update_of_ne htext] at hservice'
        exact hr text' service' hservice'
  · exact ⟨hr, hr text service hitem⟩

/-- The invariant, of a network. -/
abbrev AppsvcSound (config : ModelConfig) (nw : Network) : Prop :=
  AppsvcTexts config (nw.registries .appsvc)

theorem AppsvcSound.setRegistry {nw : Network} (h : AppsvcSound config nw) {k : Kind}
    (hk : .appsvc ≠ k) (r : Registry String (Item k)) :
    AppsvcSound config (nw.setRegistry k r) := by
  rwa [AppsvcSound, registries_setRegistry_of_ne hk]

/-- A service of an application is registered under its text. -/
theorem triple_registerAppsvc (text : String) :
    Triple (AppsvcSound config) (registerAppsvc text text)
      (fun service nw => AppsvcSound config nw ∧
        ∀ pk, service.Matches pk ↔ pk ∈ serviceSet config text)
      (AppsvcSound config) := by
  have hset : ∀ (nw : Network) (r : Registry String (Item .appsvc)), AppsvcTexts config r →
      AppsvcSound config (nw.setRegistry .appsvc r) := by
    intro nw r hr
    rwa [AppsvcSound, registries_setRegistry]
  exact triple_zoom (triple_registerText fun _ h => servicePackets_create h) (fun _ hnw => hnw)
    (fun nw _ service r h => ⟨hset nw r h.1, Set.ext_iff.mp h.2⟩) fun nw _ r hr => hset nw r hr

/-- **The default services of an application have the packets of its texts.** -/
theorem triple_registerAppServices (texts : List String) :
    Triple (AppsvcSound config) (registerAppServices texts)
      (fun services nw => AppsvcSound config nw ∧ Serves config services texts)
      (AppsvcSound config) := by
  have hfold := @triple_foldlM _ _ _ _ (AppsvcSound config)
    (fun (group : ServiceGroup) definition => do
      let service ← registerAppsvc definition definition
      pure (group.addMember service))
    (fun done services nw => AppsvcSound config nw ∧ Serves config services done) texts
    (fun done text services _ => ?_) [] ⟨.empty "$appsvc", false⟩
  · refine hfold.mono (fun nw hnw => ⟨hnw, fun pk => ?_⟩) (fun _ _ h => h) fun _ h => h
    exact iff_of_false (fun ⟨_, h, _⟩ => List.not_mem_nil h) fun ⟨_, h, _⟩ => List.not_mem_nil h
  · rintro nw ⟨hnw, hserves⟩
    refine triple_bind (triple_registerAppsvc text)
      (fun service => triple_pure fun nw h => ?_) nw hnw
    refine ⟨h.1, fun pk => ?_⟩
    have hadded : ∀ {s}, s ∈ (services.addMember service).items ↔
        s ∈ services.items ∨ s ∈ [service] := fun {s} =>
      @mem_items_foldl_addMember [service] services s
    simp only [hadded, List.mem_append, or_and_right, exists_or, hserves pk, List.mem_singleton,
      exists_eq_left, h.2 pk]

/-- A program that keeps a registry leaves what holds of it. -/
theorem triple_of_leaves {α : Type} {k : Kind} {p : Program Network Fault α}
    (hp : Keeps (Leaves k) p) (P : Registry String (Item k) → Prop) :
    Triple (fun nw => P (nw.registries k)) p (fun _ nw => P (nw.registries k))
      (fun nw => P (nw.registries k)) := by
  intro nw hnw
  have hsame : nw.registries k = (exec p nw).2.registries k := hp nw
  rw [hsame] at hnw
  rcases hrun : exec p nw with ⟨fault | a, nw'⟩
  · rwa [hrun] at hnw
  · rwa [hrun] at hnw

/-- The packets of the default services of an application. -/
def defaultPackets {useAppSvc : Bool} (application : Item (.application useAppSvc)) : Set Packet :=
  {pk | ∃ service ∈ application.val.services.items, service.Matches pk}

/-- The item was cached, or is new and as it was created. -/
inductive Registers {k : Kind} (name : String) (created : Item k → Prop)
    (r : Registry String (Item k)) : Item k → Registry String (Item k) → Prop
  | cached {item : Item k} (h : r.items name = some item) : Registers name created r item r
  | new {item : Item k} (h : r.items name = none) (hitem : created item) :
      Registers name created r item (r.setItem name item)

theorem triple_registerNew {k : Kind} {name : String} {create : Program Network Fault (Item k)}
    {created : Item k → Prop} {I E : Network → Prop} {r : Registry String (Item k)}
    (hset : ∀ nw r, I nw → I (nw.setRegistry k r))
    (hcreate : Triple (fun nw => I nw ∧ nw.registries k = r) create
      (fun item nw => (I nw ∧ nw.registries k = r) ∧ created item) E) :
    Triple (fun nw => I nw ∧ nw.registries k = r) (registerNew k name create)
      (fun item nw => I nw ∧ Registers name created r item (nw.registries k)) E := by
  rintro nw ⟨hnw, rfl⟩
  have houtcome := hcreate nw ⟨hnw, rfl⟩
  rw [exec_registerNew]
  rcases hcached : (nw.registries k).items name with _ | item
  · rcases hrun : exec create nw with ⟨fault | item, nw'⟩
    · rw [hrun] at houtcome
      exact houtcome
    · rw [hrun] at houtcome
      obtain ⟨⟨hnw', hsame⟩, hitem⟩ := houtcome
      have hregisters : Registers name created (nw.registries k) item
          ((nw'.registries k).setItem name item) := hsame ▸ .new (hsame ▸ hcached) hitem
      refine ⟨hset nw' _ hnw', ?_⟩
      rwa [registries_setRegistry]
  · exact ⟨hnw, .cached hcached⟩

/-- **What the registration of an application does.** -/
theorem triple_registerApplication (name : String) (texts : List String) (useAppSvc : Bool)
    (r : Registry String (Item (.application useAppSvc))) :
    Triple (fun nw => AppsvcSound config nw ∧ nw.registries (.application useAppSvc) = r)
      (registerApplication name texts useAppSvc)
      (fun application nw => AppsvcSound config nw ∧ Registers name
        (fun application => defaultPackets application =
          {pk | ∃ text ∈ texts, pk ∈ serviceSet config text})
        r application (nw.registries (.application useAppSvc)))
      (AppsvcSound config) := by
  have hids := keeps_zoomIds appIdGen (fun g nw => { nw with appIdGen := g })
    (fun _ _ => ⟨rfl, rfl⟩) (IdGenerator.getId name)
  refine triple_registerNew
    (fun nw r hnw => hnw.setRegistry (k := .application useAppSvc) nofun r) ?_
  refine triple_bind ((triple_of_leaves (hids.2 .appsvc) (AppsvcTexts config)).frame
    (hids.2 (.application useAppSvc)) fun _ _ _ hsame hr => hsame.symm.trans hr) fun id => ?_
  refine triple_bind ((triple_registerAppServices texts).frame
    (leaves_registerAppServices (k := .application useAppSvc) nofun texts)
    fun _ _ _ hsame hr => hsame.symm.trans hr) fun services => ?_
  refine triple_get_bind ?_
  rintro nw ⟨⟨hnw, hserves⟩, hr⟩
  refine triple_pure ?_
  rintro _ rfl
  exact ⟨⟨hnw, hr⟩, Set.ext hserves⟩

end Network

/-! ### Applications -/

section Applications

open Network

variable (config : ModelConfig) (store : ObjectStore)

/-- The packets of the services an application of the store lists. -/
def appServiceSet (services : List String) : Set Packet :=
  {pk | ∃ texts, FirewallFactory.resolveAppServices store services = .ok texts ∧
    ∃ text ∈ texts, pk ∈ serviceSet config text}

/-- An application is registered under its name, and contains the packets of its services. -/
def applicationReading : Reading ApplicationObject Packet where
  literal _ := ∅
  key := ApplicationObject.name
  isGroup _ := false
  elements object := [(object.name, appServiceSet config store object.services)]

/-- The names of applications that are loaded. -/
def FirewallFactory.applicationScope (useAppSvc : Bool)
    (start : Registry String (Item (.application useAppSvc))) (names : Set String) :
    Scope Network (Item (.application useAppSvc)) ApplicationObject Packet :=
  ⟨applicationReference store useAppSvc, applicationReading config store, defaultPackets, start,
    names⟩

variable {config store}

theorem appServiceSet_eq {services texts : List String}
    (h : FirewallFactory.resolveAppServices store services = .ok texts) :
    appServiceSet config store services = {pk | ∃ text ∈ texts, pk ∈ serviceSet config text} := by
  ext pk
  constructor
  · intro ⟨texts', htexts', hpk⟩
    obtain rfl := Except.ok.inj (h.symm.trans htexts')
    exact hpk
  · exact fun hpk => ⟨texts, h, hpk⟩

theorem object_applicationReading (object : ApplicationObject) :
    (applicationReading config store).object object =
      appServiceSet config store object.services := by
  ext pk
  simp only [Reading.object, applicationReading, List.mem_singleton, exists_eq_left,
    Set.mem_ofPred_eq]

/-- **Applications are registered as the store defines them.**  An application that is cached
keeps its services; a new one gets those that the store resolves for it. -/
theorem FirewallFactory.describes_application {useAppSvc : Bool}
    {start : Registry String (Item (.application useAppSvc))} {names : Set String}
    (hc : (applicationScope config store useAppSvc start names).Consistent) :
    (applicationScope config store useAppSvc start names).Describes
      (fun nw => nw.registries (.application useAppSvc))
      (fun nw => nw.Sound ∧ AppsvcSound config nw) (fun _ => True) Step where
  keeping := keeping_applicationReference store useAppSvc
  extended nw nw' hnw hstep := (hstep hnw.1.1).2.registries _
  raised _ _ := trivial
  literal name _ hliteral := nomatch Except.ok.inj hliteral
  object name object hlooked hobject := by
    refine triple_bind
      (Q := fun texts nw => _ ∧ resolveAppServices store object.services = .ok texts)
      (triple_ofExcept (fun texts h nw hnw => ⟨hnw, h⟩) fun _ _ => trivial) fun texts => ?_
    rintro nw ⟨⟨⟨hsound, happsvc⟩, hinv⟩, htexts⟩
    have hcaches : (applicationScope config store useAppSvc start names).Caches object.name
        (appServiceSet config store object.services) :=
      .element (e := (object.name, appServiceSet config store object.services)) hlooked hobject
        (fun h => nomatch h) (List.mem_singleton_self _)
    have houtcome := triple_registerApplication object.name texts useAppSvc _ nw ⟨happsvc, rfl⟩
    have hstep := keeps_registerApplication object.name texts useAppSvc nw hsound
    -- what is registered depends on the services that the application has in the store
    refine triple_map (P := fun t => t = nw) ?_ nw rfl
    rintro _ rfl
    refine (houtcome.and_state (R := Sound) hstep.1).mono ?_ fun _ _ => trivial
    rintro application nw' ⟨⟨happsvc', hregisters⟩, hsound'⟩
    have hready : (applicationScope config store useAppSvc start names).Inv
          (nw'.registries (.application useAppSvc)) ∧
        (applicationScope config store useAppSvc start names).Ready
          (nw'.registries (.application useAppSvc)) name (.item application) := by
      generalize nw'.registries (.application useAppSvc) = r' at hregisters
      cases hregisters with
      | cached hitem =>
        have hden := hinv.den_item hc hcaches hitem
        exact ⟨hinv, .item hobject rfl hitem (hden.trans (object_applicationReading object).symm)⟩
      | new hnone hpackets =>
        have hden := hpackets.trans (appServiceSet_eq htexts).symm
        rw [← hden] at hcaches
        refine ⟨hinv.setItem hnone hcaches, .item hobject rfl ?_
          (hden.trans (object_applicationReading object).symm)⟩
        exact (congrFun (Registry.items_setItem ..) _).trans (Function.update_self ..)
    exact ⟨⟨⟨hsound', happsvc'⟩, hready.1⟩, hready.2⟩
  pool pool nw := by
    obtain ⟨id, hrun⟩ := @exec_registerGroup_ok _ _ Fault _ _ pool.name pool.members
      (nw.registries (.application useAppSvc))
    have hgroup : exec (registerApplicationGroup pool.name pool.members useAppSvc) nw =
        (.ok id, nw.setRegistry (.application useAppSvc)
          (exec (registerGroup pool.name pool.members : Program _ Fault ℕ)
            (nw.registries (.application useAppSvc))).2) := by
      rw [registerApplicationGroup, registerGroupOf, exec_onKind, hrun]
    refine ⟨_, exec_bind_ok hgroup, registries_setRegistry .., fun hnot hnw => ⟨?_, ?_⟩⟩
    · have hstep := keeps_registerGroupOf (k := .application useAppSvc) hnot nw hnw.1
      exact hstep.1
    · exact hnw.2.setRegistry (k := .application useAppSvc) nofun _
  getGroup _ _ := rfl

/-- **The applications of a row mean what the names denote.** -/
theorem FirewallFactory.triple_buildApplicationGroup {rule : RuleObject}
    {start : Registry String (Item (.application rule.defaultAppServices))} {names : Set String}
    (hc : (applicationScope config store rule.defaultAppServices start names).Consistent)
    (hnames : ∀ name ∈ rule.applications, name ∈ names) :
    Triple (fun s => (s.1.Sound ∧ AppsvcSound config s.1) ∧
        (applicationScope config store rule.defaultAppServices start names).Inv (s.1.registries _))
      (buildApplicationGroup store rule)
      (fun members s =>
        (applicationScope config store rule.defaultAppServices start names).Means
          (s.1.registries _) rule.applications members)
      (fun _ => True) :=
  (Scope.triple_build (describes_application hc) hc hnames).mono (fun _ hs => hs)
    (fun _ _ hs => hs.2) fun _ h => h

/-- The services of applications keep the packets of their texts. -/
theorem FirewallFactory.preserves_buildApplicationGroup (rule : RuleObject) :
    Keeps (Preserves fun s : Network × List String => AppsvcSound config s.1)
      (buildApplicationGroup store rule) := by
  have hkeeping : (applicationReference store rule.defaultAppServices).Keeping
      (Preserves (AppsvcSound config)) := {
    literal := fun _ => keeps_throw _
    object := fun object => keeps_bind (keeps_ofExcept _) fun texts => keeps_map _ fun nw hnw =>
      (triple_registerApplication object.name texts _ _ nw ⟨hnw, rfl⟩).state (fun _ _ h => h.1)
        fun _ h => h
    pool := fun pool _ => keeps_bind (fun nw hnw =>
      hnw.setRegistry (k := .application rule.defaultAppServices) nofun _) fun _ => keeps_pure _ }
  exact hkeeping.build _

end Applications

end RulesAnalyzer
