import RulesAnalyzer.AddressParser
import RulesAnalyzer.Application
import RulesAnalyzer.References
import RulesAnalyzer.ServiceParser
import Mathlib.Logic.Function.Basic

/-!
# The network

The network caches all objects that the rules of its firewalls refer to.  Each kind
of object has its own registry; zones, applications, users and urls get a number
from a generator when they are registered.

## Main definitions

* `Kind`, `Item` — the kinds of objects, and the objects of a kind.
* `IdGenerator`, `IdGenerator.getId` — the numbers.
* `Network`, `Network.fresh` — the registries, and the network before anything is loaded.
* `Network.registerZone`, `Network.registerAddress`, … — the registrations.
* `Network.Sound`, `Network.Extends` — the invariant, and what a registration may change.

## Main results

* `Network.keeps_registerZone`, … — **registrations extend a sound network.**
* `Network.sound_fresh` — a network is sound at the start.
-/

namespace RulesAnalyzer

open Effect Shared

/-! ### Kinds of objects -/

/-- The kinds of objects a network caches.  Applications with and without their default
services are kept apart, as are the services of rules and those of applications. -/
inductive Kind
  | zone (side : Side)
  | address (side : Side)
  | service
  | application (useAppSvc : Bool)
  | appsvc
  | user
  | url
  deriving DecidableEq

/-- The objects of a kind.  An application that is cached among those with default services has
them enabled. -/
def Item : Kind → Type
  | .zone side => Zone side
  | .address side => IpAddress side
  | .service => Service
  | .application useAppSvc => { a : Application // useAppSvc = true → a.useAppSvc = true }
  | .appsvc => Service
  | .user => User
  | .url => Url

instance : ∀ k, DecidableEq (Item k)
  | .zone side => inferInstanceAs (DecidableEq (Zone side))
  | .address side => inferInstanceAs (DecidableEq (IpAddress side))
  | .service => inferInstanceAs (DecidableEq Service)
  | .application useAppSvc =>
    inferInstanceAs (DecidableEq { a : Application // useAppSvc = true → a.useAppSvc = true })
  | .appsvc => inferInstanceAs (DecidableEq Service)
  | .user => inferInstanceAs (DecidableEq User)
  | .url => inferInstanceAs (DecidableEq Url)

/-! ### Numbers -/

/-- A generator of numbers of `nbits` bits, counting up from 1. -/
structure IdGenerator (nbits : ℕ) where
  name : String
  ubound : ℕ
  ubound_le : ubound ≤ 2 ^ nbits
  nextId : ℕ
  idTable : String → Option (Fin (2 ^ nbits))

namespace IdGenerator

/-- A new generator. -/
def create {nbits : ℕ} (name : String) (ubound : ℕ) (h : ubound ≤ 2 ^ nbits) :
    IdGenerator nbits := ⟨name, ubound, h, 1, fun _ => none⟩

/-- The number of a string.  The counter goes on when the numbers are exhausted. -/
def getId {nbits : ℕ} (str : String) : Program (IdGenerator nbits) Fault (Fin (2 ^ nbits)) := do
  let generator ← get
  match generator.idTable str with
  | some id => pure id
  | none =>
    modify fun g => { g with nextId := (g.nextId + 1) % 2 ^ 32 }
    if h : generator.nextId < generator.ubound then
      let id : Fin (2 ^ nbits) := ⟨generator.nextId, h.trans_le generator.ubound_le⟩
      modify fun g => { g with idTable := Function.update g.idTable str (some id) }
      pure id
    else throw (.runtimeError (generator.name ++ " id generator overflow"))

end IdGenerator

/-! ### The network -/

/-- The configuration of the model, with the library functions that read addresses. -/
structure ModelConfig where
  ipModel : IPAddressModel
  strictIpParser : Bool
  inet : InetPton

/-- The model of IPv4 addresses, with strict parsing. -/
def ModelConfig.dotted : ModelConfig := ⟨.ip4Model, true, .dotted⟩

/-- The registries and the generators. -/
structure Network where
  registries : (k : Kind) → Registry String (Item k)
  zoneIdGen : IdGenerator 8
  appIdGen : IdGenerator 10
  userIdGen : IdGenerator 11
  urlIdGen : IdGenerator 11
  modelOptions : ModelOptions

namespace Network

/-- A registry that only has some items. -/
def ofItems {T : Type} (items : List (String × T)) : Registry String T :=
  items.foldl (fun r item => r.setItem item.1 item.2) ⟨fun _ => none, fun _ => none, []⟩

/-- The addresses a network starts with. -/
def anyAddresses (side : Side) : IPAddressModel → List (String × IpAddress side)
  | .ip4Model => [("any", IpAddress.any4 .ip4Model)]
  | .ip6Model => [("any", IpAddress.any6 .ip6Model)]
  | .ip64Model => [("any4", IpAddress.any4 .ip64Model), ("any6", IpAddress.any6 .ip64Model)]

/-- The registries a network starts with. -/
def freshRegistry (config : ModelConfig) : (k : Kind) → Registry String (Item k)
  | .zone side => ofItems [("any", (Zone.any : Zone side))]
  | .address side => ofItems (anyAddresses side config.ipModel)
  | .service => ofItems [("any", Service.any)]
  | .application _ => ofItems [("any", ⟨Application.any, fun _ => rfl⟩)]
  | .appsvc => ofItems [("any", Service.any)]
  | .user => ofItems [("any", (OptionNode.any : User))]
  | .url => ofItems [("any", (OptionNode.any : Url))]

/-- The network before anything is loaded. -/
def fresh (config : ModelConfig) : Network where
  registries := freshRegistry config
  zoneIdGen := .create "zone" 255 (by decide)
  appIdGen := .create "application" 1023 (by decide)
  userIdGen := .create "user" 2047 (by decide)
  urlIdGen := .create "url" 2047 (by decide)
  modelOptions := {.application, .user, .url}

/-- Replaces the registry of one kind. -/
def setRegistry (nw : Network) (k : Kind) (r : Registry String (Item k)) : Network :=
  { nw with registries := Function.update nw.registries k r }

theorem registries_setRegistry (nw : Network) (k : Kind) (r : Registry String (Item k)) :
    (nw.setRegistry k r).registries k = r := Function.update_self ..

theorem registries_setRegistry_of_ne {k k' : Kind} (hk : k' ≠ k) (nw : Network)
    (r : Registry String (Item k)) : (nw.setRegistry k r).registries k' = nw.registries k' :=
  Function.update_of_ne hk ..

/-- A program on the registry of one kind. -/
def onKind {α : Type} (k : Kind) (p : Program (Registry String (Item k)) Fault α) :
    Program Network Fault α := zoom (·.registries k) (fun r nw => nw.setRegistry k r) p

/-- A program on a generator. -/
def onZoneIds {α : Type} (p : Program (IdGenerator 8) Fault α) : Program Network Fault α :=
  zoom zoneIdGen (fun g nw => { nw with zoneIdGen := g }) p

/-- A program on the ids of applications, on the network. -/
def onAppIds {α : Type} (p : Program (IdGenerator 10) Fault α) : Program Network Fault α :=
  zoom appIdGen (fun g nw => { nw with appIdGen := g }) p

/-- A program on the ids of users, on the network. -/
def onUserIds {α : Type} (p : Program (IdGenerator 11) Fault α) : Program Network Fault α :=
  zoom userIdGen (fun g nw => { nw with userIdGen := g }) p

/-- A program on the ids of urls, on the network. -/
def onUrlIds {α : Type} (p : Program (IdGenerator 11) Fault α) : Program Network Fault α :=
  zoom urlIdGen (fun g nw => { nw with urlIdGen := g }) p

/-- The zone that is cached under a name. -/
def getZone (nw : Network) (side : Side) (name : String) : Option (Zone side) :=
  (nw.registries (.zone side)).items name

/-- Registers an object that needs more of the network than its registry. -/
def registerNew (k : Kind) (name : String) (create : Program Network Fault (Item k)) :
    Program Network Fault (Item k) := do
  match ((← get).registries k).items name with
  | some item => pure item
  | none =>
    let item ← create
    onKind k (modify fun r => r.setItem name item)
    pure item

/-- Registers a zone. -/
def registerZone (side : Side) (name : String) : Program Network Fault (Item (.zone side)) :=
  registerNew (.zone side) name do
    let id ← onZoneIds (IdGenerator.getId name)
    pure (⟨name, Range.singleton id.val id.isLt⟩ : Zone side)

/-- Registers a service of an application. -/
def registerAppsvc (name serviceDefinition : String) : Program Network Fault Service :=
  onKind .appsvc (registerItem name (Service.create name serviceDefinition))

/-- Registers the default services of an application. -/
def registerAppServices (serviceDefinitions : List String) : Program Network Fault ServiceGroup :=
  serviceDefinitions.foldlM (fun (group : ServiceGroup) definition => do
    let service ← registerAppsvc definition definition
    pure (group.addMember service)) ⟨.empty "$appsvc", false⟩

/-- Registers an application. -/
def registerApplication (name : String) (serviceDefinitions : List String) (useAppSvc : Bool) :
    Program Network Fault (Item (.application useAppSvc)) :=
  registerNew (.application useAppSvc) name do
    let id ← onAppIds (IdGenerator.getId name)
    let services ← registerAppServices serviceDefinitions
    let nw ← get
    pure ⟨.app name (Range.singleton id.val id.isLt) services nw.modelOptions useAppSvc,
      fun h => h⟩

/-- Registers a user. -/
def registerUser (name : String) : Program Network Fault (Item .user) :=
  registerNew .user name do
    let id ← onUserIds (IdGenerator.getId name)
    let nw ← get
    pure (⟨name, Range.singleton id.val id.isLt, nw.modelOptions⟩ : User)

/-- Registers a url. -/
def registerUrl (name : String) : Program Network Fault (Item .url) :=
  registerNew .url name do
    let id ← onUrlIds (IdGenerator.getId name)
    let nw ← get
    pure (if name = "any" then OptionNode.any
      else (⟨name, Range.singleton id.val id.isLt, nw.modelOptions⟩ : Url))

/-- Registers a group of registered objects. -/
def registerGroupOf (k : Kind) (name : String) (members : List String) :
    Program Network Fault ℕ := onKind k (registerGroup name members)

/-- Registers a group of applications. -/
def registerApplicationGroup (name : String) (members : List String) (useAppSvc : Bool) :
    Program Network Fault ℕ := registerGroupOf (.application useAppSvc) name members

/-- Registers a group of users. -/
def registerUserGroup (name : String) (members : List String) : Program Network Fault ℕ :=
  registerGroupOf .user name members

/-- Registers a group of urls. -/
def registerUrlGroup (name : String) (members : List String) : Program Network Fault ℕ :=
  registerGroupOf .url name members

/-! Addresses and services only need their own registry. -/

section Values

variable (config : ModelConfig) (side : Side)

/-- The address of a text, under a name. -/
def createAddress (name address : String) : Except Fault (Item (.address side)) :=
  IpAddress.create config.inet name address config.ipModel config.strictIpParser

/-- Registers an address of one of the sides. -/
def registerAddress (name address : String) :
    Program (Registry String (Item (.address side))) Fault (Item (.address side)) :=
  registerValue (createAddress config side) name address

/-- Registers a list of addresses. -/
def registerMultiAddress (name : String) (addresses : List String) :
    Program (Registry String (Item (.address side))) Fault ℕ :=
  registerValues (createAddress config side) name addresses

/-- Registers a group of registered addresses. -/
def registerAddressGroup (name : String) (members : List String) :
    Program (Registry String (Item (.address side))) Fault ℕ := registerGroup name members

/-- Registers a service. -/
def registerService (name serviceDefinition : String) :
    Program (Registry String (Item .service)) Fault (Item .service) :=
  registerValue Service.create name serviceDefinition

/-- Registers a list of services. -/
def registerMultiService (name : String) (serviceDefinitions : List String) :
    Program (Registry String (Item .service)) Fault ℕ :=
  registerValues Service.create name serviceDefinitions

/-- Registers a group of registered services. -/
def registerServiceGroup (name : String) (members : List String) :
    Program (Registry String (Item .service)) Fault ℕ := registerGroup name members

end Values

/-! ### What registration keeps -/

/-- All registries are sound. -/
def Sound (nw : Network) : Prop := ∀ k, (nw.registries k).Sound

/-- All registries are extended, and the options stay. -/
structure Extends (nw nw' : Network) : Prop where
  registries : ∀ k, (nw.registries k).Extends (nw'.registries k)
  modelOptions : nw'.modelOptions = nw.modelOptions

instance : Std.Refl Extends := ⟨fun _ => ⟨fun _ => refl _, rfl⟩⟩

instance : IsTrans Network Extends where
  trans _ _ _ h h' := ⟨fun k => IsTrans.trans _ _ _ (h.registries k) (h'.registries k),
    h'.modelOptions.trans h.modelOptions⟩

/-- Registration in a network whose registries are sound. -/
abbrev Step : Network → Network → Prop := Under Sound Extends

/-- The registry of a kind stays. -/
def Leaves (k : Kind) : Network → Network → Prop :=
  Through (fun nw : Network => nw.registries k) Eq

instance (k : Kind) : Std.Refl (Leaves k) := inferInstanceAs (Std.Refl (Through _ Eq))

instance (k : Kind) : IsTrans Network (Leaves k) := inferInstanceAs (IsTrans _ (Through _ Eq))

/-- A registry that changes as registration changes it. -/
theorem step_update {k : Kind} {nw : Network} {r : Registry String (Item k)}
    (hr : Under Registry.Sound Registry.Extends (nw.registries k) r) :
    Step nw (nw.setRegistry k r) := by
  intro hsound
  have hstep := hr (hsound k)
  refine ⟨fun k' => ?_, fun k' => ?_, rfl⟩
  · by_cases hk : k' = k
    · subst hk
      simpa only [setRegistry, Function.update_self] using hstep.1
    · simpa only [setRegistry, Function.update_of_ne hk] using hsound k'
  · by_cases hk : k' = k
    · subst hk
      simpa only [setRegistry, Function.update_self] using hstep.2
    · simpa only [setRegistry, Function.update_of_ne hk] using refl (nw.registries k')

section Keeps

variable {α : Type} {k k' : Kind}

theorem exec_onKind (p : Program (Registry String (Item k)) Fault α) (nw : Network) :
    exec (onKind k p) nw =
      ((exec p (nw.registries k)).1, nw.setRegistry k (exec p (nw.registries k)).2) := exec_zoom ..

theorem keeps_onKind {p : Program (Registry String (Item k)) Fault α}
    (hp : Keeps (Under Registry.Sound Registry.Extends) p) : Keeps Step (onKind k p) :=
  keeps_zoom hp fun _ _ => step_update

theorem leaves_onKind (hk : k' ≠ k) (p : Program (Registry String (Item k)) Fault α) :
    Keeps (Leaves k') (onKind k p) := fun _ => (registries_setRegistry_of_ne hk _ _).symm

/-- A program that only uses a generator. -/
theorem keeps_zoomIds {n : ℕ} (get : Network → IdGenerator n)
    (set : IdGenerator n → Network → Network) (hset : ∀ g nw,
      (set g nw).registries = nw.registries ∧ (set g nw).modelOptions = nw.modelOptions)
    (p : Program (IdGenerator n) Fault α) :
    Keeps Step (zoom get set p) ∧ ∀ k, Keeps (Leaves k) (zoom get set p) := by
  have hregistries : ∀ nw, (exec (zoom get set p) nw).2.registries = nw.registries := fun nw =>
    (hset _ nw).1
  refine ⟨fun nw hsound => ⟨?_, ?_, (hset _ nw).2⟩, fun k nw => ?_⟩
  · rwa [Sound, hregistries]
  · rw [hregistries]
    exact fun k => refl _
  · exact congrFun (hregistries nw).symm k

section RegisterNew

variable {name : String} {create : Program Network Fault (Item k)}

/-- A name that is cached, or a new item that is cached then. -/
theorem exec_registerNew (nw : Network) : exec (registerNew k name create) nw =
    match (nw.registries k).items name with
    | some item => (.ok item, nw)
    | none => match exec create nw with
      | (.ok item, nw') => (.ok item, nw'.setRegistry k ((nw'.registries k).setItem name item))
      | (.error fault, nw') => (.error fault, nw') := by
  rw [registerNew, exec_get_bind]
  rcases (nw.registries k).items name with _ | item
  · rw [exec_bind]
    rcases exec create nw with ⟨fault | item, nw'⟩ <;> rfl
  · rfl

/-- A registration returns what is cached, or it caches what it creates. -/
theorem returns_registerNew {nw nw' : Network} {item : Item k}
    (h : Returns (registerNew k name create) nw item nw') :
    ((nw.registries k).items name = some item ∧ nw' = nw) ∨
      ∃ nw₁, Returns create nw item nw₁ ∧
        nw' = nw₁.setRegistry k ((nw₁.registries k).setItem name item) := by
  rw [Returns, exec_registerNew] at h
  rcases hname : (nw.registries k).items name with _ | cached
  · rw [hname] at h
    rcases hcreate : exec create nw with ⟨fault | created, nw₁⟩
    · rw [hcreate] at h
      cases h
    · rw [hcreate] at h
      obtain ⟨hitem, rfl⟩ := Prod.mk.inj h
      obtain rfl := Except.ok.inj hitem
      exact Or.inr ⟨nw₁, hcreate, rfl⟩
  · rw [hname] at h
    obtain ⟨hitem, rfl⟩ := Prod.mk.inj h
    obtain rfl := Except.ok.inj hitem
    exact Or.inl ⟨rfl, rfl⟩

theorem keeps_registerNew (hcreate : Keeps Step create) (hleaves : Keeps (Leaves k) create) :
    Keeps Step (registerNew k name create) := by
  intro nw
  rw [exec_registerNew]
  rcases hname : (nw.registries k).items name with _ | item
  · have hstep := hcreate nw
    have hsame : nw.registries k = (exec create nw).2.registries k := hleaves nw
    rcases hrun : exec create nw with ⟨fault | item, nw'⟩
    · rwa [hrun] at hstep
    · rw [hrun] at hstep hsame
      have hnone : (nw'.registries k).items name = none := by
        rw [← hsame]
        exact hname
      have hset : Step nw' (nw'.setRegistry k ((nw'.registries k).setItem name item)) :=
        step_update fun hr => ⟨Registry.sound_setItem hr, Registry.grows_setItem hnone⟩
      exact Trans.trans hstep hset
  · exact refl nw

theorem leaves_registerNew (hk : k' ≠ k) (hleaves : Keeps (Leaves k') create) :
    Keeps (Leaves k') (registerNew k name create) := by
  intro nw
  rw [exec_registerNew]
  rcases (nw.registries k).items name with _ | item
  · have hsame := hleaves nw
    rcases hrun : exec create nw with ⟨fault | item, nw'⟩
    · rwa [hrun] at hsame
    · rw [hrun] at hsame
      exact hsame.trans (Function.update_of_ne hk _ _).symm
  · exact refl nw

/-- A property of a registry that a new item keeps, the registration keeps. -/
theorem preserves_registerNew {P : Registry String (Item k) → Prop}
    (hleaves : Keeps (Leaves k) create) (hset : ∀ nw item nw', Returns create nw item nw' →
      P (nw.registries k) → P ((nw.registries k).setItem name item)) :
    Keeps (Preserves fun nw : Network => P (nw.registries k)) (registerNew k name create) := by
  intro nw hnw
  rw [exec_registerNew]
  rcases (nw.registries k).items name with _ | item
  · have hsame : nw.registries k = (exec create nw).2.registries k := hleaves nw
    rcases hrun : exec create nw with ⟨fault | item, nw'⟩
    · rw [hrun] at hsame
      simpa only [hsame] using hnw
    · have hnew := hset nw item nw' hrun hnw
      rw [hrun] at hsame
      rw [hsame] at hnew
      simpa only [registries_setRegistry] using hnew
  · exact hnw

end RegisterNew

/-- **Registration of a zone extends the network**, as do the registrations below. -/
theorem keeps_registerZone (side : Side) (name : String) :
    Keeps Step (registerZone side name) := by
  have hids := keeps_zoomIds zoneIdGen (fun g nw => { nw with zoneIdGen := g })
    (fun _ _ => ⟨rfl, rfl⟩) (IdGenerator.getId name)
  exact keeps_registerNew (keeps_bind hids.1 fun _ => keeps_pure _)
    (keeps_bind (hids.2 _) fun _ => keeps_pure _)

theorem keeps_registerAppServices (serviceDefinitions : List String) :
    Keeps Step (registerAppServices serviceDefinitions) :=
  keeps_foldlM fun _ _ _ => keeps_bind (keeps_onKind (keeps_registerItem _ _))
    fun _ => keeps_pure _

theorem leaves_registerAppServices (hk : k ≠ .appsvc) (serviceDefinitions : List String) :
    Keeps (Leaves k) (registerAppServices serviceDefinitions) :=
  keeps_foldlM fun _ _ _ => keeps_bind (leaves_onKind hk _) fun _ => keeps_pure _

theorem keeps_registerApplication (name : String) (serviceDefinitions : List String)
    (useAppSvc : Bool) : Keeps Step (registerApplication name serviceDefinitions useAppSvc) := by
  have hids := keeps_zoomIds appIdGen (fun g nw => { nw with appIdGen := g })
    (fun _ _ => ⟨rfl, rfl⟩) (IdGenerator.getId name)
  refine keeps_registerNew (keeps_bind hids.1 fun _ => ?_) (keeps_bind (hids.2 _) fun _ => ?_)
  · exact keeps_bind (keeps_registerAppServices _)
      fun _ => keeps_bind keeps_get fun _ => keeps_pure _
  · exact keeps_bind (leaves_registerAppServices (k := .application useAppSvc) nofun _)
      fun _ => keeps_bind keeps_get fun _ => keeps_pure _

theorem keeps_registerUser (name : String) : Keeps Step (registerUser name) := by
  have hids := keeps_zoomIds userIdGen (fun g nw => { nw with userIdGen := g })
    (fun _ _ => ⟨rfl, rfl⟩) (IdGenerator.getId name)
  exact keeps_registerNew (keeps_bind hids.1 fun _ => keeps_bind keeps_get fun _ => keeps_pure _)
    (keeps_bind (hids.2 _) fun _ => keeps_bind keeps_get fun _ => keeps_pure _)

theorem keeps_registerUrl (name : String) : Keeps Step (registerUrl name) := by
  have hids := keeps_zoomIds urlIdGen (fun g nw => { nw with urlIdGen := g })
    (fun _ _ => ⟨rfl, rfl⟩) (IdGenerator.getId name)
  exact keeps_registerNew (keeps_bind hids.1 fun _ => keeps_bind keeps_get fun _ => keeps_pure _)
    (keeps_bind (hids.2 _) fun _ => keeps_bind keeps_get fun _ => keeps_pure _)

theorem leaves_registerZone {side : Side} (hk : k ≠ .zone side) (name : String) :
    Keeps (Leaves k) (registerZone side name) := by
  have hids := keeps_zoomIds zoneIdGen (fun g nw => { nw with zoneIdGen := g })
    (fun _ _ => ⟨rfl, rfl⟩) (IdGenerator.getId name)
  exact leaves_registerNew hk (keeps_bind (hids.2 k) fun _ => keeps_pure _)

theorem leaves_registerApplication {useAppSvc : Bool} (hk : k ≠ .application useAppSvc)
    (hsvc : k ≠ .appsvc) (name : String) (serviceDefinitions : List String) :
    Keeps (Leaves k) (registerApplication name serviceDefinitions useAppSvc) := by
  have hids := keeps_zoomIds appIdGen (fun g nw => { nw with appIdGen := g })
    (fun _ _ => ⟨rfl, rfl⟩) (IdGenerator.getId name)
  exact leaves_registerNew hk (keeps_bind (hids.2 k) fun _ =>
    keeps_bind (leaves_registerAppServices hsvc _) fun _ =>
      keeps_bind keeps_get fun _ => keeps_pure _)

theorem leaves_registerUser (hk : k ≠ .user) (name : String) :
    Keeps (Leaves k) (registerUser name) := by
  have hids := keeps_zoomIds userIdGen (fun g nw => { nw with userIdGen := g })
    (fun _ _ => ⟨rfl, rfl⟩) (IdGenerator.getId name)
  exact leaves_registerNew hk (keeps_bind (hids.2 k) fun _ =>
    keeps_bind keeps_get fun _ => keeps_pure _)

theorem leaves_registerUrl (hk : k ≠ .url) (name : String) :
    Keeps (Leaves k) (registerUrl name) := by
  have hids := keeps_zoomIds urlIdGen (fun g nw => { nw with urlIdGen := g })
    (fun _ _ => ⟨rfl, rfl⟩) (IdGenerator.getId name)
  exact leaves_registerNew hk (keeps_bind (hids.2 k) fun _ =>
    keeps_bind keeps_get fun _ => keeps_pure _)

theorem keeps_registerGroupOf {name : String} {members : List String} (h : name ∉ members) :
    Keeps Step (registerGroupOf k name members) := keeps_onKind (keeps_registerGroup h)

end Keeps

/-! ### The network at the start -/

theorem ofItems_eq {T : Type} (items : List (String × T)) :
    (ofItems items).groups = (fun _ => none) ∧ (ofItems items).heap = [] := by
  have hfold : ∀ (l : List (String × T)) (r : Registry String T),
      (l.foldl (fun r item => r.setItem item.1 item.2) r).groups = r.groups ∧
        (l.foldl (fun r item => r.setItem item.1 item.2) r).heap = r.heap := by
    intro l
    induction l with
    | nil => exact fun r => ⟨rfl, rfl⟩
    | cons item l ih => exact fun r => ih _
  exact hfold items _

theorem sound_ofItems {T : Type} (items : List (String × T)) : (ofItems items).Sound where
  named k id hid := by
    rw [(ofItems_eq items).1] at hid
    cases hid
  descending id cell hcell := by
    rw [(ofItems_eq items).2, List.getElem?_nil] at hcell
    cases hcell

/-- **A network is sound at the start.** -/
theorem sound_fresh (config : ModelConfig) : (fresh config).Sound := by
  intro k
  cases k <;> exact sound_ofItems _

end Network

end RulesAnalyzer
