import RulesAnalyzer.Endpoint
import RulesAnalyzer.Application

/-!
# Predicates

The predicate of a rule lists the criteria a packet has to meet: zones and
addresses of both sides (with a flag to negate the addresses), services,
applications, users and urls.

## Main definitions

* `Criteria` — the groups of a predicate.
* `Predicate`, `Predicate.makeBdd` — predicates and their diagrams.
* `Predicate.Meets` — a packet meets all criteria, read off the flattened groups.

## Main results

* `Predicate.makeBdd_eq` — the any predicates do not need their shortcut.
* `predicate_encoding` — **the diagram of a predicate holds the packets that meet it.**
-/

namespace RulesAnalyzer

open Diagram

/-- The source criteria. -/
structure Sources where
  /-- The source zones. -/
  srcZones : SrcZoneGroup
  /-- The source addresses. -/
  srcAddresses : SrcAddressGroup
  /-- The source addresses are negated. -/
  negateSrcAddresses : Bool
  deriving DecidableEq

/-- The destination criteria. -/
structure Destinations where
  /-- The destination zones. -/
  dstZones : DstZoneGroup
  /-- The destination addresses. -/
  dstAddresses : DstAddressGroup
  /-- The destination addresses are negated. -/
  negateDstAddresses : Bool
  deriving DecidableEq

/-- The criteria of a predicate. -/
structure Criteria where
  /-- The source criteria. -/
  sources : Sources
  /-- The destination criteria. -/
  destinations : Destinations
  /-- The services. -/
  services : ServiceGroup
  /-- The applications. -/
  applications : ApplicationGroup
  /-- The users. -/
  users : UserGroup
  /-- The urls. -/
  urls : UrlGroup
  /-- A group of default services is only made by `default_services`, for the applications it
  comes with, and these are registered with their default services enabled. -/
  appDefault : services.isAppServices = true →
    services = defaultServices applications ∧ ∀ a ∈ applications.items, a.useAppSvc = true
  deriving DecidableEq

/-- The criteria of the predicate that stands for every packet. -/
def Criteria.any (ipModel : IPAddressModel) : Criteria where
  sources := ⟨srcAnyZoneGroup, srcAnyAddressGroup ipModel, false⟩
  destinations := ⟨dstAnyZoneGroup, dstAnyAddressGroup ipModel, false⟩
  services := ServiceGroup.any
  applications := anyApplicationGroup
  users := anyUserGroup
  urls := anyUrlGroup
  appDefault := nofun

/-- A predicate. -/
inductive Predicate
  /-- A predicate of the class itself. -/
  | ofCriteria (criteria : Criteria)
  /-- `Any4Predicate`, `Any6Predicate` or `Any64Predicate`. -/
  | any (ipModel : IPAddressModel)
  deriving DecidableEq

namespace Predicate

/-- The criteria of a predicate. -/
def criteria : Predicate → Criteria
  | ofCriteria criteria => criteria
  | any ipModel => Criteria.any ipModel

/-- The source zones. -/
def srcZones (p : Predicate) : SrcZoneGroup := p.criteria.sources.srcZones

/-- The source addresses. -/
def srcAddresses (p : Predicate) : SrcAddressGroup := p.criteria.sources.srcAddresses

/-- The source addresses are negated. -/
def negateSrcAddresses (p : Predicate) : Bool := p.criteria.sources.negateSrcAddresses

/-- The destination zones. -/
def dstZones (p : Predicate) : DstZoneGroup := p.criteria.destinations.dstZones

/-- The destination addresses. -/
def dstAddresses (p : Predicate) : DstAddressGroup := p.criteria.destinations.dstAddresses

/-- The destination addresses are negated. -/
def negateDstAddresses (p : Predicate) : Bool := p.criteria.destinations.negateDstAddresses

/-- The services. -/
def services (p : Predicate) : ServiceGroup := p.criteria.services

/-- The applications. -/
def applications (p : Predicate) : ApplicationGroup := p.criteria.applications

/-- The users. -/
def users (p : Predicate) : UserGroup := p.criteria.users

/-- The urls. -/
def urls (p : Predicate) : UrlGroup := p.criteria.urls

/-- The diagram of the class itself: the conjunction of the criteria.  The default services
of applications are left to the applications. -/
def criteriaBdd (p : Predicate) : ModelBdd :=
  bddAnd (bddAnd (bddAnd (bddAnd (bddAnd (bddAnd (bddAnd
    p.srcZones.makeBdd
    p.dstZones.makeBdd)
    (Mnode.negateIf p.srcAddresses p.negateSrcAddresses))
    (Mnode.negateIf p.dstAddresses p.negateDstAddresses))
    (if p.services.isAppServices then bddTrue else p.services.makeBdd))
    p.applications.makeBdd)
    p.users.makeBdd)
    p.urls.makeBdd

/-- The diagram of a predicate.  The any predicates override it. -/
def makeBdd : Predicate → ModelBdd
  | ofCriteria criteria => (ofCriteria criteria).criteriaBdd
  | any _ => bddTrue

end Predicate

instance : Mnode Predicate := ⟨Predicate.makeBdd⟩

/-- The predicate that only restricts the source zone. -/
def Predicate.ofSrcZones (zones : List (Fin 256)) : Predicate := .ofCriteria {
  Criteria.any .ip4Model with
  sources := {
    srcZones := zones.foldl (fun group (zone : Fin 256) =>
      group.addItem ⟨"", Range.singleton zone.val zone.isLt⟩) (.empty "$root")
    srcAddresses := srcAnyAddressGroup .ip4Model
    negateSrcAddresses := false } }

/-! ### What a predicate says about a packet -/

instance : Membership ℕ IpRange := ⟨fun range value =>
  match range with
  | .ip4 range => value ∈ range
  | .ip6 range => value ∈ range⟩

/-- The address of a packet in a model of one family. -/
def Packet.address (pk : Packet) (ipModel : IPAddressModel) (side : Side) : ℕ :=
  match ipModel with
  | .ip4Model => pk.value side.address4
  | _ => pk.value side.address6

theorem IpAddress.holds_iff {side : Side} {address : IpAddress side} {ipModel : IPAddressModel}
    (h : address.range.model = ipModel) {pk : Packet} :
    address.Holds pk ↔ pk.address ipModel side ∈ address.range := by
  obtain ⟨name, range⟩ := address
  subst h
  cases range with
  | ip4 range => exact Iff.rfl
  | ip6 range => exact Iff.rfl

namespace Predicate

/-- All options the groups of the predicate depend on are enabled. -/
structure OptionsEnabled (p : Predicate) : Prop where
  application : ∀ a ∈ p.applications.items, a.Enabled
  user : ∀ u ∈ p.users.items, u.Enabled
  url : ∀ u ∈ p.urls.items, u.Enabled

/-- All addresses of the predicate belong to one address model. -/
structure InModel (ipModel : IPAddressModel) (p : Predicate) : Prop where
  src : ∀ a ∈ p.srcAddresses.items, a.range.model = ipModel
  dst : ∀ a ∈ p.dstAddresses.items, a.range.model = ipModel

/-- The packet meets every criterion of the predicate. -/
structure Meets (ipModel : IPAddressModel) (p : Predicate) (pk : Packet) : Prop where
  srcZone : ∃ zone ∈ p.srcZones.items, pk.value .srcZone ∈ zone.range
  dstZone : ∃ zone ∈ p.dstZones.items, pk.value .dstZone ∈ zone.range
  srcAddress : (∃ address ∈ p.srcAddresses.items, pk.address ipModel .src ∈ address.range) ↔
    p.negateSrcAddresses = false
  dstAddress : (∃ address ∈ p.dstAddresses.items, pk.address ipModel .dst ∈ address.range) ↔
    p.negateDstAddresses = false
  service : ∃ service ∈ p.services.items, service.Matches pk
  application : ∃ application ∈ p.applications.items, application.Matches pk
  appDefault : p.services.isAppServices = true → ∃ application ∈ p.applications.items,
    pk.value .application ∈ application.range ∧
      ∃ service ∈ application.services.items, service.Matches pk
  user : ∃ user ∈ p.users.items, pk.value .user ∈ user.range
  url : ∃ url ∈ p.urls.items, pk.value .url ∈ url.range

/-! ### The any predicates -/

theorem srcZones_any (ipModel : IPAddressModel) : (any ipModel).srcZones.makeBdd = bddTrue := rfl

theorem dstZones_any (ipModel : IPAddressModel) : (any ipModel).dstZones.makeBdd = bddTrue := rfl

theorem srcAddresses_any (ipModel : IPAddressModel) :
    (any ipModel).srcAddresses.makeBdd = bddTrue := by cases ipModel <;> rfl

theorem dstAddresses_any (ipModel : IPAddressModel) :
    (any ipModel).dstAddresses.makeBdd = bddTrue := by cases ipModel <;> rfl

theorem mem_criteriaBdd {p : Predicate} {pk : Packet} : pk ∈ p.criteriaBdd ↔
    pk ∈ p.srcZones.makeBdd ∧ pk ∈ p.dstZones.makeBdd ∧
      (pk ∈ p.srcAddresses.makeBdd ↔ p.negateSrcAddresses = false) ∧
      (pk ∈ p.dstAddresses.makeBdd ↔ p.negateDstAddresses = false) ∧
      (p.services.isAppServices = false → pk ∈ p.services.makeBdd) ∧
      pk ∈ p.applications.makeBdd ∧ pk ∈ p.users.makeBdd ∧ pk ∈ p.urls.makeBdd := by
  have hservices : pk ∈ (if p.services.isAppServices then bddTrue else p.services.makeBdd) ↔
      (p.services.isAppServices = false → pk ∈ p.services.makeBdd) := by
    cases p.services.isAppServices <;> simp
  have hsrc : pk ∈ Mnode.negateIf p.srcAddresses p.negateSrcAddresses ↔
      (pk ∈ p.srcAddresses.makeBdd ↔ p.negateSrcAddresses = false) := Mnode.mem_negateIf
  have hdst : pk ∈ Mnode.negateIf p.dstAddresses p.negateDstAddresses ↔
      (pk ∈ p.dstAddresses.makeBdd ↔ p.negateDstAddresses = false) := Mnode.mem_negateIf
  simp only [criteriaBdd, mem_bddAnd, hservices, hsrc, hdst, and_assoc]

/-- **The shortcut of the any predicates is the conjunction of their criteria.** -/
theorem makeBdd_eq (p : Predicate) : p.makeBdd = p.criteriaBdd := by
  cases p with
  | ofCriteria criteria => rfl
  | any ipModel =>
    refine Bdd.eq_iff_mem.mpr fun pk => ?_
    rw [mem_criteriaBdd, srcZones_any, dstZones_any, srcAddresses_any, dstAddresses_any]
    simp only [makeBdd, mem_bddTrue, true_iff, true_and]
    exact ⟨rfl, rfl, fun _ => mem_bddTrue, mem_bddTrue, mem_bddTrue, mem_bddTrue⟩

/-! ### The encoding -/

theorem mem_srcZones {p : Predicate} {pk : Packet} : pk ∈ p.srcZones.makeBdd ↔
    ∃ zone ∈ p.srcZones.items, pk.value .srcZone ∈ zone.range := by
  rw [mem_makeBdd_group]
  exact exists_congr fun zone => and_congr_right fun _ => mem_makeBdd_zone

theorem mem_dstZones {p : Predicate} {pk : Packet} : pk ∈ p.dstZones.makeBdd ↔
    ∃ zone ∈ p.dstZones.items, pk.value .dstZone ∈ zone.range := by
  rw [mem_makeBdd_group]
  exact exists_congr fun zone => and_congr_right fun _ => mem_makeBdd_zone

/-- A packet is in an address group of a model of one family when its address lies in one of
the intervals. -/
theorem mem_addresses {side : Side} {group : Group (IpAddress side)} {ipModel : IPAddressModel}
    (h : ∀ a ∈ group.items, a.range.model = ipModel) {pk : Packet} : pk ∈ group.makeBdd ↔
      ∃ address ∈ group.items, pk.address ipModel side ∈ address.range := by
  rw [mem_makeBdd_group]
  refine exists_congr fun address => and_congr_right fun hmem => ?_
  exact mem_makeBdd_ipAddress.trans (IpAddress.holds_iff (h address hmem))

theorem mem_applications {group : ApplicationGroup} (h : ∀ a ∈ group.items, a.Enabled)
    {pk : Packet} : pk ∈ group.makeBdd ↔ ∃ a ∈ group.items, a.Matches pk := by
  rw [mem_makeBdd_group]
  exact exists_congr fun a => and_congr_right fun hmem => mem_makeBdd_application (h a hmem)

theorem mem_optionNodes {dt : DomainType} {option : ModelOption}
    {group : Group (OptionNode dt option)} (h : ∀ u ∈ group.items, u.Enabled) {pk : Packet} :
    pk ∈ group.makeBdd ↔ ∃ u ∈ group.items, pk.value dt ∈ u.range := by
  rw [mem_makeBdd_group]
  exact exists_congr fun u => and_congr_right fun hmem => mem_makeBdd_optionNode (h u hmem)

/-- With application-default services, the group has the services of the applications. -/
theorem mem_services_items {p : Predicate} (happ : p.services.isAppServices = true)
    {application : Application} (ha : application ∈ p.applications.items) {service : Service}
    (hs : service ∈ application.services.items) : service ∈ p.services.items := by
  obtain ⟨hservices, -⟩ := p.criteria.appDefault happ
  have hmem := mem_items_defaultServices.mpr ⟨application, ha, hs⟩
  rwa [services, hservices]

/-- An application that matches brings one of the services of the group along. -/
theorem service_of_application {p : Predicate} (happ : p.services.isAppServices = true)
    {application : Application} (ha : application ∈ p.applications.items) {pk : Packet}
    (hm : application.Matches pk) :
    (∃ service ∈ application.services.items, service.Matches pk) ∧
      ∃ service ∈ p.services.items, service.Matches pk := by
  obtain ⟨-, huse⟩ := p.criteria.appDefault happ
  obtain ⟨service, hs, hpk⟩ := hm.2 (huse application ha)
  exact ⟨⟨service, hs, hpk⟩, service, mem_services_items happ ha hs, hpk⟩

end Predicate

/-- **The encoding of predicates is faithful.**  The diagram of a predicate holds exactly the
packets that meet its criteria.  None of the shortcuts matters: the diagram of a range is the
two comparisons with its bounds, that of an any group the disjunction of its items, and that
of an any predicate the conjunction of its criteria. -/
theorem predicate_encoding (ipModel : IPAddressModel) (p : Predicate) (he : p.OptionsEnabled)
    (hm : p.InModel ipModel) :
    (∀ pk : Packet, pk ∈ p.makeBdd ↔ p.Meets ipModel pk) ∧ p.makeBdd = p.criteriaBdd ∧
      (∀ v : Mvalue, v.makeBdd = bddAnd (bvecLte v.range.lboundVec (getVar v.dt))
        (bvecLte (getVar v.dt) v.range.uboundVec)) ∧
      ∀ (T : Type) [Mnode T] (name : String) (items : List T)
        (covers : ∃ item ∈ items, Mnode.makeBdd item = bddTrue),
        (Group.any name items covers).makeBdd =
          items.foldl (fun condition item => bddOr condition (Mnode.makeBdd item)) bddFalse := by
  refine ⟨fun pk => ?_, p.makeBdd_eq, makeBdd_eq_bounds, fun T _ => Group.makeBdd_any⟩
  rw [p.makeBdd_eq, Predicate.mem_criteriaBdd, Predicate.mem_srcZones, Predicate.mem_dstZones,
    Predicate.mem_addresses hm.src, Predicate.mem_addresses hm.dst, mem_makeBdd_serviceGroup,
    Predicate.mem_applications he.application, Predicate.mem_optionNodes he.user,
    Predicate.mem_optionNodes he.url]
  constructor
  · rintro ⟨hsz, hdz, hsa, hda, hsvc, ⟨a, ha, hmatch⟩, huser, hurl⟩
    have hservice : ∃ service ∈ p.services.items, service.Matches pk := by
      cases happ : p.services.isAppServices with
      | true => exact (Predicate.service_of_application happ ha hmatch).2
      | false => exact hsvc happ
    have hown : p.services.isAppServices = true → ∃ a ∈ p.applications.items,
        pk.value .application ∈ a.range ∧ ∃ service ∈ a.services.items, service.Matches pk :=
      fun happ => ⟨a, ha, hmatch.1, (Predicate.service_of_application happ ha hmatch).1⟩
    exact ⟨hsz, hdz, hsa, hda, hservice, ⟨a, ha, hmatch⟩, hown, huser, hurl⟩
  · intro h
    exact ⟨h.srcZone, h.dstZone, h.srcAddress, h.dstAddress, fun _ => h.service, h.application,
      h.user, h.url⟩

theorem predicate_encoding_witness :
    (Packet.ofValues fun _ => 1) ∈ (Predicate.ofSrcZones [1, 2]).makeBdd ↔
      (Predicate.ofSrcZones [1, 2]).Meets .ip4Model (Packet.ofValues fun _ => 1) := by
  have henabled : (Predicate.ofSrcZones [1, 2]).OptionsEnabled := by
    constructor
    · intro a ha
      obtain rfl : a = Application.any := List.mem_singleton.mp (Group.mem_items.mp ha)
      exact trivial
    · intro u hu
      obtain rfl : u = OptionNode.any := List.mem_singleton.mp (Group.mem_items.mp hu)
      exact Or.inr rfl
    · intro u hu
      obtain rfl : u = OptionNode.any := List.mem_singleton.mp (Group.mem_items.mp hu)
      exact Or.inr rfl
  have hmodel : (Predicate.ofSrcZones [1, 2]).InModel .ip4Model := by
    constructor
    · intro a ha
      obtain rfl : a = IpAddress.any4 .ip4Model := List.mem_singleton.mp (Group.mem_items.mp ha)
      rfl
    · intro a ha
      obtain rfl : a = IpAddress.any4 .ip4Model := List.mem_singleton.mp (Group.mem_items.mp ha)
      rfl
  exact (predicate_encoding .ip4Model _ henabled hmodel).1 (Packet.ofValues fun _ => 1)

end RulesAnalyzer
