import RulesAnalyzer.Predicate
import Mathlib.Data.Set.Image

/-!
# Symmetrical predicates

The symmetrical predicate of a predicate exchanges source and destination: the
zones and addresses of one side are made into zones and addresses of the other.
The flags that negate the addresses stay on their side.

## Main definitions

* `Predicate.symmetrical` — the symmetrical predicate.
* `Packet.swap` — exchanges source and destination of a packet.
* `Predicate.exchangeNegations` — exchanges the two flags of a predicate.

## Main results

* `packets_symmetrical` — the packets of the symmetrical predicate are those of the
  predicate with its flags exchanged, swapped.
* `packets_symmetrical_symmetrical` — **twice symmetrical gives the same packets.**
* `packets_symmetrical_iff` — **when the packets are the swapped packets.**
-/

namespace RulesAnalyzer

open Diagram Mnode

/-! ### The symmetrical predicate -/

namespace SymmetricalPredicateCreator

/-- A group of new objects, one for each item.  New objects are distinct, so all of them are
added. -/
def createGroup {S T : Type} [Mnode S] [Mnode T] [DecidableEq S] (create : S → T)
    (group : Group S) : Group T :=
  group.items.foldl (fun symmetrical item => symmetrical.addItem (create item)) (.empty "")

/-- Source zones from the destination zones. -/
def createSrcZones (p : Predicate) : SrcZoneGroup := createGroup (Zone.recast "") p.dstZones

/-- Source addresses from the destination addresses. -/
def createSrcAddr (p : Predicate) : SrcAddressGroup :=
  createGroup (fun address => IpAddress.recast address.name address) p.dstAddresses

/-- Destination zones from the source zones. -/
def createDstZones (p : Predicate) : DstZoneGroup :=
  createGroup (fun zone => Zone.recast zone.name zone) p.srcZones

/-- Destination addresses from the source addresses. -/
def createDstAddr (p : Predicate) : DstAddressGroup :=
  createGroup (fun address => IpAddress.recast address.name address) p.srcAddresses

end SymmetricalPredicateCreator

open SymmetricalPredicateCreator

/-- The symmetrical predicate. -/
def Predicate.symmetrical (p : Predicate) : Predicate := .ofCriteria {
  sources := ⟨createSrcZones p, createSrcAddr p, p.negateSrcAddresses⟩
  destinations := ⟨createDstZones p, createDstAddr p, p.negateDstAddresses⟩
  services := p.services.clone
  applications := p.applications.clone
  users := p.users.clone
  urls := p.urls.clone
  -- a copy of a group of default services is a plain group
  appDefault := nofun }

/-! ### Swapping source and destination -/

/-- The other side. -/
def Side.other : Side → Side
  | src => dst
  | dst => src

/-- The domain with source and destination exchanged. -/
def DomainType.swap : DomainType → DomainType
  | srcZone => dstZone
  | srcAddress4 => dstAddress4
  | srcAddress6 => dstAddress6
  | dstZone => srcZone
  | dstAddress4 => srcAddress4
  | dstAddress6 => srcAddress6
  | dt => dt

@[simp] theorem DomainType.swap_swap (dt : DomainType) : dt.swap.swap = dt := by
  cases dt <;> rfl

@[simp] theorem DomainType.nbits_swap (dt : DomainType) : dt.swap.nbits = dt.nbits := by
  cases dt <;> rfl

/-- The packet with source and destination exchanged. -/
def Packet.swap (pk : Packet) : Packet := Packet.ofValues fun dt => pk.value dt.swap

@[simp] theorem Packet.value_swap (pk : Packet) (dt : DomainType) :
    pk.swap.value dt = pk.value dt.swap := by
  have hlt : pk.value dt.swap < 2 ^ dt.nbits := by
    rw [← dt.nbits_swap]
    exact pk.value_lt dt.swap
  exact Packet.value_ofValues hlt

theorem Packet.swap_involutive : Function.Involutive Packet.swap := by
  intro pk
  refine Packet.ext_value fun dt => ?_
  rw [Packet.value_swap, Packet.value_swap, DomainType.swap_swap]

/-- A diagram that does not look at source or destination does not see the swap. -/
theorem Supported.mem_swap_iff {S : Set DomainType} {a : ModelBdd} (h : Supported S a)
    (hS : ∀ dt ∈ S, dt.swap = dt) {pk : Packet} : pk.swap ∈ a ↔ pk ∈ a := by
  refine h pk.swap pk fun dt hdt => ?_
  rw [Packet.value_swap, hS dt hdt]

/-! ### The groups that are created -/

theorem makeBdd_createGroup {S T : Type} [Mnode S] [Mnode T] [DecidableEq S] {create : S → T}
    {group : Group S} {pk : Packet} : pk ∈ (createGroup create group).makeBdd ↔
      ∃ item ∈ group.items, pk ∈ Mnode.makeBdd (create item) := by
  have hfold : ∀ (l : List S) (acc : Group T),
      pk ∈ (l.foldl (fun symmetrical item => symmetrical.addItem (create item)) acc).makeBdd ↔
        pk ∈ acc.makeBdd ∨ ∃ item ∈ l, pk ∈ Mnode.makeBdd (create item) := by
    intro l
    induction l with
    | nil => simp
    | cons item l ih =>
      intro acc
      rw [List.foldl_cons, ih, Group.makeBdd, mem_bddOr, or_assoc]
      simp
  rw [createGroup, hfold]
  simp [Group.makeBdd]

/-- Where each new object holds the swapped packets, so does the new group. -/
theorem mem_createGroup_iff {S T : Type} [Mnode S] [Mnode T] [DecidableEq S] {create : S → T}
    {pk : Packet} (h : ∀ item, pk ∈ Mnode.makeBdd (create item) ↔ pk.swap ∈ Mnode.makeBdd item)
    {group : Group S} : pk ∈ (createGroup create group).makeBdd ↔ pk.swap ∈ group.makeBdd := by
  rw [makeBdd_createGroup, mem_makeBdd_group]
  exact exists_congr fun item => and_congr_right fun _ => h item

theorem mem_recast_zone {side : Side} {name : String} {zone : Zone side} {pk : Packet} :
    pk ∈ (zone.recast name : Zone side.other).makeBdd ↔ pk.swap ∈ zone.makeBdd := by
  rw [mem_makeBdd_zone, mem_makeBdd_zone, Packet.value_swap]
  cases side <;> exact Iff.rfl

theorem mem_recast_ipAddress {side : Side} {name : String} {address : IpAddress side}
    {pk : Packet} : pk ∈ (address.recast name : IpAddress side.other).makeBdd ↔
      pk.swap ∈ address.makeBdd := by
  rw [mem_makeBdd_ipAddress, mem_makeBdd_ipAddress]
  obtain ⟨addressName, range⟩ := address
  cases range with
  | ip4 range =>
    cases side <;> simp [IpAddress.Holds, IpAddress.recast, Side.other, Side.address4,
      DomainType.swap]
  | ip6 range =>
    cases side <;> simp [IpAddress.Holds, IpAddress.recast, Side.other, Side.address6,
      DomainType.swap]

section Parts

variable {p : Predicate} {pk : Packet}

theorem mem_createSrcZones :
    pk ∈ (createSrcZones p).makeBdd ↔ pk.swap ∈ p.dstZones.makeBdd :=
  mem_createGroup_iff fun _ => @mem_recast_zone .dst _ _ _

theorem mem_createDstZones :
    pk ∈ (createDstZones p).makeBdd ↔ pk.swap ∈ p.srcZones.makeBdd :=
  mem_createGroup_iff fun _ => @mem_recast_zone .src _ _ _

theorem mem_createSrcAddr :
    pk ∈ (createSrcAddr p).makeBdd ↔ pk.swap ∈ p.dstAddresses.makeBdd :=
  mem_createGroup_iff fun _ => @mem_recast_ipAddress .dst _ _ _

theorem mem_createDstAddr :
    pk ∈ (createDstAddr p).makeBdd ↔ pk.swap ∈ p.srcAddresses.makeBdd :=
  mem_createGroup_iff fun _ => @mem_recast_ipAddress .src _ _ _

end Parts

/-! ### The packets of the symmetrical predicate -/

/-- The predicate with the negation flags of its two sides exchanged. -/
def Predicate.exchangeNegations (p : Predicate) : Predicate := .ofCriteria {
  p.criteria with
  sources := { p.criteria.sources with negateSrcAddresses := p.negateDstAddresses }
  destinations := { p.criteria.destinations with negateDstAddresses := p.negateSrcAddresses } }

/-- The packets that meet the criteria other than the addresses. -/
def Predicate.others (p : Predicate) : Set Packet :=
  {pk | pk ∈ p.srcZones.makeBdd ∧ pk ∈ p.dstZones.makeBdd ∧
    (p.services.isAppServices = false → pk ∈ p.services.makeBdd) ∧
    pk ∈ p.applications.makeBdd ∧ pk ∈ p.users.makeBdd ∧ pk ∈ p.urls.makeBdd}

section Parts

variable {p : Predicate} {pk : Packet}

theorem mem_packets_predicate : pk ∈ packets p ↔ pk ∈ p.others ∧
    (pk ∈ p.srcAddresses.makeBdd ↔ p.negateSrcAddresses = false) ∧
    (pk ∈ p.dstAddresses.makeBdd ↔ p.negateDstAddresses = false) := by
  have hbdd : pk ∈ packets p ↔ pk ∈ p.criteriaBdd := by
    rw [← p.makeBdd_eq]
    exact Iff.rfl
  rw [hbdd, Predicate.mem_criteriaBdd, Predicate.others, Set.mem_ofPred_eq]
  constructor
  · rintro ⟨hsz, hdz, hsa, hda, hrest⟩
    exact ⟨⟨hsz, hdz, hrest⟩, hsa, hda⟩
  · rintro ⟨⟨hsz, hdz, hrest⟩, hsa, hda⟩
    exact ⟨hsz, hdz, hsa, hda, hrest⟩

theorem mem_packets_exchangeNegations : pk ∈ packets p.exchangeNegations ↔ pk ∈ p.others ∧
    (pk ∈ p.srcAddresses.makeBdd ↔ p.negateDstAddresses = false) ∧
    (pk ∈ p.dstAddresses.makeBdd ↔ p.negateSrcAddresses = false) :=
  @mem_packets_predicate p.exchangeNegations pk

/-- Applications whose default services are enabled bring their services along. -/
theorem mem_services_of_application (happ : p.services.isAppServices = true)
    (h : pk ∈ p.applications.makeBdd) : pk ∈ p.services.makeBdd := by
  obtain ⟨-, huse⟩ := p.criteria.appDefault happ
  obtain ⟨application, ha, hpk⟩ := mem_makeBdd_group.mp h
  have hsvc : pk ∈ application.services.makeBdd := by
    have huseApp := huse application ha
    cases application with
    | any => exact mem_bddTrue
    | app name range services options useAppSvc =>
      obtain rfl : useAppSvc = true := huseApp
      exact (mem_bddAnd.mp hpk).2
  obtain ⟨service, hs, hmatch⟩ := mem_makeBdd_serviceGroup.mp hsvc
  exact mem_makeBdd_serviceGroup.mpr ⟨service, Predicate.mem_services_items happ ha hs, hmatch⟩

theorem Service.swap_of_mem_domains : ∀ dt ∈ Service.domains, dt.swap = dt := by
  rintro dt (rfl | rfl | rfl | rfl) <;> rfl

theorem Application.swap_of_mem_domains : ∀ dt ∈ Application.domains, dt.swap = dt := by
  intro dt hdt
  rcases hdt with rfl | hdt
  · rfl
  · exact Service.swap_of_mem_domains dt hdt

theorem mem_services_swap : pk.swap ∈ p.services.makeBdd ↔ pk ∈ p.services.makeBdd :=
  (supported_serviceGroup _).mem_swap_iff Service.swap_of_mem_domains

theorem mem_applications_swap : pk.swap ∈ p.applications.makeBdd ↔ pk ∈ p.applications.makeBdd :=
  (supported_group fun application _ => supported_application application).mem_swap_iff
    Application.swap_of_mem_domains

theorem mem_optionNodes_swap {dt : DomainType} {option : ModelOption}
    {group : Group (OptionNode dt option)} (hdt : dt.swap = dt) :
    pk.swap ∈ group.makeBdd ↔ pk ∈ group.makeBdd :=
  (supported_group fun node _ => supported_optionNode node).mem_swap_iff fun _ h => by
    rw [Set.mem_singleton_iff.mp h, hdt]

/-- The services of the copy count, but the applications imply them. -/
theorem mem_others_symmetrical : pk ∈ p.symmetrical.others ↔ pk.swap ∈ p.others := by
  have hsvc : pk ∈ p.symmetrical.services.makeBdd ↔ pk.swap ∈ p.services.makeBdd := by
    show pk ∈ p.services.clone.makeBdd ↔ _
    rw [mem_services_swap, ServiceGroup.makeBdd_clone]
  have happ : pk ∈ p.symmetrical.applications.makeBdd ↔ pk.swap ∈ p.applications.makeBdd := by
    show pk ∈ p.applications.clone.makeBdd ↔ _
    rw [mem_applications_swap, Group.clone_eq]
  have huser : pk ∈ p.symmetrical.users.makeBdd ↔ pk.swap ∈ p.users.makeBdd := by
    show pk ∈ p.users.clone.makeBdd ↔ _
    rw [mem_optionNodes_swap rfl, Group.clone_eq]
  have hurl : pk ∈ p.symmetrical.urls.makeBdd ↔ pk.swap ∈ p.urls.makeBdd := by
    show pk ∈ p.urls.clone.makeBdd ↔ _
    rw [mem_optionNodes_swap rfl, Group.clone_eq]
  have hsz : pk ∈ p.symmetrical.srcZones.makeBdd ↔ pk.swap ∈ p.dstZones.makeBdd :=
    mem_createSrcZones
  have hdz : pk ∈ p.symmetrical.dstZones.makeBdd ↔ pk.swap ∈ p.srcZones.makeBdd :=
    mem_createDstZones
  -- the copy of the services is a plain group, also when they are default services
  have hplain : p.symmetrical.services.isAppServices = false := rfl
  rw [Predicate.others, Predicate.others, Set.mem_ofPred_eq, Set.mem_ofPred_eq, hsz, hdz, hsvc,
    happ, huser, hurl, hplain]
  constructor
  · rintro ⟨hd, hs, hservices, hrest⟩
    exact ⟨hs, hd, fun _ => hservices rfl, hrest⟩
  · rintro ⟨hs, hd, hservices, hrest⟩
    refine ⟨hd, hs, fun _ => ?_, hrest⟩
    cases hkind : p.services.isAppServices with
    | true =>
      -- default services contain what the applications use
      exact mem_services_of_application hkind hrest.1
    | false => exact hservices hkind

end Parts

/-- **The packets of the symmetrical predicate** are those of the predicate with its flags
exchanged, swapped. -/
theorem packets_symmetrical (p : Predicate) :
    packets p.symmetrical = Packet.swap '' packets p.exchangeNegations := by
  rw [Packet.swap_involutive.image_eq_preimage_symm]
  refine Set.ext fun pk => ?_
  have hsa : pk ∈ p.symmetrical.srcAddresses.makeBdd ↔ pk.swap ∈ p.dstAddresses.makeBdd :=
    mem_createSrcAddr
  have hda : pk ∈ p.symmetrical.dstAddresses.makeBdd ↔ pk.swap ∈ p.srcAddresses.makeBdd :=
    mem_createDstAddr
  rw [Set.mem_preimage, mem_packets_exchangeNegations, mem_packets_predicate,
    mem_others_symmetrical, hsa, hda, and_comm (a := (pk.swap ∈ p.dstAddresses.makeBdd ↔ _))]
  exact Iff.rfl

theorem packets_exchangeNegations_exchangeNegations (p : Predicate) :
    packets p.exchangeNegations.exchangeNegations = packets p := by
  refine Set.ext fun pk => ?_
  rw [mem_packets_exchangeNegations, mem_packets_predicate]
  exact Iff.rfl

/-- **Twice symmetrical gives the same packets.** -/
theorem packets_symmetrical_symmetrical (p : Predicate) :
    packets p.symmetrical.symmetrical = packets p := by
  have hcomm : p.symmetrical.exchangeNegations = p.exchangeNegations.symmetrical := rfl
  rw [packets_symmetrical, hcomm, packets_symmetrical, packets_exchangeNegations_exchangeNegations,
    Packet.swap_involutive.image_eq_preimage_symm, ← Set.preimage_comp,
    Packet.swap_involutive.comp_self, Set.preimage_id]

/-! ### When the flags can be exchanged -/

/-- The domain holds addresses of the side. -/
def Side.isAddress (side : Side) (dt : DomainType) : Bool :=
  dt == side.address4 || dt == side.address6

/-- The domains that do not hold addresses. -/
def notAddresses : Set DomainType :=
  {dt | Side.src.isAddress dt = false ∧ Side.dst.isAddress dt = false}

/-- Exchanging the negation flags has no effect: they agree, or no packet meets the other
criteria, or the address groups both hold nothing, or both hold everything. -/
def Predicate.NegationsExchange (p : Predicate) : Prop :=
  p.negateSrcAddresses = p.negateDstAddresses ∨ p.others = ∅ ∨
    (packets p.srcAddresses = ∅ ∧ packets p.dstAddresses = ∅) ∨
    (packets p.srcAddresses = Set.univ ∧ packets p.dstAddresses = Set.univ)

section Independence

variable {p : Predicate} {pk pk' : Packet}

theorem mem_addresses_congr {side : Side} {group : Group (IpAddress side)}
    (h : ∀ dt, side.isAddress dt = true → pk.value dt = pk'.value dt) :
    pk ∈ group.makeBdd ↔ pk' ∈ group.makeBdd := by
  refine supported_group (fun address _ => supported_ipAddress address) pk pk' ?_
  intro dt hdt
  rcases hdt with rfl | rfl
  · exact h _ (by simp [Side.isAddress])
  · exact h _ (by simp [Side.isAddress])

theorem supported_zones {side : Side} (group : Group (Zone side)) :
    Supported notAddresses group.makeBdd := by
  refine supported_group fun zone _ => (supported_zone zone).mono ?_
  rintro dt rfl
  cases side <;> exact ⟨rfl, rfl⟩

theorem service_domains_subset : Service.domains ⊆ notAddresses := by
  rintro dt (rfl | rfl | rfl | rfl) <;> exact ⟨rfl, rfl⟩

theorem supported_applications (group : ApplicationGroup) :
    Supported notAddresses group.makeBdd := by
  refine supported_group fun application _ => (supported_application application).mono ?_
  exact Set.insert_subset ⟨rfl, rfl⟩ service_domains_subset

theorem supported_optionNodes {dt : DomainType} {option : ModelOption}
    (hdt : dt ∈ notAddresses) (group : Group (OptionNode dt option)) :
    Supported notAddresses group.makeBdd :=
  supported_group fun node _ => (supported_optionNode node).mono (by simpa using hdt)

/-- The other criteria do not look at the addresses. -/
theorem mem_others_congr (h : ∀ dt ∈ notAddresses, pk.value dt = pk'.value dt) :
    pk ∈ p.others ↔ pk' ∈ p.others := by
  have hsvc := (supported_serviceGroup p.services).mono service_domains_subset
  rw [Predicate.others, Set.mem_ofPred_eq, Set.mem_ofPred_eq, supported_zones _ pk pk' h,
    supported_zones _ pk pk' h, hsvc pk pk' h, supported_applications _ pk pk' h,
    supported_optionNodes ⟨rfl, rfl⟩ _ pk pk' h, supported_optionNodes ⟨rfl, rfl⟩ _ pk pk' h]

/-- A packet can be given the source address of one packet and the destination address of
another. -/
theorem exists_mem_others (h : p.others.Nonempty) (pk pk' : Packet) : ∃ x ∈ p.others,
    (x ∈ p.srcAddresses.makeBdd ↔ pk ∈ p.srcAddresses.makeBdd) ∧
      (x ∈ p.dstAddresses.makeBdd ↔ pk' ∈ p.dstAddresses.makeBdd) := by
  obtain ⟨y, hy⟩ := h
  refine ⟨Packet.mix Side.src.isAddress pk (Packet.mix Side.dst.isAddress pk' y), ?_, ?_, ?_⟩
  · refine (mem_others_congr ?_).mpr hy
    rintro dt ⟨hsrc, hdst⟩
    simp [hsrc, hdst]
  · refine mem_addresses_congr fun dt hdt => ?_
    simp [hdt]
  · refine mem_addresses_congr fun dt hdt => ?_
    have hsrc : Side.src.isAddress dt = false := by
      cases dt <;> first | rfl | exact absurd hdt (by decide)
    simp [hdt, hsrc]

end Independence

/-- Exchanging two different flags keeps the criteria exactly where both are met or neither. -/
theorem exchange_iff {a b : Prop} {negateA negateB : Bool} (h : negateA ≠ negateB) :
    (((a ↔ negateB = false) ∧ (b ↔ negateA = false)) ↔
      ((a ↔ negateA = false) ∧ (b ↔ negateB = false))) ↔ (a ↔ b) := by
  obtain rfl : negateB = !negateA := by cases negateA <;> cases negateB <;> simp_all
  by_cases ha : a <;> by_cases hb : b <;> cases negateA <;> simp [ha, hb]

/-- The flags can be exchanged exactly where this has no effect.  If the other criteria leave a
packet, its two addresses can be chosen apart, so both address groups are full or both are empty. -/
theorem packets_exchangeNegations_iff (p : Predicate) :
    packets p.exchangeNegations = packets p ↔ p.NegationsExchange := by
  constructor
  · intro heq
    by_contra hnot
    rw [Predicate.NegationsExchange, not_or, not_or, not_or] at hnot
    obtain ⟨hflags, hothers, hnone, hall⟩ := hnot
    -- a packet is in one address group exactly when any packet is in the other
    have hiff : ∀ pk pk' : Packet,
        pk ∈ p.srcAddresses.makeBdd ↔ pk' ∈ p.dstAddresses.makeBdd := by
      intro pk pk'
      obtain ⟨x, hx, hsrc, hdst⟩ :=
        exists_mem_others (Set.nonempty_iff_ne_empty.mpr hothers) pk pk'
      have hmem : x ∈ packets p.exchangeNegations ↔ x ∈ packets p := by rw [heq]
      rw [mem_packets_exchangeNegations, mem_packets_predicate, hsrc, hdst,
        and_iff_right hx, and_iff_right hx] at hmem
      exact (exchange_iff hflags).mp hmem
    -- then both address groups are full, or both are empty
    by_cases hsome : ∃ pk', pk' ∈ p.dstAddresses.makeBdd
    · obtain ⟨pk', hpk'⟩ := hsome
      have hsrc : ∀ pk, pk ∈ p.srcAddresses.makeBdd := fun pk => (hiff pk pk').mpr hpk'
      refine hall ⟨Set.eq_univ_of_forall hsrc, Set.eq_univ_of_forall fun pk => ?_⟩
      exact (hiff pk pk).mp (hsrc pk)
    · have hdst : ∀ pk', pk' ∉ p.dstAddresses.makeBdd := fun pk' h => hsome ⟨pk', h⟩
      refine hnone ⟨Set.eq_empty_of_forall_notMem fun pk hpk => ?_,
        Set.eq_empty_of_forall_notMem hdst⟩
      exact hdst pk ((hiff pk pk).mp hpk)
  · intro h
    refine Set.ext fun pk => ?_
    rw [mem_packets_exchangeNegations, mem_packets_predicate]
    rcases h with hflags | hothers | ⟨hsrc, hdst⟩ | ⟨hsrc, hdst⟩
    · rw [hflags]
    · rw [hothers]
      exact iff_of_false (fun h => h.1) fun h => h.1
    · have hs : pk ∉ p.srcAddresses.makeBdd := Set.eq_empty_iff_forall_notMem.mp hsrc pk
      have hd : pk ∉ p.dstAddresses.makeBdd := Set.eq_empty_iff_forall_notMem.mp hdst pk
      rw [iff_false_intro hs, iff_false_intro hd, and_comm (a := (False ↔ _))]
    · have hs : pk ∈ p.srcAddresses.makeBdd := Set.eq_univ_iff_forall.mp hsrc pk
      have hd : pk ∈ p.dstAddresses.makeBdd := Set.eq_univ_iff_forall.mp hdst pk
      rw [iff_true_intro hs, iff_true_intro hd, and_comm (a := (True ↔ _))]

/-- **When the symmetrical predicate is the swap of the predicate.** -/
theorem packets_symmetrical_iff (p : Predicate) :
    packets p.symmetrical = Packet.swap '' packets p ↔ p.NegationsExchange := by
  rw [packets_symmetrical, Packet.swap_involutive.injective.image_injective.eq_iff,
    packets_exchangeNegations_iff]

end RulesAnalyzer
