import RulesAnalyzer.Symmetry
import RulesAnalyzer.Analysis

/-!
# Address families

In the model that combines both families, a packet has an IPv4 address and an
IPv6 address on each side, and no variable says which of them counts.  A
criterion on the addresses of one family leaves those of the other open.

## Main definitions

* `Predicate.OnlyFamily` — all addresses of a predicate are of one family, none negated.
* `Predicate.addresses` — the packets that meet the criteria on addresses.

## Main results

* `Predicate.exists_mem_families` — the criteria of the two families are independent.
* `families_independent` — **when predicates of different families share packets, and when
  one contains the other.**
-/

namespace RulesAnalyzer

open Diagram Mnode

/-! ### The addresses of one family -/

/-- The domain of the addresses of a family. -/
def Side.address (side : Side) : IPAddressModel → DomainType
  | .ip4Model => side.address4
  | _ => side.address6

theorem Packet.address_eq (pk : Packet) (family : IPAddressModel) (side : Side) :
    pk.address family side = pk.value (side.address family) := by
  cases family <;> rfl

namespace IpRange

/-- The lower bound. -/
def lbound : IpRange → ℕ
  | ip4 range => range.lbound
  | ip6 range => range.lbound

theorem lbound_mem (range : IpRange) : range.lbound ∈ range := by
  cases range with
  | ip4 range => exact ⟨le_rfl, range.lbound_le⟩
  | ip6 range => exact ⟨le_rfl, range.lbound_le⟩

theorem lbound_lt (range : IpRange) (side : Side) :
    range.lbound < 2 ^ (side.address range.model).nbits := by
  cases range with
  | ip4 range => cases side <;> exact range.lbound_lt
  | ip6 range => cases side <;> exact range.lbound_lt

end IpRange

/-! ### Predicates on the addresses of one family -/

namespace Predicate

/-- All addresses are of one family and none is negated. -/
structure OnlyFamily (family : IPAddressModel) (p : Predicate) : Prop
    extends InModel family p where
  negate_src : p.negateSrcAddresses = false
  negate_dst : p.negateDstAddresses = false

/-- The packets that meet the criteria on addresses. -/
def addresses (p : Predicate) : Set Packet :=
  {pk | pk ∈ p.srcAddresses.makeBdd ∧ pk ∈ p.dstAddresses.makeBdd}

variable {p q : Predicate} {pk pk' : Packet} {family : IPAddressModel}

theorem OnlyFamily.mem_packets (h : p.OnlyFamily family) :
    pk ∈ packets p ↔ pk ∈ p.others ∧ pk ∈ p.addresses := by
  rw [mem_packets_predicate, h.negate_src, h.negate_dst]
  simp only [iff_true]
  exact Iff.rfl

/-- Only the addresses of the own family are read. -/
theorem OnlyFamily.mem_addresses_congr (h : p.OnlyFamily family)
    (hsrc : pk.address family .src = pk'.address family .src)
    (hdst : pk.address family .dst = pk'.address family .dst) :
    pk ∈ p.addresses ↔ pk' ∈ p.addresses := by
  rw [addresses, Set.mem_ofPred_eq, Set.mem_ofPred_eq, mem_addresses h.src, mem_addresses h.src,
    mem_addresses h.dst, mem_addresses h.dst, hsrc, hdst]

/-- The domain holds addresses of the family. -/
def isAddressOf (family : IPAddressModel) (dt : DomainType) : Bool :=
  dt == Side.src.address family || dt == Side.dst.address family

theorem isAddressOf_of_notAddresses {dt : DomainType} (h : dt ∈ notAddresses)
    (family : IPAddressModel) : isAddressOf family dt = false := by
  obtain ⟨hsrc, hdst⟩ := h
  cases dt <;> cases family <;> first | rfl | exact hsrc | exact hdst

/-- **The criteria of the two families are independent**: one packet can have the IPv4
addresses of a second one, the IPv6 addresses of a third one, and all else of a fourth. -/
theorem exists_mem_families (hp : p.OnlyFamily .ip4Model) (hq : q.OnlyFamily .ip6Model)
    (pk₄ pk₆ other : Packet) : ∃ pk : Packet, (pk ∈ p.addresses ↔ pk₄ ∈ p.addresses) ∧
      (pk ∈ q.addresses ↔ pk₆ ∈ q.addresses) ∧ (pk ∈ p.others ↔ other ∈ p.others) ∧
        (pk ∈ q.others ↔ other ∈ q.others) := by
  let pk := Packet.mix (isAddressOf .ip4Model) pk₄
    (Packet.mix (isAddressOf .ip6Model) pk₆ other)
  have hother : ∀ dt ∈ notAddresses, pk.value dt = other.value dt := by
    intro dt hdt
    simp [pk, isAddressOf_of_notAddresses hdt]
  have h4 : ∀ side, pk.address .ip4Model side = pk₄.address .ip4Model side := by
    intro side
    cases side <;> simp [pk, Packet.address_eq, isAddressOf]
  have h6 : ∀ side, pk.address .ip6Model side = pk₆.address .ip6Model side := by
    intro side
    cases side <;> simp [pk, Packet.address_eq, isAddressOf, Side.address, Side.address4,
      Side.address6]
  exact ⟨pk, hp.mem_addresses_congr (h4 _) (h4 _), hq.mem_addresses_congr (h6 _) (h6 _),
    mem_others_congr hother, mem_others_congr hother⟩

/-- A predicate with an address on both sides is met by the addresses of some packet. -/
theorem OnlyFamily.addresses_nonempty (h : p.OnlyFamily family)
    (hsrc : p.srcAddresses.items ≠ []) (hdst : p.dstAddresses.items ≠ []) :
    p.addresses.Nonempty := by
  obtain ⟨a, ha⟩ := List.exists_mem_of_ne_nil _ hsrc
  obtain ⟨b, hb⟩ := List.exists_mem_of_ne_nil _ hdst
  let pk := Packet.ofValues fun dt =>
    if dt = Side.src.address family then a.range.lbound else b.range.lbound
  have hpa : pk.address family .src = a.range.lbound := by
    rw [Packet.address_eq, Packet.value_ofValues]
    · exact if_pos rfl
    · rw [if_pos rfl, ← h.src a ha]
      exact a.range.lbound_lt .src
  have hne : Side.dst.address family ≠ Side.src.address family := by cases family <;> decide
  have hpb : pk.address family .dst = b.range.lbound := by
    rw [Packet.address_eq, Packet.value_ofValues]
    · exact if_neg hne
    · rw [if_neg hne, ← h.dst b hb]
      exact b.range.lbound_lt .dst
  refine ⟨pk, (mem_addresses h.src).mpr ⟨a, ha, ?_⟩, (mem_addresses h.dst).mpr ⟨b, hb, ?_⟩⟩
  · rw [hpa]
    exact a.range.lbound_mem
  · rw [hpb]
    exact b.range.lbound_mem

/-- Without an address on one side no packet meets the predicate. -/
theorem OnlyFamily.addresses_eq_empty (h : p.OnlyFamily family)
    (hno : p.srcAddresses.items = [] ∨ p.dstAddresses.items = []) : p.addresses = ∅ := by
  refine Set.eq_empty_of_forall_notMem fun pk hpk => ?_
  obtain ⟨⟨a, ha, -⟩, b, hb, -⟩ :=
    And.imp (mem_addresses h.src).mp (mem_addresses h.dst).mp hpk
  rcases hno with hno | hno
  · rw [hno] at ha
    exact List.not_mem_nil ha
  · rw [hno] at hb
    exact List.not_mem_nil hb

/-- One predicate contains the other exactly when the other is empty, or its own addresses
are no restriction at all and the remaining criteria contain the remaining criteria. -/
theorem subset_iff_of_independent {P Q A B : Set Packet}
    (hP : ∀ pk, pk ∈ packets p ↔ pk ∈ P ∧ pk ∈ A)
    (hQ : ∀ pk, pk ∈ packets q ↔ pk ∈ Q ∧ pk ∈ B)
    (hmix : ∀ pk pk' other, ∃ x : Packet, (x ∈ A ↔ pk ∈ A) ∧ (x ∈ B ↔ pk' ∈ B) ∧
      (x ∈ P ↔ other ∈ P) ∧ (x ∈ Q ↔ other ∈ Q)) :
    packets q ⊆ packets p ↔ packets q = ∅ ∨ Q ⊆ P ∧ A = Set.univ := by
  constructor
  · intro hsub
    rcases Set.eq_empty_or_nonempty (packets q) with hempty | ⟨y, hy⟩
    · exact Or.inl hempty
    · obtain ⟨hyQ, hyB⟩ := (hQ y).mp hy
      -- a packet with the addresses `pk` for `p`, those of `y` for `q`, and all else of `other`
      have hmove : ∀ pk other : Packet, other ∈ Q → pk ∈ A ∧ other ∈ P := by
        intro pk other hother
        obtain ⟨x, hxA, hxB, hxP, hxQ⟩ := hmix pk y other
        have hx := hsub ((hQ x).mpr ⟨hxQ.mpr hother, hxB.mpr hyB⟩)
        obtain ⟨hP', hA'⟩ := (hP x).mp hx
        exact ⟨hxA.mp hA', hxP.mp hP'⟩
      refine Or.inr ⟨fun other hother => (hmove y other hother).2, ?_⟩
      exact Set.eq_univ_of_forall fun pk => (hmove pk y hyQ).1
  · intro h pk hpk
    rcases h with hempty | ⟨hQP, hA⟩
    · rw [hempty] at hpk
      exact absurd hpk (Set.notMem_empty pk)
    · rw [hP, hA]
      exact ⟨hQP ((hQ pk).mp hpk).1, Set.mem_univ pk⟩

/-- One packet has the addresses of both predicates, since they use different variables. -/
theorem not_disjoint_families (hp : p.OnlyFamily .ip4Model) (hq : q.OnlyFamily .ip6Model)
    (hothers : ¬Disjoint p.others q.others)
    (hpitems : p.srcAddresses.items ≠ [] ∧ p.dstAddresses.items ≠ [])
    (hqitems : q.srcAddresses.items ≠ [] ∧ q.dstAddresses.items ≠ []) :
    ¬Disjoint (packets p) (packets q) := by
  obtain ⟨other, hother, hother'⟩ := Set.not_disjoint_iff.mp hothers
  obtain ⟨pk₄, hpk₄⟩ := hp.addresses_nonempty hpitems.1 hpitems.2
  obtain ⟨pk₆, hpk₆⟩ := hq.addresses_nonempty hqitems.1 hqitems.2
  obtain ⟨pk, h4, h6, hpo, hqo⟩ := exists_mem_families hp hq pk₄ pk₆ other
  exact Set.not_disjoint_iff.mpr ⟨pk, hp.mem_packets.mpr ⟨hpo.mpr hother, h4.mpr hpk₄⟩,
    hq.mem_packets.mpr ⟨hqo.mpr hother', h6.mpr hpk₆⟩⟩

end Predicate

open Predicate in
/-- **Families are independent.**  A predicate on IPv4 addresses and one on IPv6 addresses
share a packet as soon as their other criteria do, and one contains the other only when its
own addresses are all addresses of its family on both sides. -/
theorem families_independent (p q : Predicate) (hp : p.OnlyFamily .ip4Model)
    (hq : q.OnlyFamily .ip6Model) :
    (Disjoint (packets p) (packets q) ↔ Disjoint p.others q.others ∨
      (p.srcAddresses.items = [] ∨ p.dstAddresses.items = []) ∨
        (q.srcAddresses.items = [] ∨ q.dstAddresses.items = [])) ∧
    (packets q ⊆ packets p ↔ packets q = ∅ ∨ q.others ⊆ p.others ∧ p.addresses = Set.univ) ∧
    (packets p ⊆ packets q ↔ packets p = ∅ ∨ p.others ⊆ q.others ∧ q.addresses = Set.univ) := by
  have hpmem : ∀ pk, pk ∈ packets p ↔ pk ∈ p.others ∧ pk ∈ p.addresses := fun _ => hp.mem_packets
  have hqmem : ∀ pk, pk ∈ packets q ↔ pk ∈ q.others ∧ pk ∈ q.addresses := fun _ => hq.mem_packets
  refine ⟨?_, subset_iff_of_independent hpmem hqmem fun pk pk' other =>
    exists_mem_families hp hq pk pk' other, subset_iff_of_independent hqmem hpmem
      fun pk pk' other => ?_⟩
  · constructor
    · intro hdis
      -- nothing else separates them, and a packet can have a source of one family and a destination
      -- of the other
      by_contra hnot
      rw [not_or, not_or, not_or, not_or] at hnot
      obtain ⟨hothers, hpitems, hqitems⟩ := hnot
      exact not_disjoint_families hp hq hothers hpitems hqitems hdis
    · intro h
      refine Set.disjoint_left.mpr fun pk hpk hpk' => ?_
      obtain ⟨hpo, hpa⟩ := (hpmem pk).mp hpk
      obtain ⟨hqo, hqa⟩ := (hqmem pk).mp hpk'
      rcases h with hdis | hno | hno
      · exact Set.disjoint_left.mp hdis hpo hqo
      · rw [hp.addresses_eq_empty hno] at hpa
        exact hpa
      · rw [hq.addresses_eq_empty hno] at hqa
        exact hqa
  · -- the same with the families exchanged
    obtain ⟨x, h4, h6, hpo, hqo⟩ := exists_mem_families hp hq pk' pk other
    exact ⟨x, h6, h4, hqo, hpo⟩

/-! ### Rules of different families -/

/-- A predicate that only restricts the addresses. -/
def Predicate.ofAddresses (srcRange dstRange : IpRange) : Predicate := .ofCriteria {
  Criteria.any .ip64Model with
  sources := ⟨srcAnyZoneGroup, Group.ofItem "" ⟨"", srcRange⟩, false⟩
  destinations := ⟨dstAnyZoneGroup, Group.ofItem "" ⟨"", dstRange⟩, false⟩ }

theorem Predicate.onlyFamily_ofAddresses {family : IPAddressModel} {srcRange dstRange : IpRange}
    (hsrc : srcRange.model = family) (hdst : dstRange.model = family) :
    (ofAddresses srcRange dstRange).OnlyFamily family where
  src a ha := by
    obtain rfl : a = ⟨"", srcRange⟩ := List.mem_singleton.mp (Group.mem_items.mp ha)
    exact hsrc
  dst a ha := by
    obtain rfl : a = ⟨"", dstRange⟩ := List.mem_singleton.mp (Group.mem_items.mp ha)
    exact hdst
  negate_src := rfl
  negate_dst := rfl

/-- From any IPv4 address to any IPv4 address. -/
def anyToAny4 : Predicate :=
  .ofAddresses (IpAddress.any4 .ip64Model : SrcAddress).range
    (IpAddress.any4 .ip64Model : DstAddress).range

/-- From 2001:db8::1 to any IPv6 address. -/
def hostToAny6 : Predicate :=
  .ofAddresses (.ip6 ⟨0x20010db8000000000000000000000001, 0x20010db8000000000000000000000001,
    le_rfl, by decide⟩) (IpAddress.any6 .ip64Model : DstAddress).range

theorem families_independent_witness :
    Disjoint (packets anyToAny4) (packets hostToAny6) ↔
      Disjoint anyToAny4.others hostToAny6.others ∨
        (anyToAny4.srcAddresses.items = [] ∨ anyToAny4.dstAddresses.items = []) ∨
          (hostToAny6.srcAddresses.items = [] ∨ hostToAny6.dstAddresses.items = []) :=
  (families_independent anyToAny4 hostToAny6 (Predicate.onlyFamily_ofAddresses rfl rfl)
    (Predicate.onlyFamily_ofAddresses rfl rfl)).1

/-- A rule that denies all of IPv4 shadows a rule on an IPv6 address. -/
theorem families_mix : anyToAny4.OnlyFamily .ip4Model ∧ hostToAny6.OnlyFamily .ip6Model ∧
    ¬Disjoint (packets anyToAny4) (packets hostToAny6) ∧
      Analyzer.checkAnomaly [⟨1, "", .enabled, .deny, anyToAny4⟩,
        ⟨2, "", .enabled, .allow, hostToAny6⟩] .ip64Model (fun _ => false) =
          .ok ⟨[⟨⟨2, "", .enabled, .allow, hostToAny6⟩,
            .shadowed [⟨1, "", .enabled, .deny, anyToAny4⟩]⟩], false⟩ := by
  have h4 : anyToAny4.OnlyFamily .ip4Model := Predicate.onlyFamily_ofAddresses rfl rfl
  have h6 : hostToAny6.OnlyFamily .ip6Model := Predicate.onlyFamily_ofAddresses rfl rfl
  have hothers : ¬Disjoint anyToAny4.others hostToAny6.others := by
    refine Set.not_disjoint_iff.mpr ⟨Packet.ofValues fun _ => 0, ?_, ?_⟩
    · exact ⟨rfl, rfl, fun _ => rfl, rfl, rfl, rfl⟩
    · exact ⟨rfl, rfl, fun _ => rfl, rfl, rfl, rfl⟩
  refine ⟨h4, h6, Predicate.not_disjoint_families h4 h6 hothers ?_ ?_, by decide +kernel⟩
  · constructor <;> exact List.cons_ne_nil _ _
  · constructor <;> exact List.cons_ne_nil _ _

end RulesAnalyzer
