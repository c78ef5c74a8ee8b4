import RulesAnalyzer.Comparator
import RulesAnalyzer.Firewall
import RulesAnalyzer.History

/-!
# The zone filter

A command can be restricted to a pair of zones.  The filter keeps the rules whose
zones contain both; the rules it keeps still speak about their other zones.

## Main definitions

* `RuleList.filterZones` — the rules for a pair of zones.
* `Firewall.checkEquivalence` — the comparison of two firewalls, with an optional filter.
* `ZonePair.Between` — the packets from the one zone to the other.

## Main results

* `RuleList.decision_filterZones` — between the zones the filter changes no decision.
* `Firewall.checkEquivalence_zones_iff` — **what a filtered comparison reports.**
* `Session.singleZones_run` — a registered zone, apart from the zone `any`, is a single zone.
* `Session.firstMatch_registered_zones` — **between registered zones the filter changes no first
  match.**
-/

namespace RulesAnalyzer

open Diagram Effect Mnode RuleList Shared

/-- A source zone and a destination zone. -/
structure ZonePair where
  srcZone : SrcZone
  dstZone : DstZone
  deriving DecidableEq

namespace ZonePair

/-- The two zones are single zones, not ranges of zones. -/
structure Concrete (zones : ZonePair) : Prop where
  src : zones.srcZone.range.isSingleton = true
  dst : zones.dstZone.range.isSingleton = true

/-- The packet goes from the source zone to the destination zone. -/
def Between (zones : ZonePair) (pk : Packet) : Prop :=
  pk.value .srcZone ∈ zones.srcZone.range ∧ pk.value .dstZone ∈ zones.dstZone.range

end ZonePair

/-- The rules whose zones contain the zones of the pair. -/
def RuleList.filterZones (acl : RuleList) (zones : ZonePair) : RuleList :=
  acl.filter fun rule => isSubset zones.srcZone rule.predicate.srcZones &&
    isSubset zones.dstZone rule.predicate.dstZones

namespace Firewall

/-- The rules a command looks at. -/
def filteredRules (firewall : Firewall) : Option ZonePair → RuleList
  | none => firewall.acl
  | some zones => firewall.acl.filterZones zones

/-- The command reports that the rules of two firewalls are equivalent. -/
def checkEquivalence (firewall₁ firewall₂ : Firewall) (zonesFilter : Option ZonePair) : Bool :=
  let relation := PolicyListComparator.compare (firewall₁.filteredRules zonesFilter)
    (firewall₂.filteredRules zonesFilter)
  relation.allowed == .equal && relation.denied == .equal

end Firewall

/-! ### The rules that are kept -/

/-- A single zone with a packet in a zone group is contained in it. -/
theorem isSubset_zone_of_mem {side : Side} {zone : Zone side} {group : Group (Zone side)}
    (hzone : zone.range.isSingleton = true) {pk : Packet} (hpk : pk.value side.zone ∈ zone.range)
    (hgroup : pk ∈ group.makeBdd) : isSubset zone group = true := by
  have hbounds : zone.range.lbound = zone.range.ubound := beq_iff_eq.mp hzone
  have hsupported : Supported {side.zone} group.makeBdd :=
    supported_group fun zone _ => supported_zone zone
  rw [isSubset_iff]
  intro pk' hpk'
  have hvalue := Range.mem_def.mp hpk
  have hvalue' := Range.mem_def.mp (mem_makeBdd_zone.mp hpk')
  -- a zone group only looks at the zone, and both packets have the single value
  refine (hsupported pk pk' fun dt hdt => ?_).mp hgroup
  obtain rfl : dt = side.zone := hdt
  omega

/-- **Between two single zones the filter changes no first match.** -/
theorem RuleList.firstMatch_filterZones (acl : RuleList) {zones : ZonePair}
    (hzones : zones.Concrete) {pk : Packet} (hpk : zones.Between pk) :
    firstMatch (acl.filterZones zones) pk = firstMatch acl pk := by
  refine FirstMatch.firstMatch_filter fun rule hrule => ?_
  have hmem := covers_iff.mp (FirstMatch.covers_of_firstMatch hrule)
  obtain ⟨⟨hsrc, hdst, -⟩, -⟩ := mem_packets_predicate.mp hmem
  rw [isSubset_zone_of_mem hzones.src hpk.1 hsrc, isSubset_zone_of_mem hzones.dst hpk.2 hdst,
    Bool.and_self]

/-- **Between two single zones the filter changes no decision.** -/
theorem RuleList.decision_filterZones (acl : RuleList) {zones : ZonePair} (hzones : zones.Concrete)
    {pk : Packet} (hpk : zones.Between pk) :
    decision (acl.filterZones zones) pk = decision acl pk :=
  congrArg (Option.map Rule.action) (firstMatch_filterZones acl hzones hpk)

namespace Firewall

/-- All rules a command looks at are enabled. -/
theorem enabledRules_filteredRules (firewall : Firewall) (zonesFilter : Option ZonePair) :
    PolicyListComparator.enabledRules (firewall.filteredRules zonesFilter) =
      firewall.filteredRules zonesFilter := by
  refine List.filter_eq_self.mpr fun rule hrule => ?_
  have hacl : rule ∈ firewall.acl := by
    cases zonesFilter with
    | none => exact hrule
    | some zones => exact (List.mem_filter.mp hrule).1
  exact (List.mem_filter.mp hacl).2

/-- The report is about the decisions of the rules the command looks at. -/
theorem checkEquivalence_iff (firewall₁ firewall₂ : Firewall) (zonesFilter : Option ZonePair) :
    checkEquivalence firewall₁ firewall₂ zonesFilter = true ↔ ∀ pk,
      decision (firewall₁.filteredRules zonesFilter) pk =
        decision (firewall₂.filteredRules zonesFilter) pk := by
  have hcompare := PolicyListComparator.compare_equal_iff (firewall₁.filteredRules zonesFilter)
    (firewall₂.filteredRules zonesFilter)
  rw [enabledRules_filteredRules, enabledRules_filteredRules] at hcompare
  rw [← hcompare, checkEquivalence, Bool.and_eq_true, beq_iff_eq, beq_iff_eq]
  constructor
  · intro h
    exact PolicylistRelationShip.mk.injEq .. ▸ h
  · intro h
    rw [h]
    exact ⟨rfl, rfl⟩

/-- **What a filtered comparison reports.**  The rules are reported equivalent exactly when the
firewalls decide alike between the zones, and the rules that are kept decide alike on all
other packets as well. -/
theorem checkEquivalence_zones_iff (firewall₁ firewall₂ : Firewall) (zones : ZonePair)
    (hzones : zones.Concrete) :
    checkEquivalence firewall₁ firewall₂ (some zones) = true ↔
      (∀ pk, zones.Between pk → decision firewall₁.acl pk = decision firewall₂.acl pk) ∧
      ∀ pk, ¬zones.Between pk → decision (firewall₁.acl.filterZones zones) pk =
        decision (firewall₂.acl.filterZones zones) pk := by
  rw [checkEquivalence_iff]
  constructor
  · intro h
    refine ⟨fun pk hpk => ?_, fun pk _ => h pk⟩
    exact (decision_filterZones _ hzones hpk).symm.trans
      ((h pk).trans (decision_filterZones _ hzones hpk))
  · intro h pk
    obtain ⟨hbetween, hother⟩ := h
    -- between the zones the filter does not matter, elsewhere it is all that counts
    by_cases hpk : zones.Between pk
    · rw [filteredRules, filteredRules, decision_filterZones _ hzones hpk,
        decision_filterZones _ hzones hpk]
      exact hbetween pk hpk
    · exact hother pk hpk

/-- From zone 1 to zone 1. -/
def zonesOne : ZonePair where
  srcZone := ⟨"one", Range.singleton 1 (by decide)⟩
  dstZone := ⟨"one", Range.singleton 1 (by decide)⟩

/-- Allows what comes from the zones. -/
def allowing (zones : List (Fin 256)) : Firewall := ⟨"", [Rule.ofSrcZones 1 .allow zones]⟩

theorem checkEquivalence_zones_witness :
    checkEquivalence (allowing [1]) (allowing [1]) (some zonesOne) = true ↔
      (∀ pk, zonesOne.Between pk →
        decision (allowing [1]).acl pk = decision (allowing [1]).acl pk) ∧
      ∀ pk, ¬zonesOne.Between pk → decision ((allowing [1]).acl.filterZones zonesOne) pk =
        decision ((allowing [1]).acl.filterZones zonesOne) pk :=
  checkEquivalence_zones_iff (allowing [1]) (allowing [1]) zonesOne ⟨by decide, by decide⟩

/-- A rule that also lists another zone makes a difference, although both firewalls allow all
packets between the zones. -/
theorem checkEquivalence_zones_other : zonesOne.Concrete ∧
    checkEquivalence (allowing [1]) (allowing [1, 2]) (some zonesOne) = false ∧
      ∀ pk, zonesOne.Between pk →
        decision (allowing [1]).acl pk = decision (allowing [1, 2]).acl pk := by
  have hone : isSubset zonesOne.srcZone (Predicate.ofSrcZones [1]) = true := by decide +kernel
  have htwo : isSubset zonesOne.srcZone (Predicate.ofSrcZones [1, 2]) = true := by
    decide +kernel
  have hallow : ∀ zones, isSubset zonesOne.srcZone (Predicate.ofSrcZones zones) = true →
      ∀ pk, zonesOne.Between pk → decision (allowing zones).acl pk = some .allow := by
    intro zones hzones pk hpk
    have hcovers : covers (Rule.ofSrcZones 1 .allow zones) pk = true :=
      covers_iff.mpr (isSubset_iff.mp hzones (mem_makeBdd_zone.mpr hpk.1))
    exact FirstMatch.decision_cons.trans (if_pos hcovers)
  refine ⟨⟨by decide, by decide⟩, by decide +kernel, fun pk hpk => ?_⟩
  rw [hallow _ hone pk hpk, hallow _ htwo pk hpk]

end Firewall

/-! ### Registered zones -/

/-- The cached zones, apart from the zone `any`, are single zones. -/
def SingleZones {side : Side} (r : Registry String (Item (.zone side))) : Prop :=
  ∀ name (zone : Zone side), r.items name = some zone → name ≠ "any" →
    zone.range.isSingleton = true

theorem singleZones_setItem {side : Side} {r : Registry String (Item (.zone side))}
    (hr : SingleZones r) {item : Item (.zone side)} (name : String)
    (hitem : ∀ zone : Zone side, item = zone → zone.range.isSingleton = true) :
    SingleZones (r.setItem name item) := by
  intro name' zone hzone hname'
  rw [Registry.items_setItem] at hzone
  by_cases hname : name' = name
  · subst hname
    rw [Function.update_self] at hzone
    exact hitem zone (Option.some.inj hzone)
  · rw [Function.update_of_ne hname] at hzone
    exact hr name' zone hzone hname'

/-- The zones that a row registers are single zones. -/
theorem preserves_registerZone (side : Side) (name : String) :
    Keeps (Preserves fun nw : Network => SingleZones (nw.registries (.zone side)))
      (Network.registerZone side name) := by
  have hids := Network.keeps_zoomIds Network.zoneIdGen (fun g nw => { nw with zoneIdGen := g })
    (fun _ _ => ⟨rfl, rfl⟩) (IdGenerator.getId name)
  refine Network.preserves_registerNew (P := SingleZones)
    (keeps_bind (hids.2 _) fun _ => keeps_pure _) ?_
  intro nw item nw' hrun hsingle
  -- a new zone has the next number
  obtain ⟨number, t, -, hpure⟩ := returns_bind.mp hrun
  obtain ⟨rfl, rfl⟩ := returns_pure.mp hpure
  refine singleZones_setItem hsingle name fun zone hzone => ?_
  rw [← hzone]
  exact beq_self_eq_true number.val

theorem preserves_buildZoneGroup (side side' : Side) (zones : List String) :
    Keeps (Preserves fun nw : Network => SingleZones (nw.registries (.zone side)))
      (FirewallFactory.buildZoneGroup side' zones) := by
  refine keeps_foldlM fun _ name _ => keeps_bind ?_ fun _ => keeps_pure _
  by_cases hside : side' = side
  · subst hside
    exact preserves_registerZone side' name
  · have hne : Kind.zone side ≠ .zone side' := fun h => hside (Kind.zone.inj h).symm
    -- the zones of the other side are left alone
    intro nw hnw
    have hsame : nw.registries (.zone side) =
        (exec (Network.registerZone side' name) nw).2.registries (.zone side) :=
      Network.leaves_registerZone hne name nw
    rwa [← hsame]

/-- The zone `any` is all a network starts with. -/
theorem singleZones_fresh (config : ModelConfig) (side : Side) :
    SingleZones (Network.freshRegistry config (.zone side)) := by
  intro name zone hzone hname
  have hany : (Network.freshRegistry config (.zone side)).items name = none :=
    Function.update_of_ne hname ..
  rw [hany] at hzone
  cases hzone

namespace Session

/-- **After any run the registered zones are single zones**, apart from the zone `any`. -/
theorem singleZones_run (config : ModelConfig) (store : ObjectStore) (actions : List Action)
    (side : Side) :
    SingleZones (((fresh config store).run config actions).network.registries (.zone side)) := by
  refine run_induction (I := fun s => SingleZones (s.network.registries (.zone side))) ?_
    (singleZones_fresh config side)
  intro action _ s hs
  cases action with
  | setStore store' => exact hs
  | clear name => exact hs
  | addRule name row status =>
    refine FirewallFactory.on_addRule (k := .zone side) (P := SingleZones) (fun _ => ?_) hs
    refine (FirewallFactory.keeping_preserves (k := .zone side) nofun nofun nofun ?_
      ⟨nofun, nofun, nofun⟩).buildCriteria
    exact fun side' _ zones => keeps_zoom (preserves_buildZoneGroup side side' zones) fun _ _ h => h
  | addDenyAllRule name => exact hs

/-- **Between registered zones the filter changes no first match.**  For a source zone and a
destination zone that the network has cached under other names than `any`, and for every list
of rules, the first rule of the filtered list that matches a packet from the one zone to the
other is the first rule of the full list that does, and no rule of the one list matches the
packet when none of the other does. -/
theorem firstMatch_registered_zones (config : ModelConfig) (store : ObjectStore)
    (actions : List Action) (src dst : String) (srcZone : SrcZone) (dstZone : DstZone)
    (hsrc : ((fresh config store).run config actions).network.getZone .src src = some srcZone)
    (hdst : ((fresh config store).run config actions).network.getZone .dst dst = some dstZone)
    (hsrcAny : src ≠ "any") (hdstAny : dst ≠ "any") (acl : RuleList) (pk : Packet)
    (hpk : ZonePair.Between ⟨srcZone, dstZone⟩ pk) :
    firstMatch (acl.filterZones ⟨srcZone, dstZone⟩) pk = firstMatch acl pk ∧
      ((∀ rule ∈ acl.filterZones ⟨srcZone, dstZone⟩, pk ∉ packets rule.predicate) ↔
        ∀ rule ∈ acl, pk ∉ packets rule.predicate) := by
  have hconcrete : ZonePair.Concrete ⟨srcZone, dstZone⟩ :=
    ⟨singleZones_run config store actions .src src srcZone hsrc hsrcAny,
      singleZones_run config store actions .dst dst dstZone hdst hdstAny⟩
  have hfirst := acl.firstMatch_filterZones hconcrete hpk
  refine ⟨hfirst, ?_⟩
  rw [← mem_undecided, ← mem_undecided, ← FirstMatch.firstMatch_eq_none_iff,
    ← FirstMatch.firstMatch_eq_none_iff]
  exact iff_of_eq (congrArg (· = none) hfirst)

/-- A row from the zone `lan` to the zone `wan`. -/
def lanToWan : RuleObject :=
  { RuleObject.ofServices 1 ["any"] with sourceZones := ["lan"], destinationZones := ["wan"] }

/-- The zones of the row, which are the first that are registered. -/
def lanWan : ZonePair where
  srcZone := ⟨"lan", Range.singleton 1 (by decide)⟩
  dstZone := ⟨"wan", Range.singleton 2 (by decide)⟩

theorem firstMatch_registered_zones_witness :
    firstMatch (RuleList.filterZones [Rule.ofSrcZones 1 .deny [2], Rule.ofSrcZones 2 .allow [1, 2]]
        lanWan) (Packet.ofValues fun dt => if dt = .srcZone then 1 else 2) =
      firstMatch [Rule.ofSrcZones 1 .deny [2], Rule.ofSrcZones 2 .allow [1, 2]]
        (Packet.ofValues fun dt => if dt = .srcZone then 1 else 2) ∧
    ((∀ rule ∈ RuleList.filterZones
        [Rule.ofSrcZones 1 .deny [2], Rule.ofSrcZones 2 .allow [1, 2]] lanWan,
        Packet.ofValues (fun dt => if dt = .srcZone then 1 else 2) ∉ packets rule.predicate) ↔
      ∀ rule ∈ [Rule.ofSrcZones 1 .deny [2], Rule.ofSrcZones 2 .allow [1, 2]],
        Packet.ofValues (fun dt => if dt = .srcZone then 1 else 2) ∉ packets rule.predicate) :=
  firstMatch_registered_zones .dotted (.builtin .ip4Model) [.addRule "fw" lanToWan {}] "lan" "wan"
    lanWan.srcZone lanWan.dstZone (by decide +kernel) (by decide +kernel) (by decide) (by decide)
    _ _ ⟨Range.mem_singleton.mpr (Packet.value_ofValues (by decide)),
      Range.mem_singleton.mpr (Packet.value_ofValues (by decide))⟩

end Session

end RulesAnalyzer
