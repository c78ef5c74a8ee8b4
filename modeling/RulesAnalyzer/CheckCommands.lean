import RulesAnalyzer.ZoneFilter

/-!
# The check commands

The commands `check address`, `check service` and `check application` show the allow rules
that speak about what is asked for.  Rules that allow anything are left out unless the
option to include them is given.  The service and the application command then keep more
rules; the address command looks at other sides of the rules instead.

## Main definitions

* `AddressArgs`, `checkAddress` — the command for addresses.
* `checkService`, `checkApplication` — the commands for services and for applications.
* `Compared`, `AnySide` — a side selects a rule without the option, and with it.

## Main results

* `checkService_subset`, `checkApplication_subset` — the option only adds rules.
* `checkAddress_subset_iff` — **when it only adds rules for addresses**: when each rule that one
  side selects without the option has all addresses on the other side.
-/

namespace RulesAnalyzer

open Diagram Mnode

/-! ### The commands -/

/-- The number of items in the group and its sub-groups, with repetitions. -/
def Group.size {T : Type} [Mnode T] : Group T → ℕ
  | .empty _ => 0
  | .addItem group _ => group.size + 1
  | .addGroup group member => group.size + member.size
  | .any _ items _ => items.length

/-- The addresses of the command line, as source and as destination addresses. -/
structure AddressArgs where
  srcAddrArgs : SrcAddressGroup
  dstAddrArgs : DstAddressGroup

/-- The test of one side of a rule. -/
def selectsSide {T : Type} [Mnode T] (args : Group T) (includeAny : Bool) (addresses : Group T)
    (negate : Bool) : Bool :=
  decide (args.size > 0) &&
    ((includeAny && isAny addresses) ||
      (!includeAny && !isAny addresses && isSubset args (negateIf addresses negate)))

/-- The test of a rule. -/
def AddressArgs.selects (addresses : AddressArgs) (includeAny : Bool) (rule : Rule) : Bool :=
  let predicate := rule.predicate
  selectsSide addresses.srcAddrArgs includeAny predicate.srcAddresses
      predicate.negateSrcAddresses ||
    selectsSide addresses.dstAddrArgs includeAny predicate.dstAddresses
      predicate.negateDstAddresses

/-- The allow rules for the zones of the command line. -/
def Firewall.allowRules (firewall : Firewall) (zonesFilter : Option ZonePair) : RuleList :=
  (firewall.filteredRules zonesFilter).filter fun rule => rule.action == .allow

/-- `CliFwCheckAddressCommand`: the rules that are shown. -/
def checkAddress (firewall : Firewall) (zonesFilter : Option ZonePair) (addresses : AddressArgs)
    (option : Bool) : RuleList :=
  let includeAny := option || isAny addresses.srcAddrArgs || isAny addresses.dstAddrArgs
  (firewall.allowRules zonesFilter).filter (addresses.selects includeAny)

/-- `CliFwCheckServiceCommand`: the rules that are shown, when services are given. -/
def checkService (firewall : Firewall) (zonesFilter : Option ZonePair) (services : ServiceGroup)
    (option : Bool) : RuleList :=
  let includeAny := option || isAny services
  ((firewall.allowRules zonesFilter).filter fun rule =>
    isSubset services rule.predicate.services).filter fun rule =>
      if includeAny then true else !isAny rule.predicate.services

/-- `CliFwCheckAppCommand`: the rules that are shown. -/
def checkApplication (firewall : Firewall) (zonesFilter : Option ZonePair)
    (applications : ApplicationGroup) (services : ServiceGroup) (option : Bool) : RuleList :=
  let includeAny := option || isAny applications
  ((firewall.allowRules zonesFilter).filterApplications applications services).filter fun rule =>
    if includeAny then true else !isAny rule.predicate.applications

variable (firewall : Firewall) (zonesFilter : Option ZonePair)

/-! ### Services and applications -/

/-- A filter that the option switches off keeps more rules with it. -/
theorem filter_option_subset (acl : RuleList) (args : Bool) (test : Rule → Bool) :
    acl.filter (fun rule => if (false || args) = true then true else test rule) ⊆
      acl.filter fun rule => if (true || args) = true then true else test rule := by
  intro rule hrule
  rw [Bool.true_or, List.mem_filter]
  exact ⟨(List.mem_filter.mp hrule).1, rfl⟩

/-- **The option only adds rules for services.** -/
theorem checkService_subset (services : ServiceGroup) :
    checkService firewall zonesFilter services false ⊆
      checkService firewall zonesFilter services true := filter_option_subset ..

/-- **The option only adds rules for applications.** -/
theorem checkApplication_subset (applications : ApplicationGroup) (services : ServiceGroup) :
    checkApplication firewall zonesFilter applications services false ⊆
      checkApplication firewall zonesFilter applications services true := filter_option_subset ..

/-! ### Addresses -/

section Side

variable {T : Type} [Mnode T] (args addresses : Group T)

/-- The side has addresses of its own, which contain those that are asked for. -/
def Compared (negate : Bool) : Prop :=
  0 < args.size ∧ isAny addresses = false ∧ isSubset args (negateIf addresses negate) = true

/-- The side has all addresses. -/
def AnySide : Prop := 0 < args.size ∧ isAny addresses = true

theorem selectsSide_false (negate : Bool) :
    selectsSide args false addresses negate = true ↔ Compared args addresses negate := by
  simp [selectsSide, Compared]

theorem selectsSide_true (negate : Bool) :
    selectsSide args true addresses negate = true ↔ AnySide args addresses := by
  simp [selectsSide, AnySide]

/-- A side does not have addresses of its own and all addresses. -/
theorem Compared.not_anySide {args addresses : Group T} {negate : Bool}
    (h : Compared args addresses negate) : ¬AnySide args addresses := by
  rintro ⟨-, hany⟩
  rw [h.2.1] at hany
  cases hany

end Side

/-- Where a side of the rule has addresses of its own that contain those that are asked for, the
other side has all addresses. -/
structure OtherSideAny (addresses : AddressArgs) (rule : Rule) : Prop where
  src : Compared addresses.srcAddrArgs rule.predicate.srcAddresses
      rule.predicate.negateSrcAddresses →
    AnySide addresses.dstAddrArgs rule.predicate.dstAddresses
  dst : Compared addresses.dstAddrArgs rule.predicate.dstAddresses
      rule.predicate.negateDstAddresses →
    AnySide addresses.srcAddrArgs rule.predicate.srcAddresses

theorem selects_imp_iff (addresses : AddressArgs) (rule : Rule) :
    (addresses.selects false rule = true → addresses.selects true rule = true) ↔
      OtherSideAny addresses rule := by
  unfold AddressArgs.selects
  simp only [Bool.or_eq_true, selectsSide_false, selectsSide_true]
  constructor
  · intro h
    exact ⟨fun hsrc => (h (.inl hsrc)).resolve_left hsrc.not_anySide,
      fun hdst => (h (.inr hdst)).resolve_right hdst.not_anySide⟩
  · rintro h (hsrc | hdst)
    · exact .inr (h.src hsrc)
    · exact .inl (h.dst hdst)

/-- The option only adds rules just when the arguments are all addresses, or each allow rule that
one side selects without it has all addresses on the other side. -/
theorem checkAddress_subset_iff (addresses : AddressArgs) :
    checkAddress firewall zonesFilter addresses false ⊆
        checkAddress firewall zonesFilter addresses true ↔
      isAny addresses.srcAddrArgs = true ∨ isAny addresses.dstAddrArgs = true ∨
        ∀ rule ∈ firewall.allowRules zonesFilter, OtherSideAny addresses rule := by
  unfold checkAddress
  simp only [Bool.true_or, Bool.false_or]
  cases hargs : isAny addresses.srcAddrArgs || isAny addresses.dstAddrArgs with
  | true =>
    -- The option makes no difference.
    refine iff_of_true (List.Subset.refl _) ?_
    rw [Bool.or_eq_true] at hargs
    exact hargs.imp_right .inl
  | false =>
    rw [Bool.or_eq_false_iff] at hargs
    simp only [hargs, Bool.false_eq_true, false_or, List.subset_def, List.mem_filter]
    constructor
    · intro h rule hrule
      exact (selects_imp_iff addresses rule).mp fun hselects => (h ⟨hrule, hselects⟩).2
    · rintro h rule ⟨hrule, hselects⟩
      exact ⟨hrule, (selects_imp_iff addresses rule).mpr (h rule hrule) hselects⟩

/-- The group of one host. -/
def hostGroup (side : Side) : Group (IpAddress side) :=
  (Group.empty "$root").addItem ⟨"host", .ip4 (Range.singleton 1 one_lt_ip4)⟩

theorem isAny_hostGroup (side : Side) : isAny (hostGroup side) = false := by
  rw [← Bool.not_eq_true, isAny_iff]
  intro hany
  have hmem : (Packet.ofValues fun _ => 0) ∈ packets (hostGroup side) := hany ▸ Set.mem_univ _
  obtain ⟨address, haddress, hpk⟩ := Group.mem_makeBdd_iff_parse.mp hmem
  obtain rfl := List.mem_singleton.mp haddress
  have hvalue := mem_makeBdd_ipAddress.mp hpk
  have hzero : (Packet.ofValues fun _ => 0).value side.address4 = 0 :=
    Packet.value_ofValues (Nat.two_pow_pos _)
  have hone : 1 ≤ (Packet.ofValues fun _ => 0).value side.address4 := hvalue.1
  omega

/-- A rule that allows the traffic from a host to itself. -/
def hostRule : Rule :=
  ⟨1, "", .enabled, .allow, .ofCriteria {
    Criteria.any .ip4Model with
    sources := ⟨srcAnyZoneGroup, hostGroup .src, false⟩
    destinations := ⟨dstAnyZoneGroup, hostGroup .dst, false⟩ }⟩

/-- The option removes the rule of the host. -/
theorem checkAddress_hostRule :
    ¬checkAddress ⟨"fw", [hostRule]⟩ none ⟨hostGroup .src, hostGroup .dst⟩ false ⊆
      checkAddress ⟨"fw", [hostRule]⟩ none ⟨hostGroup .src, hostGroup .dst⟩ true := by
  have hcompared : Compared (hostGroup .src) hostRule.predicate.srcAddresses
      hostRule.predicate.negateSrcAddresses :=
    ⟨by decide, isAny_hostGroup .src, isSubset_iff.mpr (Set.Subset.refl _)⟩
  have hother : ¬AnySide (hostGroup .dst) hostRule.predicate.dstAddresses := by
    rintro ⟨-, hany⟩
    exact absurd hany (Bool.not_eq_true _ ▸ isAny_hostGroup .dst)
  intro h
  have hrule : hostRule ∈ (⟨"fw", [hostRule]⟩ : Firewall).allowRules none :=
    List.mem_filter.mpr ⟨List.mem_filter.mpr ⟨List.mem_singleton_self _, rfl⟩, rfl⟩
  unfold checkAddress at h
  simp only [isAny_hostGroup, Bool.or_false] at h
  have himp : AddressArgs.selects ⟨hostGroup .src, hostGroup .dst⟩ false hostRule = true →
      AddressArgs.selects ⟨hostGroup .src, hostGroup .dst⟩ true hostRule = true := by
    intro hselects
    exact (List.mem_filter.mp (h (List.mem_filter.mpr ⟨hrule, hselects⟩))).2
  exact hother (((selects_imp_iff _ _).mp himp).src hcompared)

end RulesAnalyzer
