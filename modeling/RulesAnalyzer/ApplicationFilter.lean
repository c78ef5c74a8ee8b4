import RulesAnalyzer.Firewall

/-!
# The filter by applications and services

A rule with services of its own is compared with the applications and the services one after
the other; a rule with the default services of its applications is compared with each
application together with the services.  The queried applications come with default services of
their own, which only count in the first case.

## Main definitions

* `pairPackets` — the packets of an application with a service.
* `Rule.criterion` — the packets that meet the applications and the services of a rule.
* `Rule.AppsOnAnyPort` — the default services of the applications count nowhere else.

## Main results

* `inter_subset_iff_left` — a criterion on other domains does not matter for a subset.
* `RuleList.selects_default_iff` — rules with the default services of their applications.
* `RuleList.mem_filterApplications_iff` — **which rules the filter selects**: those that cover every
  pair of an application and a service.
-/

namespace RulesAnalyzer

open Diagram Mnode

/-! ### Sets that depend on some of the domains -/

/-- The set only depends on the values of the domains in `D`. -/
def DependsOn (D : Set DomainType) (X : Set Packet) : Prop :=
  ∀ pk pk' : Packet, (∀ dt ∈ D, pk.value dt = pk'.value dt) → (pk ∈ X ↔ pk' ∈ X)

section

variable {D E : Set DomainType} {X X' Y : Set Packet}

/-- One packet can have the values of another one in `D` and those of a third one elsewhere. -/
theorem exists_mix (D : Set DomainType) (pk pk' : Packet) :
    ∃ x : Packet, (∀ dt ∈ D, x.value dt = pk.value dt) ∧ ∀ dt ∉ D, x.value dt = pk'.value dt := by
  classical
  refine ⟨Packet.mix (fun dt => decide (dt ∈ D)) pk pk', ?_, ?_⟩
  · intro dt hdt
    rw [Packet.value_mix, decide_eq_true hdt, if_pos rfl]
  · intro dt hdt
    rw [Packet.value_mix, decide_eq_false hdt, if_neg Bool.false_ne_true]

/-- **A criterion on other domains that can be met does not matter for a subset.** -/
theorem inter_subset_iff_left (hX : DependsOn D X) (hX' : DependsOn D X') (hY : DependsOn E Y)
    (hne : Y.Nonempty) (hdisjoint : Disjoint D E) : X ∩ Y ⊆ X' ↔ X ⊆ X' := by
  constructor
  · intro h pk hpk
    obtain ⟨y, hy⟩ := hne
    obtain ⟨x, hxD, hxE⟩ := exists_mix D pk y
    have hxY : x ∈ Y := by
      apply (hY x y _).mpr hy
      intro dt hdt
      exact hxE dt (Set.disjoint_right.mp hdisjoint hdt)
    exact (hX' x pk hxD).mp (h ⟨(hX x pk hxD).mpr hpk, hxY⟩)
  · intro h pk hpk
    exact h hpk.1

end

/-! ### Applications and services -/

/-- The packets with a number of the application. -/
def Application.numbers (application : Application) : Set Packet :=
  {pk | pk.value .application ∈ application.range}

/-- The packets of one of the services. -/
def servicesPackets (services : List Service) : Set Packet :=
  {pk | ∃ service ∈ services, service.Matches pk}

/-- The packets of an application with a service. -/
def pairPackets (application : Application) (service : Service) : Set Packet :=
  application.numbers ∩ {pk | service.Matches pk}

theorem dependsOn_numbers (application : Application) :
    DependsOn {.application} application.numbers := by
  intro pk pk' hv
  unfold Application.numbers
  rw [Set.mem_ofPred_eq, Set.mem_ofPred_eq, hv .application rfl]

theorem dependsOn_service (service : Service) :
    DependsOn Service.domains {pk | service.Matches pk} := by
  intro pk pk' hv
  rw [Set.mem_ofPred_eq, Set.mem_ofPred_eq, ← mem_makeBdd_service, ← mem_makeBdd_service]
  exact supported_service service pk pk' hv

theorem dependsOn_servicesPackets (services : List Service) :
    DependsOn Service.domains (servicesPackets services) := by
  intro pk pk' hv
  exact exists_congr fun service => and_congr_right fun _ => dependsOn_service service pk pk' hv

theorem disjoint_application_services : Disjoint {DomainType.application} Service.domains := by
  rw [Set.disjoint_singleton_left]
  simp [Service.domains]

theorem nonempty_numbers (application : Application) : application.numbers.Nonempty := by
  refine ⟨Packet.ofValues fun _ => application.range.lbound, ?_⟩
  show Packet.value _ _ ∈ application.range
  rw [Packet.value_ofValues application.range.lbound_lt]
  exact ⟨le_rfl, application.range.lbound_le⟩

/-- A packet with a protocol number and a port. -/
theorem exists_packet (protocol : ℕ) (range : Range 16) (hprotocol : protocol < 4) :
    ∃ pk : Packet, pk.value .protocol = protocol ∧ pk.value .dstTcpPort ∈ range ∧
      pk.value .dstUdpPort ∈ range ∧ pk.value .icmpType ∈ range := by
  have hmem : range.lbound ∈ range := ⟨le_rfl, range.lbound_le⟩
  refine ⟨Packet.ofValues fun dt => if dt = .protocol then protocol else range.lbound, ?_⟩
  rw [Packet.value_ofValues hprotocol, Packet.value_ofValues range.lbound_lt,
    Packet.value_ofValues range.lbound_lt, Packet.value_ofValues range.lbound_lt]
  exact ⟨rfl, hmem, hmem, hmem⟩

theorem nonempty_service (service : Service) : {pk | service.Matches pk}.Nonempty := by
  cases service with
  | any => exact ⟨Packet.ofValues fun _ => 0, trivial⟩
  | tcp name range =>
    obtain ⟨pk, hprotocol, hport, -⟩ := exists_packet 1 range (by decide)
    exact ⟨pk, hprotocol, hport⟩
  | udp name range =>
    obtain ⟨pk, hprotocol, -, hport, -⟩ := exists_packet 0 range (by decide)
    exact ⟨pk, hprotocol, hport⟩
  | icmp name range =>
    obtain ⟨pk, hprotocol, -, -, hport⟩ := exists_packet 2 range (by decide)
    exact ⟨pk, hprotocol, hport⟩

theorem nonempty_servicesPackets {services : List Service} (h : services ≠ []) :
    (servicesPackets services).Nonempty := by
  obtain ⟨service, hservice⟩ := List.exists_mem_of_ne_nil services h
  obtain ⟨pk, hpk⟩ := nonempty_service service
  exact ⟨pk, service, hservice, hpk⟩

/-! ### What a rule asks of applications and services -/

namespace Application

/-- The application allows the traffic on any port: its default services do not count, or are all
services. -/
def OnAnyPort : Application → Prop
  | any => True
  | app _ _ _ _ useAppSvc => useAppSvc = false

theorem OnAnyPort.matches_iff {application : Application} (h : application.OnAnyPort)
    {pk : Packet} : application.Matches pk ↔ pk ∈ application.numbers := by
  cases application with
  | any =>
    refine and_iff_left fun _ => ?_
    exact ⟨.any, mem_items_anyServices.mpr rfl, trivial⟩
  | app name range services options useAppSvc =>
    obtain rfl : useAppSvc = false := h
    exact and_iff_left fun h => absurd h Bool.false_ne_true

end Application

/-- The packets with a number of one of the applications. -/
def applicationNumbers (applications : List Application) : Set Packet :=
  {pk | ∃ application ∈ applications, pk ∈ application.numbers}

/-- The packets that meet the applications and the services of a rule.  The default services of
applications are those of each application. -/
def Rule.criterion (rule : Rule) : Set Packet :=
  if rule.isDefaultAppSvc then
    {pk | ∃ application ∈ rule.predicate.applications.items, pk ∈ application.numbers ∧
      pk ∈ servicesPackets application.services.items}
  else
    {pk | (∃ application ∈ rule.predicate.applications.items, application.Matches pk) ∧
      pk ∈ servicesPackets rule.predicate.services.items}

/-- A rule with services of its own lists applications on any port. -/
def Rule.AppsOnAnyPort (rule : Rule) : Prop :=
  rule.isDefaultAppSvc = false → ∀ a ∈ rule.predicate.applications.items, a.OnAnyPort

theorem dependsOn_applicationNumbers (applications : List Application) :
    DependsOn {.application} (applicationNumbers applications) := by
  intro pk pk' hv
  exact exists_congr fun a => and_congr_right fun _ => dependsOn_numbers a pk pk' hv

theorem mem_packets_applications {applications : ApplicationGroup} {pk : Packet}
    (henabled : ∀ a ∈ applications.items, a.Enabled) :
    pk ∈ packets applications ↔ ∃ a ∈ applications.items, a.Matches pk := by
  rw [mem_packets]
  refine mem_makeBdd_group.trans (exists_congr fun a => and_congr_right fun ha => ?_)
  exact mem_makeBdd_application (henabled a ha)

theorem packets_serviceGroup (services : ServiceGroup) :
    packets services = servicesPackets services.items :=
  Set.ext fun _ => mem_makeBdd_serviceGroup

/-! ### Rules with services of their own -/

section Explicit

variable {applications applications' : ApplicationGroup} {services : ServiceGroup}
  {application : Application}

/-- The default services of a queried application do not matter for the numbers. -/
theorem matches_subset_iff (hdefault : application.services.items ≠ []) (l : List Application) :
    {pk | application.Matches pk} ⊆ applicationNumbers l ↔
      application.numbers ⊆ applicationNumbers l := by
  by_cases huse : application.useAppSvc = true
  · have hmatches : {pk | application.Matches pk} =
        application.numbers ∩ servicesPackets application.services.items := by
      apply Set.ext
      intro pk
      exact and_congr_right fun _ => ⟨fun h => h huse, fun h _ => h⟩
    rw [hmatches]
    exact inter_subset_iff_left (dependsOn_numbers application) (dependsOn_applicationNumbers l)
      (dependsOn_servicesPackets _) (nonempty_servicesPackets hdefault)
      disjoint_application_services
  · have hmatches : {pk | application.Matches pk} = application.numbers := by
      apply Set.ext
      intro pk
      exact and_iff_left fun h => absurd h huse
    rw [hmatches]

/-- The applications are compared by their numbers. -/
theorem isSubset_applications_iff
    (henabled : ∀ a ∈ applications.items, a.Enabled ∧ a.services.items ≠ [])
    (henabled' : ∀ a ∈ applications'.items, a.Enabled)
    (hports : ∀ a ∈ applications'.items, a.OnAnyPort) :
    isSubset applications applications' = true ↔
      ∀ a ∈ applications.items, a.numbers ⊆ applicationNumbers applications'.items := by
  have hnumbers : packets applications' = applicationNumbers applications'.items := by
    apply Set.ext
    intro pk
    rw [mem_packets_applications henabled']
    exact exists_congr fun a => and_congr_right fun ha => (hports a ha).matches_iff
  rw [isSubset_iff, hnumbers]
  constructor
  · intro h a ha
    rw [← matches_subset_iff (henabled a ha).2]
    intro pk hpk
    exact h ((mem_packets_applications fun a ha => (henabled a ha).1).mpr ⟨a, ha, hpk⟩)
  · intro h pk hpk
    obtain ⟨a, ha, hmatches⟩ := (mem_packets_applications fun a ha => (henabled a ha).1).mp hpk
    have hsubset := h a ha
    rw [← matches_subset_iff (henabled a ha).2] at hsubset
    exact hsubset hmatches

/-- A pair is covered when its application and its service are. -/
theorem pairPackets_subset_iff (a : Application) (s : Service) (l : List Application)
    (l' : List Service) : pairPackets a s ⊆ applicationNumbers l ∩ servicesPackets l' ↔
      a.numbers ⊆ applicationNumbers l ∧ {pk | s.Matches pk} ⊆ servicesPackets l' := by
  unfold pairPackets
  rw [Set.subset_inter_iff]
  apply and_congr
  · exact inter_subset_iff_left (dependsOn_numbers a) (dependsOn_applicationNumbers l)
      (dependsOn_service s) (nonempty_service s) disjoint_application_services
  · rw [Set.inter_comm]
    exact inter_subset_iff_left (dependsOn_service s) (dependsOn_servicesPackets l')
      (dependsOn_numbers a) (nonempty_numbers a) disjoint_application_services.symm

theorem servicesPackets_subset_iff {l : List Service} {X : Set Packet} :
    servicesPackets l ⊆ X ↔ ∀ s ∈ l, {pk | s.Matches pk} ⊆ X := by
  constructor
  · intro h s hs pk hpk
    exact h ⟨s, hs, hpk⟩
  · intro h pk hpk
    obtain ⟨s, hs, hmatches⟩ := hpk
    exact h s hs hmatches

end Explicit

/-! ### Rules with the default services of their applications -/

/-- The packets of an application with other services. -/
theorem mem_makeBdd_withServices {application : Application} (henabled : application.Enabled)
    {services : ServiceGroup} {pk : Packet} :
    pk ∈ (application.withServices services).makeBdd ↔
      pk ∈ application.numbers ∧ pk ∈ servicesPackets services.items := by
  cases application with
  | any =>
    -- the copy has no options, but the numbers are all numbers
    have hnumbers : pk ∈ Application.any.numbers := Range.mem_full.mpr (pk.value_lt .application)
    have hoptions : ModelOption.application ∉ Application.any.options := Finset.notMem_empty _
    rw [and_iff_right hnumbers, Application.withServices, Application.makeBdd, if_pos rfl,
      if_neg hoptions, mem_bddAnd, and_iff_right mem_bddTrue]
    exact mem_makeBdd_serviceGroup
  | app name range default options useAppSvc =>
    have hcopy : Application.Enabled (Application.withServices
        (.app name range default options useAppSvc) services) := henabled
    refine (mem_makeBdd_application hcopy).trans (and_congr_right fun _ => ?_)
    exact ⟨fun h => h rfl, fun h _ => h⟩

namespace RuleList

variable {applications : ApplicationGroup} {services : ServiceGroup} {rule : Rule}

/-- The applications of such a rule count with their own default services. -/
theorem packets_applications_default (hdefault : rule.isDefaultAppSvc = true)
    (henabled : ∀ a ∈ rule.predicate.applications.items, a.Enabled) :
    packets rule.predicate.applications = rule.criterion := by
  have huse := (rule.predicate.criteria.appDefault hdefault).2
  unfold Rule.criterion
  rw [if_pos hdefault]
  apply Set.ext
  intro pk
  rw [mem_packets_applications henabled]
  refine exists_congr fun a => and_congr_right fun ha => and_congr_right fun _ => ?_
  exact ⟨fun h => h (huse a ha), fun h _ => h⟩

/-- **Rules with the default services of their applications.** -/
theorem selects_default_iff (hdefault : rule.isDefaultAppSvc = true)
    (hservices : services.items ≠ []) (happs : ∀ a ∈ applications.items, a.Enabled)
    (henabled : ∀ a ∈ rule.predicate.applications.items, a.Enabled) :
    selects applications services rule = true ↔
      ∀ a ∈ applications.items, ∀ s ∈ services.items, pairPackets a s ⊆ rule.criterion := by
  unfold selects selectsDefault
  rw [if_neg (by simpa using hservices), if_pos hdefault, List.all_eq_true]
  refine forall₂_congr fun a ha => ?_
  have hitems : ∀ s, s ∈ (services.items.foldl ServiceGroup.addMember ⟨.empty "", false⟩).items ↔
      s ∈ services.items := by
    intro s
    rw [mem_items_foldl_addMember]
    simp [ServiceGroup.items, Group.parse]
  rw [isSubset_iff, packets_applications_default hdefault henabled]
  constructor
  · intro h s hs pk hpk
    apply h
    apply (mem_makeBdd_withServices (happs a ha)).mpr
    exact ⟨hpk.1, s, (hitems s).mpr hs, hpk.2⟩
  · intro h pk hpk
    obtain ⟨hnumber, s, hs, hmatches⟩ := (mem_makeBdd_withServices (happs a ha)).mp hpk
    exact h s ((hitems s).mp hs) ⟨hnumber, hmatches⟩

/-- **Rules with services of their own.**  The filter compares applications and services apart,
which is right as the packets of a pair are a product. -/
theorem selects_explicit_iff (hdefault : rule.isDefaultAppSvc = false)
    (hservices : services.items ≠ [])
    (happs : ∀ a ∈ applications.items, a.Enabled ∧ a.services.items ≠ [])
    (henabled : ∀ a ∈ rule.predicate.applications.items, a.Enabled) (hports : rule.AppsOnAnyPort) :
    selects applications services rule = true ↔
      (∀ a ∈ applications.items, ∀ s ∈ services.items, pairPackets a s ⊆ rule.criterion) ∧
        (applications.items = [] →
          servicesPackets services.items ⊆ servicesPackets rule.predicate.services.items) := by
  -- on any port, the criterion of the rule is a product
  have hcriterion : rule.criterion = applicationNumbers rule.predicate.applications.items ∩
      servicesPackets rule.predicate.services.items := by
    unfold Rule.criterion
    rw [if_neg (by simp [hdefault])]
    apply Set.ext
    intro pk
    refine and_congr_left fun _ => exists_congr fun a => and_congr_right fun ha => ?_
    exact (hports hdefault a ha).matches_iff
  unfold selects
  rw [if_neg (by simpa using hservices), if_neg (by simp [hdefault]), Bool.and_eq_true,
    isSubset_applications_iff happs henabled (hports hdefault), isSubset_iff,
    packets_serviceGroup, packets_serviceGroup, hcriterion, servicesPackets_subset_iff]
  simp only [pairPackets_subset_iff]
  constructor
  · intro h
    exact ⟨fun a ha s hs => ⟨h.1 a ha, h.2 s hs⟩, fun _ => h.2⟩
  · intro h
    obtain ⟨hpairs, hnone⟩ := h
    -- a product of two sets that are not empty is a subset in both factors
    refine ⟨fun a ha => ?_, fun s hs => ?_⟩
    · obtain ⟨s, hs⟩ := List.exists_mem_of_ne_nil _ hservices
      exact (hpairs a ha s hs).1
    · by_cases hempty : applications.items = []
      · exact hnone hempty s hs
      · obtain ⟨a, ha⟩ := List.exists_mem_of_ne_nil _ hempty
        exact (hpairs a ha s hs).2

/-- **Which rules the filter selects.**  A rule is selected when it covers every pair of a queried
application and a queried service.  Without an application, a rule with services of its own
still has to cover the services. -/
theorem mem_filterApplications_iff (acl : RuleList) (applications : ApplicationGroup)
    (services : ServiceGroup) (rule : Rule) (hservices : services.items ≠ [])
    (happs : ∀ a ∈ applications.items, a.Enabled ∧ a.services.items ≠ [])
    (henabled : ∀ a ∈ rule.predicate.applications.items, a.Enabled)
    (hports : rule.AppsOnAnyPort) :
    rule ∈ acl.filterApplications applications services ↔ rule ∈ acl ∧
      (∀ a ∈ applications.items, ∀ s ∈ services.items, pairPackets a s ⊆ rule.criterion) ∧
        (applications.items = [] → rule.isDefaultAppSvc = false →
          servicesPackets services.items ⊆ servicesPackets rule.predicate.services.items) := by
  unfold filterApplications
  rw [List.mem_filter]
  refine and_congr_right fun _ => ?_
  cases hdefault : rule.isDefaultAppSvc with
  | true =>
    rw [selects_default_iff hdefault hservices (fun a ha => (happs a ha).1) henabled]
    exact (and_iff_left fun _ h => absurd h (by decide)).symm
  | false =>
    rw [selects_explicit_iff hdefault hservices happs henabled hports]
    simp only [true_imp_iff]

/-- The service tcp/80. -/
def http : ServiceGroup := Firewall.web.services

/-- The service udp/53. -/
def domainService : ServiceGroup := Firewall.dns.services

/-- Allows `web`, which has the number 1, with tcp/80. -/
def allowHttp : Rule where
  id := 1
  name := ""
  status := .enabled
  action := .allow
  predicate := .ofCriteria {
    Criteria.any .ip4Model with
    services := http
    applications := Group.ofItem "" (.app "web" (Range.singleton 1 (by decide)) http
      {.application} false)
    appDefault := nofun }

theorem mem_filterApplications_witness :
    allowHttp ∈ filterApplications [Firewall.webAndDns, allowHttp] (Group.ofItem "" Firewall.web)
        http ↔ allowHttp ∈ [Firewall.webAndDns, allowHttp] ∧
      (∀ a ∈ (Group.ofItem "" Firewall.web).items, ∀ s ∈ http.items,
        pairPackets a s ⊆ allowHttp.criterion) ∧
      ((Group.ofItem "" Firewall.web).items = [] → allowHttp.isDefaultAppSvc = false →
        servicesPackets http.items ⊆ servicesPackets allowHttp.predicate.services.items) := by
  have hweb : ∀ a ∈ (Group.ofItem "" Firewall.web).items, a.Enabled ∧ a.services.items ≠ [] := by
    intro a ha
    obtain rfl := List.mem_singleton.mp ha
    exact ⟨Finset.mem_singleton_self _, by decide +kernel⟩
  have happs : ∀ a ∈ allowHttp.predicate.applications.items, a.Enabled ∧ a.OnAnyPort := by
    intro a ha
    obtain rfl := List.mem_singleton.mp ha
    exact ⟨Finset.mem_singleton_self _, rfl⟩
  exact mem_filterApplications_iff [Firewall.webAndDns, allowHttp] (Group.ofItem "" Firewall.web)
    http allowHttp (by decide +kernel) hweb (fun a ha => (happs a ha).1)
    fun _ a ha => (happs a ha).2

theorem notMem_filterApplications {rules : RuleList} {apps : ApplicationGroup}
    {services : ServiceGroup} {rule : Rule} (hselects : selects apps services rule = false) :
    rule ∉ filterApplications rules apps services := by
  rw [filterApplications, List.mem_filter]
  intro h
  rw [hselects] at h
  cases h.2

/-- A packet with the number of `web` that goes to udp/53. -/
def webToDomain : Packet := Packet.ofValues fun dt =>
  if dt = .application then 1 else if dt = .dstUdpPort then 53 else 0

theorem webToDomain_mem_pairPackets : webToDomain ∈
    pairPackets Firewall.web (.udp "udp/53" (Range.singleton 53 (by decide))) := by
  refine ⟨?_, ?_, ?_⟩
  · show Packet.value _ _ ∈ Firewall.web.range
    rw [webToDomain, Packet.value_ofValues (by decide)]
    exact ⟨le_rfl, le_rfl⟩
  · rw [webToDomain, Packet.value_ofValues (by decide)]
    rfl
  · rw [webToDomain, Packet.value_ofValues (by decide)]
    exact ⟨le_rfl, le_rfl⟩

/-- The services of `web` do not have the port, and those of `dns` are for another number. -/
theorem webToDomain_notMem_criterion : webToDomain ∉ Firewall.webAndDns.copy.criterion := by
  rw [Rule.criterion, if_neg (by decide)]
  have hitems : Firewall.webAndDns.copy.predicate.applications.items =
      [Firewall.web, Firewall.dns] := by decide +kernel
  have henabled : ∀ a ∈ Firewall.webAndDns.copy.predicate.applications.items, a.Enabled := by
    intro a ha
    rw [hitems, List.mem_cons, List.mem_singleton] at ha
    rcases ha with rfl | rfl <;> exact Finset.mem_singleton_self _
  have hnot : webToDomain ∉ Firewall.webAndDns.copy.predicate.applications.makeBdd := by
    decide +kernel
  intro hcriterion
  exact hnot ((mem_packets_applications henabled).mpr hcriterion.1)

/-- Without an application a rule with other services is not selected, although there is no pair.
A copied rule, which has lost the mark of the default services, is selected for `web` with udp/53,
which it does not cover. -/
theorem filterApplications_not_exact :
    (allowHttp.AppsOnAnyPort ∧ domainService.items ≠ [] ∧
      (∀ a ∈ (Group.empty "" : ApplicationGroup).items, ∀ s ∈ domainService.items,
        pairPackets a s ⊆ allowHttp.criterion) ∧
      allowHttp ∉ filterApplications [allowHttp] (Group.empty "") domainService) ∧
    ((∀ a ∈ (Group.ofItem "" Firewall.web).items, a.Enabled ∧ a.services.items ≠ []) ∧
      Firewall.webAndDns.copy ∈ filterApplications [Firewall.webAndDns.copy]
        (Group.ofItem "" Firewall.web) domainService ∧
      ¬∀ a ∈ (Group.ofItem "" Firewall.web).items, ∀ s ∈ domainService.items,
        pairPackets a s ⊆ Firewall.webAndDns.copy.criterion) := by
  constructor
  · refine ⟨?_, by decide +kernel, ?_, notMem_filterApplications (by decide +kernel)⟩
    · intro _ a ha
      obtain rfl := List.mem_singleton.mp ha
      rfl
    · intro a ha
      cases ha
  · refine ⟨?_, ?_, ?_⟩
    · intro a ha
      obtain rfl := List.mem_singleton.mp ha
      exact ⟨Finset.mem_singleton_self _, by decide +kernel⟩
    · rw [filterApplications, List.mem_filter]
      exact ⟨List.mem_singleton_self _, by decide +kernel⟩
    · intro h
      have hpairs := h Firewall.web (List.mem_singleton_self _) _ (List.mem_singleton_self _)
      exact webToDomain_notMem_criterion (hpairs webToDomain_mem_pairPackets)

end RuleList

end RulesAnalyzer
