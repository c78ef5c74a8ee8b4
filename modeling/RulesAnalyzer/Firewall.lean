import RulesAnalyzer.BddOptions
import RulesAnalyzer.Symmetry

/-!
# Firewalls and their copies

A firewall is a list of rules.  Copying it copies every rule, every predicate and
every group; the class of the default services of applications does not override
the copy of a group, so the copy of such a group is a plain group.

## Main definitions

* `Firewall`, `Firewall.copy` — firewalls and their copies.
* `RuleList.filterApplications` — selects rules by applications and services.
* `Firewall.SameAnswers` — a firewall gives the same answers as another one.

## Main results

* `packets_copy`, `packets_makeBddOptions_copy` — a copied predicate holds the same packets.
* `Firewall.copy_sameAnswers_iff` — **when a copied firewall gives the same answers.**
-/

namespace RulesAnalyzer

open Diagram Mnode

/-- A firewall. -/
structure Firewall where
  /-- The name of the firewall. -/
  name : String
  /-- All rules of the firewall. -/
  rules : RuleList
  deriving DecidableEq

/-! ### Copies -/

/-- The copy of a group of default services is a plain group. -/
theorem Predicate.appDefault_clone (other : Predicate) :
    other.services.clone.isAppServices = true →
      other.services.clone = defaultServices other.applications.clone ∧
        ∀ a ∈ other.applications.clone.items, a.useAppSvc = true := by
  intro h
  cases h

/-- The copy of a predicate: a predicate of the class itself, with copies of all groups. -/
def Predicate.copy (other : Predicate) : Predicate := .ofCriteria {
  sources := ⟨other.srcZones.clone, other.srcAddresses.clone, other.negateSrcAddresses⟩
  destinations := ⟨other.dstZones.clone, other.dstAddresses.clone, other.negateDstAddresses⟩
  services := other.services.clone
  applications := other.applications.clone
  users := other.users.clone
  urls := other.urls.clone
  appDefault := other.appDefault_clone }

/-- The copy of a rule. -/
def Rule.copy (other : Rule) : Rule := { other with predicate := other.predicate.copy }

namespace Firewall

/-- The firewall without rules. -/
def empty (name : String) : Firewall := ⟨name, []⟩

/-- Adds a rule. -/
def addRule (firewall : Firewall) (rule : Rule) : Firewall :=
  { firewall with rules := firewall.rules ++ [rule] }

/-- The enabled rules. -/
def acl (firewall : Firewall) : RuleList :=
  firewall.rules.filter fun rule => rule.status == .enabled

/-- The rule with the given id; the rule added last counts. -/
def getRule (firewall : Firewall) (ruleId : ℤ) : Option Rule :=
  firewall.rules.reverse.find? fun rule => rule.id == ruleId

/-- The copy of a firewall under another name. -/
def copy (other : Firewall) (name : String) : Firewall :=
  other.rules.foldl (fun firewall rule => firewall.addRule rule.copy) (empty name)

theorem rules_copy (other : Firewall) (name : String) :
    (other.copy name).rules = other.rules.map Rule.copy := by
  have hfold : ∀ (l : RuleList) (firewall : Firewall),
      (l.foldl (fun firewall rule => firewall.addRule rule.copy) firewall).rules =
        firewall.rules ++ l.map Rule.copy := by
    intro l
    induction l with
    | nil => simp
    | cons rule l ih =>
      intro firewall
      rw [List.foldl_cons, ih, addRule, List.map_cons, List.append_assoc]
      rfl
  exact hfold other.rules (empty name)

end Firewall

/-! ### The selection by applications and services -/

/-- The rule uses the default services of its applications. -/
def Rule.isDefaultAppSvc (rule : Rule) : Bool := rule.predicate.services.isAppServices

namespace Application

/-- The name. -/
def name : Application → String
  | any => "any"
  | app name _ _ _ _ => name

/-- The options of the model. -/
def options : Application → ModelOptions
  | any => ∅
  | app _ _ _ options _ => options

/-- A copy of the application with its own services. -/
def withServices (other : Application) (services : ServiceGroup) : Application :=
  app other.name other.range services other.options true

end Application

namespace RuleList

/-- Each application, combined with the services, is among the applications of the predicate. -/
def selectsDefault (applications : ApplicationGroup) (services : ServiceGroup)
    (predicate : Predicate) : Bool :=
  applications.items.all fun application =>
    let svcGroup := services.items.foldl ServiceGroup.addMember ⟨.empty "", false⟩
    isSubset (application.withServices svcGroup) predicate.applications

/-- The test of a rule by applications and services. -/
def selects (applications : ApplicationGroup) (services : ServiceGroup) (rule : Rule) : Bool :=
  if services.items.isEmpty then isSubset applications rule.predicate.applications
  else if rule.isDefaultAppSvc then selectsDefault applications services rule.predicate
  else isSubset applications rule.predicate.applications &&
    isSubset services rule.predicate.services

/-- The rules selected by applications and services: `filter` with these arguments. -/
def filterApplications (acl : RuleList) (applications : ApplicationGroup)
    (services : ServiceGroup) : RuleList :=
  acl.filter (selects applications services)

/-- The ids of the rules. -/
def idList (acl : RuleList) : List ℤ := acl.map Rule.id

end RuleList

/-! ### The packets of a copy -/

namespace Predicate

variable (p : Predicate) {pk : Packet}

@[simp] theorem srcZones_copy : p.copy.srcZones = p.srcZones := Group.clone_eq _

@[simp] theorem dstZones_copy : p.copy.dstZones = p.dstZones := Group.clone_eq _

@[simp] theorem srcAddresses_copy : p.copy.srcAddresses = p.srcAddresses := Group.clone_eq _

@[simp] theorem dstAddresses_copy : p.copy.dstAddresses = p.dstAddresses := Group.clone_eq _

@[simp] theorem negateSrcAddresses_copy : p.copy.negateSrcAddresses = p.negateSrcAddresses := rfl

@[simp] theorem negateDstAddresses_copy : p.copy.negateDstAddresses = p.negateDstAddresses := rfl

@[simp] theorem makeBdd_services_copy : p.copy.services.makeBdd = p.services.makeBdd :=
  ServiceGroup.makeBdd_clone _

@[simp] theorem isAppServices_copy : p.copy.services.isAppServices = false := rfl

@[simp] theorem applications_copy : p.copy.applications = p.applications := Group.clone_eq _

@[simp] theorem users_copy : p.copy.users = p.users := Group.clone_eq _

@[simp] theorem urls_copy : p.copy.urls = p.urls := Group.clone_eq _

/-- Where the default services of applications do not count, the applications imply them. -/
theorem services_iff {selected : Prop} {rest : Prop}
    (h : rest → selected → pk ∈ p.applications.makeBdd) :
    ((selected → p.services.isAppServices = false) → pk ∈ p.services.makeBdd) ∧ rest ↔
      pk ∈ p.services.makeBdd ∧ rest := by
  refine and_congr_left fun hrest => ⟨fun hservices => ?_, fun hservices _ => hservices⟩
  cases hkind : p.services.isAppServices with
  | false => exact hservices fun _ => hkind
  | true =>
    by_cases hsel : selected
    · exact mem_services_of_application hkind (h hrest hsel)
    · exact hservices fun hs => absurd hs hsel

/-- **The copy of a predicate holds the same packets**, whatever criteria are selected. -/
theorem packets_makeBddOptions_copy (options : BddOptions) :
    packets (p.copy.makeBddOptions options : Bddnode) =
      packets (p.makeBddOptions options : Bddnode) := by
  refine Set.ext fun pk => ?_
  rw [mem_packets, mem_packets, makeBdd_bddnode, makeBdd_bddnode, mem_makeBddOptions,
    mem_makeBddOptions, services_iff p fun hrest => hrest.1,
    services_iff p.copy fun hrest => hrest.1]
  simp only [srcZones_copy, dstZones_copy, srcAddresses_copy, dstAddresses_copy,
    negateSrcAddresses_copy, negateDstAddresses_copy, makeBdd_services_copy, applications_copy,
    users_copy, urls_copy]

theorem packets_copy : packets p.copy = packets p := by
  have hothers : p.copy.others = p.others := by
    refine Set.ext fun pk => ?_
    have hiff := fun q : Predicate => @services_iff q pk True
      (pk ∈ q.applications.makeBdd ∧ pk ∈ q.users.makeBdd ∧ pk ∈ q.urls.makeBdd) fun h _ => h.1
    simp only [true_imp_iff] at hiff
    rw [others, others, Set.mem_ofPred_eq, Set.mem_ofPred_eq, hiff p, hiff p.copy]
    simp only [srcZones_copy, dstZones_copy, makeBdd_services_copy, applications_copy,
      users_copy, urls_copy]
  refine Set.ext fun pk => ?_
  rw [mem_packets_predicate, mem_packets_predicate, hothers, srcAddresses_copy,
    dstAddresses_copy, negateSrcAddresses_copy, negateDstAddresses_copy]

end Predicate

/-! ### The answers of a copy -/

namespace Firewall

/-- Another firewall gives the same answers: rule by rule the same packets and the same flag,
and the same selections. -/
structure SameAnswers (firewall other : Firewall) : Prop where
  rules : List.Forall₂ (fun rule rule' : Rule =>
    packets rule'.predicate = packets rule.predicate ∧
      (∀ options, packets (rule'.predicate.makeBddOptions options : Bddnode) =
        packets (rule.predicate.makeBddOptions options : Bddnode)) ∧
      rule'.isDefaultAppSvc = rule.isDefaultAppSvc) firewall.rules other.rules
  selections : ∀ applications services,
    (other.rules.filterApplications applications services).idList =
      (firewall.rules.filterApplications applications services).idList

theorem selects_copy {rule : Rule} (h : rule.isDefaultAppSvc = false)
    (applications : ApplicationGroup) (services : ServiceGroup) :
    RuleList.selects applications services rule.copy =
      RuleList.selects applications services rule := by
  have hcopy : rule.copy.isDefaultAppSvc = false := rfl
  have happ : rule.copy.predicate.applications = rule.predicate.applications :=
    Predicate.applications_copy _
  have hsvc : isSubset services rule.copy.predicate.services =
      isSubset services rule.predicate.services := by
    have hbdd : Mnode.makeBdd rule.copy.predicate.services =
        Mnode.makeBdd rule.predicate.services := Predicate.makeBdd_services_copy _
    rw [isSubset, isSubset, hbdd]
  rw [RuleList.selects, RuleList.selects, happ, h, hcopy, hsvc, if_neg Bool.false_ne_true,
    if_neg Bool.false_ne_true]

/-- **When a copied firewall gives the same answers**: exactly when no rule uses the default
services of its applications. -/
theorem copy_sameAnswers_iff (firewall : Firewall) (name : String) :
    firewall.SameAnswers (firewall.copy name) ↔
      ∀ rule ∈ firewall.rules, rule.isDefaultAppSvc = false := by
  constructor
  · intro h rule hrule
    have hrules := h.rules
    rw [rules_copy, List.forall₂_map_right_iff, List.forall₂_same] at hrules
    exact (hrules rule hrule).2.2.symm
  · intro h
    refine ⟨?_, fun applications services => ?_⟩
    · rw [rules_copy, List.forall₂_map_right_iff, List.forall₂_same]
      intro rule hrule
      exact ⟨Predicate.packets_copy _, Predicate.packets_makeBddOptions_copy _,
        (h rule hrule).symm⟩
    · have hselects : ∀ rule ∈ firewall.rules,
          (RuleList.selects applications services ∘ Rule.copy) rule =
            RuleList.selects applications services rule :=
        fun rule hrule => selects_copy (h rule hrule) applications services
      rw [rules_copy, RuleList.filterApplications, RuleList.filterApplications, List.filter_map,
        List.filter_congr hselects, RuleList.idList, RuleList.idList, List.map_map]
      rfl

/-! ### A copy that gives other answers -/

/-- An application on a port, restricted to its default services. -/
def portApplication (name : String) (number : Fin 1024) (service : Service) : Application :=
  .app name (Range.singleton number.val number.isLt) ⟨Group.ofItem "$appsvc" service, false⟩
    {.application} true

/-- `web` uses tcp/80. -/
def web : Application :=
  portApplication "web" 1 (.tcp "tcp/80" (Range.singleton 80 (by decide)))

/-- `dns` uses udp/53. -/
def dns : Application :=
  portApplication "dns" 2 (.udp "udp/53" (Range.singleton 53 (by decide)))

/-- Allows `web` and `dns` with their default services. -/
def webAndDns : Rule where
  id := 1
  name := ""
  status := .enabled
  action := .allow
  predicate := .ofCriteria {
    Criteria.any .ip4Model with
    services := defaultServices ((Group.ofItem "" web).addItem dns)
    applications := (Group.ofItem "" web).addItem dns
    appDefault := fun _ => ⟨rfl, by decide +kernel⟩ }

/-- The copy loses the flag and is selected for `web` with udp/53, the original is not. -/
theorem copy_other_answers :
    webAndDns.isDefaultAppSvc = true ∧ webAndDns.copy.isDefaultAppSvc = false ∧
    (RuleList.filterApplications [webAndDns] (Group.ofItem "" web)
        ⟨Group.ofItem "" (.udp "udp/53" (Range.singleton 53 (by decide))), false⟩).idList = [] ∧
    (RuleList.filterApplications ((Firewall.mk "fw" [webAndDns]).copy "copy").rules
        (Group.ofItem "" web)
        ⟨Group.ofItem "" (.udp "udp/53" (Range.singleton 53 (by decide))), false⟩).idList = [1] ∧
    ¬(Firewall.mk "fw" [webAndDns]).SameAnswers ((Firewall.mk "fw" [webAndDns]).copy "copy") := by
  refine ⟨rfl, rfl, by decide +kernel, by decide +kernel, fun h => ?_⟩
  have hflag := h.rules
  rw [rules_copy, List.forall₂_map_right_iff, List.forall₂_same] at hflag
  exact absurd (hflag webAndDns (List.mem_singleton_self _)).2.2 (by decide)

end Firewall

end RulesAnalyzer
