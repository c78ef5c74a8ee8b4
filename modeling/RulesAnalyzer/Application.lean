import RulesAnalyzer.Service
import Mathlib.Data.Finset.Basic

/-!
# Applications, users and urls

These three criteria are only encoded when the model has the matching option.
An application also owns a group of default services; whether these restrict
its packets is a flag of the application.

## Main definitions

* `ModelOption`, `ModelOptions` — the options of a model.
* `Application`, `ApplicationGroup.defaultServices` — applications, and the group of the
  default services of an application group.
* `OptionNode`, `User`, `Url` — a named range that only counts with an option.

## Main results

* `mem_makeBdd_application`, `mem_makeBdd_optionNode` — what the diagrams hold when the
  option is enabled.
* `mem_items_defaultServices` — the default services of a group are those of its
  applications.
-/

namespace RulesAnalyzer

open Diagram

/-- An option of the model. -/
inductive ModelOption
  | application
  | user
  | url
  deriving DecidableEq, Repr

/-- The set of enabled options. -/
abbrev ModelOptions := Finset ModelOption

/-! ### Applications -/

/-- An application. -/
inductive Application
  /-- `AnyApplication`. -/
  | any
  /-- An application of the class itself. -/
  | app (name : String) (range : Range DomainType.application.nbits) (services : ServiceGroup)
      (options : ModelOptions) (useAppSvc : Bool)
  deriving DecidableEq

namespace Application

/-- The application numbers. -/
def range : Application → Range DomainType.application.nbits
  | any => Range.full _
  | app _ range _ _ _ => range

/-- The default services of the application. -/
def services : Application → ServiceGroup
  | any => ServiceGroup.any
  | app _ _ services _ _ => services

/-- The default services restrict the packets of the application. -/
def useAppSvc : Application → Bool
  | any => true
  | app _ _ _ _ useAppSvc => useAppSvc

/-- The diagram of an application.  `AnyApplication` overrides it. -/
def makeBdd : Application → ModelBdd
  | any => bddTrue
  | app _ range services options useAppSvc =>
    let result := bddTrue
    -- the application mode is enabled in the model
    let result := if .application ∈ options then
      bddAnd result (Mvalue.makeBdd ⟨.application, range⟩) else result
    -- the default services are enabled on this application
    if useAppSvc then bddAnd result services.makeBdd else result

/-- The number of the application counts. -/
def Enabled : Application → Prop
  | any => True
  | app _ _ _ options _ => .application ∈ options

/-- The packet has the number of the application and, where the default services restrict
it, uses one of them. -/
def Matches (application : Application) (pk : Packet) : Prop :=
  pk.value .application ∈ application.range ∧
    (application.useAppSvc = true → ∃ service ∈ application.services.items, service.Matches pk)

/-- The domains an application looks at. -/
def domains : Set DomainType := insert .application Service.domains

end Application

instance : Mnode Application := ⟨Application.makeBdd⟩

theorem mem_items_anyServices {service : Service} :
    service ∈ ServiceGroup.any.items ↔ service = .any := by
  simp [ServiceGroup.any, ServiceGroup.items, Group.parse]

/-- **An application with its option enabled holds the packets it matches.** -/
theorem mem_makeBdd_application {application : Application} (h : application.Enabled)
    {pk : Packet} : pk ∈ application.makeBdd ↔ application.Matches pk := by
  cases application with
  | any =>
    simp only [Application.makeBdd, mem_bddTrue, Application.Matches, true_iff]
    refine ⟨Range.mem_full.mpr (pk.value_lt .application), fun _ => ?_⟩
    exact ⟨.any, mem_items_anyServices.mpr rfl, trivial⟩
  | app name range services options useAppSvc =>
    have happ : pk ∈ bddAnd bddTrue (Mvalue.makeBdd ⟨.application, range⟩) ↔
        pk.value .application ∈ range := by
      rw [mem_bddAnd]
      exact (and_iff_right mem_bddTrue).trans mem_makeBdd_mvalue
    have hoption : ModelOption.application ∈ options := h
    rw [Application.makeBdd, Application.Matches, if_pos hoption]
    cases useAppSvc with
    | false => simp only [Bool.false_eq_true, if_false, happ, Application.range,
        Application.useAppSvc, false_imp_iff, and_true]
    | true => simp only [if_true, mem_bddAnd, happ, mem_makeBdd_serviceGroup, Application.range,
        Application.useAppSvc, Application.services, true_imp_iff]

theorem supported_application (application : Application) :
    Supported Application.domains application.makeBdd := by
  cases application with
  | any => exact supported_bddTrue
  | app name range services options useAppSvc =>
    have hsvc : Supported Application.domains services.makeBdd :=
      (supported_serviceGroup services).mono (Set.subset_insert _ _)
    have happ : Supported Application.domains
        (if .application ∈ options then bddAnd bddTrue (Mvalue.makeBdd ⟨.application, range⟩)
          else bddTrue) := by
      split
      · exact supported_bddTrue.bddAnd (supported_mvalue (Set.mem_insert _ _))
      · exact supported_bddTrue
    rw [Application.makeBdd]
    split
    · exact happ.bddAnd hsvc
    · exact happ

/-- A hierarchy of groups of applications. -/
abbrev ApplicationGroup := Group Application

/-- `AnyApplicationGroup`. -/
def anyApplicationGroup : ApplicationGroup :=
  .any "$any-app-group" [Application.any] ⟨_, List.mem_singleton_self _, rfl⟩

/-- The group of all default services allowed by the applications of a group. -/
def defaultServices (applications : ApplicationGroup) : ServiceGroup :=
  applications.items.foldl
    (fun services application => application.services.items.foldl ServiceGroup.addMember services)
    ⟨.empty "$app-default-svc", true⟩

theorem mem_items_foldl_addMember {l : List Service} {services : ServiceGroup}
    {service : Service} : service ∈ (l.foldl ServiceGroup.addMember services).items ↔
      service ∈ services.items ∨ service ∈ l := by
  induction l generalizing services with
  | nil => simp
  | cons a l ih =>
    rw [List.foldl_cons, ih, ServiceGroup.items, ServiceGroup.addMember, Group.mem_items,
      Group.mem_parse_addMember, List.mem_cons, or_assoc, ServiceGroup.items, Group.mem_items]

/-- **The default services of a group are those of its applications.** -/
theorem mem_items_defaultServices {applications : ApplicationGroup} {service : Service} :
    service ∈ (defaultServices applications).items ↔
      ∃ application ∈ applications.items, service ∈ application.services.items := by
  have hfold : ∀ (l : List Application) (services : ServiceGroup),
      service ∈ (l.foldl (fun services application =>
        application.services.items.foldl ServiceGroup.addMember services) services).items ↔
      service ∈ services.items ∨ ∃ application ∈ l, service ∈ application.services.items := by
    intro l
    induction l with
    | nil => simp
    | cons a l ih =>
      intro services
      rw [List.foldl_cons, ih, mem_items_foldl_addMember, or_assoc]
      simp
  rw [defaultServices, hfold]
  simp [ServiceGroup.items, Group.parse]

/-! ### Users and urls -/

/-- A named range of a domain that only counts when the model has an option. -/
structure OptionNode (dt : DomainType) (option : ModelOption) where
  /-- The name. -/
  name : String
  /-- The numbers. -/
  range : Range dt.nbits
  /-- The options of the model. -/
  options : ModelOptions
  deriving DecidableEq

/-- A user. -/
abbrev User := OptionNode .user .user

/-- A url. -/
abbrev Url := OptionNode .url .url

namespace OptionNode

variable {dt : DomainType} {option : ModelOption}

/-- The diagram: constantly true when the option is not enabled. -/
def makeBdd (node : OptionNode dt option) : ModelBdd :=
  if option ∈ node.options then Mvalue.makeBdd ⟨dt, node.range⟩ else bddTrue

/-- The node that stands for all values. -/
def any : OptionNode dt option := ⟨"any", Range.full dt.nbits, ∅⟩

/-- The option is enabled, or the node covers the whole domain anyway. -/
def Enabled (node : OptionNode dt option) : Prop :=
  option ∈ node.options ∨ node.range = Range.full dt.nbits

end OptionNode

instance {dt : DomainType} {option : ModelOption} : Mnode (OptionNode dt option) :=
  ⟨OptionNode.makeBdd⟩

theorem makeBdd_optionNode_any {dt : DomainType} {option : ModelOption} :
    (OptionNode.any : OptionNode dt option).makeBdd = bddTrue := if_neg (Finset.notMem_empty _)

/-- **A node with its option enabled holds the packets whose value is in its range.** -/
theorem mem_makeBdd_optionNode {dt : DomainType} {option : ModelOption}
    {node : OptionNode dt option} (h : node.Enabled) {pk : Packet} :
    pk ∈ node.makeBdd ↔ pk.value dt ∈ node.range := by
  unfold OptionNode.makeBdd
  split
  · exact mem_makeBdd_mvalue
  · next hoption =>
    rw [h.resolve_left hoption, Range.mem_full]
    simp only [mem_bddTrue, pk.value_lt]

theorem supported_optionNode {dt : DomainType} {option : ModelOption}
    (node : OptionNode dt option) : Supported {dt} node.makeBdd := by
  unfold OptionNode.makeBdd
  split
  · exact supported_mvalue rfl
  · exact supported_bddTrue

/-- A hierarchy of groups of users. -/
abbrev UserGroup := Group User

/-- A hierarchy of groups of urls. -/
abbrev UrlGroup := Group Url

/-- `AnyUserGroup`. -/
def anyUserGroup : UserGroup :=
  .any "$any-usr-group" [OptionNode.any] ⟨_, List.mem_singleton_self _, makeBdd_optionNode_any⟩

/-- `AnyUrlGroup`. -/
def anyUrlGroup : UrlGroup :=
  .any "$any-url-group" [OptionNode.any] ⟨_, List.mem_singleton_self _, makeBdd_optionNode_any⟩

end RulesAnalyzer
