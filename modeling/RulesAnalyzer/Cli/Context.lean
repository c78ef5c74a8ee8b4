import RulesAnalyzer.Effect.Atomic
import RulesAnalyzer.Firewall
import RulesAnalyzer.Isolation
import RulesAnalyzer.ObjectLoader
import RulesAnalyzer.RuleIds

/-!
# The context of the commands

All commands share a context: the object store, the network with its firewalls, and a pointer
to the firewall that is selected.  Firewalls live on a heap; the network owns them under their
names, and deletes them.

## Main definitions

* `HeldRule`, `HeldFirewall` — rules that were loaded or copied, and firewalls.
* `CliContext` — the context, with the heap of the firewalls.
* `CliContext.addFirewall`, `CliContext.deleteFirewall`, … — the operations.
* `CliContext.Good` — the invariant.

## Main results

* `PredicateRef.packets_copy` — the copy of a loaded predicate holds the same packets.
* `HeldFirewall.decision_grows`, `HeldFirewall.decision_copy` — what later loads and copies mean
  for the decisions of a firewall.
* `setRuleStatus_eq_some_iff` — the rule whose status changes.
* `Good.effect` — **every operation keeps the invariant.**
* `Good.other_effect`, `Good.selected_effect`, `Good.new_effect` — what it does to each firewall.
-/

namespace RulesAnalyzer

open Diagram Effect Mnode

/-! ### The copy of a loaded rule -/

/-- The copy of criteria: the groups are copied, and default services become a plain group. -/
def CriteriaRef.copy (nw : Network) (c : CriteriaRef) : Criteria where
  sources := ⟨(nw.zoneGroup .src c.srcZones).clone, (nw.addressGroup .src c.srcAddresses).clone,
    c.negateSrcAddresses⟩
  destinations := ⟨(nw.zoneGroup .dst c.dstZones).clone,
    (nw.addressGroup .dst c.dstAddresses).clone, c.negateDstAddresses⟩
  services := (c.services.value nw).clone
  applications := (nw.applicationGroup c.useAppSvc c.applications).clone
  users := (nw.userGroup c.users).clone
  urls := (nw.urlGroup c.urls).clone
  appDefault := nofun

/-- The copy of a predicate. -/
def PredicateRef.copy (nw : Network) : PredicateRef → Predicate
  | ofCriteria criteria => .ofCriteria (criteria.copy nw)
  | any ipModel => (Predicate.any ipModel).copy

/-- **The copy of a loaded predicate holds the same packets.** -/
theorem PredicateRef.packets_copy {nw : Network} (hs : nw.Sound) {p : PredicateRef}
    (h : p.Valid nw) : packets (p.copy nw) = packets (p.makeBdd nw) := by
  cases p with
  | ofCriteria c => exact Predicate.packets_copy (.ofCriteria (c.criteria hs h))
  | any ipModel => exact Predicate.packets_copy (.any ipModel)

namespace Cli

/-! ### Firewalls -/

/-- A rule: one that was loaded refers to the network, one that was copied has groups of its
own. -/
inductive HeldRule
  | loaded (rule : RuleRef)
  | copied (rule : Rule)

namespace HeldRule

/-- The id of a rule. -/
def id : HeldRule → ℤ
  | loaded rule => rule.id
  | copied rule => rule.id

/-- The name of a rule. -/
def name : HeldRule → String
  | loaded rule => rule.name
  | copied rule => rule.name

/-- Whether a rule takes part in decisions. -/
def status : HeldRule → RuleStatus
  | loaded rule => rule.status
  | copied rule => rule.status

/-- What a rule does with the packets it matches. -/
def action : HeldRule → RuleAction
  | loaded rule => rule.action
  | copied rule => rule.action

/-- Enables or disables a rule; nothing else of it changes. -/
def setRuleStatus (status : RuleStatus) : HeldRule → HeldRule
  | loaded rule => loaded { rule with status := status }
  | copied rule => copied { rule with status := status }

/-- The copy constructor of rules. -/
def copy (nw : Network) : HeldRule → HeldRule
  | loaded rule => copied ⟨rule.id, rule.name, rule.status, rule.action, rule.predicate.copy nw⟩
  | copied rule => copied rule.copy

/-- The diagram of the predicate. -/
def makeBdd (nw : Network) : HeldRule → ModelBdd
  | loaded rule => rule.predicate.makeBdd nw
  | copied rule => rule.predicate.makeBdd

/-- The rule matches the packet. -/
def covers (nw : Network) (rule : HeldRule) (pk : Packet) : Bool := decide (pk ∈ rule.makeBdd nw)

/-- The groups of a loaded rule are those of the network. -/
def Valid (nw : Network) : HeldRule → Prop
  | loaded rule => rule.predicate.Valid nw
  | copied _ => True

end HeldRule

/-- A firewall. -/
structure HeldFirewall where
  name : String
  rules : List HeldRule

namespace HeldFirewall

/-- The copy of a firewall under another name. -/
def copy (nw : Network) (other : HeldFirewall) (name : String) : HeldFirewall :=
  ⟨name, other.rules.map (HeldRule.copy nw)⟩

/-- The enabled rules. -/
def acl (firewall : HeldFirewall) : List HeldRule :=
  firewall.rules.filter fun rule => rule.status == .enabled

/-- The action of the first enabled rule that matches a packet. -/
def decision (nw : Network) (firewall : HeldFirewall) (pk : Packet) : Option RuleAction :=
  FirstMatch.decision (HeldRule.covers nw) HeldRule.action firewall.acl pk

end HeldFirewall

/-- `Firewall::get_rule` and `set_rule_status`: the rule with an id that was added last. -/
def setRuleStatus (ruleId : ℤ) (status : RuleStatus) : List HeldRule → Option (List HeldRule)
  | [] => none
  | rule :: rules =>
    match setRuleStatus ruleId status rules with
    | some rules => some (rule :: rules)
    | none => if rule.id = ruleId then some (rule.setRuleStatus status :: rules) else none

/-! ### Networks that grow -/

/-- All registries are extended; the options of the model may change. -/
def Grows (nw nw' : Network) : Prop := ∀ k, (nw.registries k).Extends (nw'.registries k)

instance : Std.Refl Grows := ⟨fun _ _ => refl _⟩

instance : IsTrans Network Grows := ⟨fun _ _ _ h h' k => IsTrans.trans _ _ _ (h k) (h' k)⟩

section Grows

variable {nw nw' : Network} {rule : HeldRule}

theorem HeldRule.valid_modelOptions {modelOptions : ModelOptions} (h : rule.Valid nw) :
    rule.Valid { nw with modelOptions := modelOptions } := by
  rcases rule with ⟨id, name, status, action, criteria | ipModel⟩ | rule
  · exact CriteriaRef.Valid.mk h.srcZones h.srcAddresses h.dstZones h.dstAddresses
      (by cases hservices : criteria.services with
        | registered members =>
          exact (hservices ▸ h.services : ServicesRef.In nw (.registered members))
        | appDefault services => exact trivial) h.applications h.users h.urls h.appDefault
  · exact trivial
  · exact trivial

variable (hs : nw.Sound) (hgrows : Grows nw nw') (h : rule.Valid nw)

include hs hgrows h

theorem HeldRule.valid_grows : rule.Valid nw' := by
  have hext : nw.Extends { nw' with modelOptions := nw.modelOptions } := ⟨hgrows, rfl⟩
  have hvalid : rule.Valid { nw' with modelOptions := nw.modelOptions } := by
    cases rule with
    | loaded rule => exact PredicateRef.valid_extends hs hext h
    | copied rule => exact trivial
  exact @HeldRule.valid_modelOptions { nw' with modelOptions := nw.modelOptions } rule
    nw'.modelOptions hvalid

/-- **A rule holds the same packets in a network that has grown.** -/
theorem HeldRule.makeBdd_grows : rule.makeBdd nw' = rule.makeBdd nw := by
  have hext : nw.Extends { nw' with modelOptions := nw.modelOptions } := ⟨hgrows, rfl⟩
  rcases rule with ⟨id, name, status, action, criteria | ipModel⟩ | rule
  · exact CriteriaRef.makeBdd_extends hs hext h
  · rfl
  · rfl

end Grows

/-- **The copy of a rule holds the same packets.** -/
theorem HeldRule.makeBdd_copy {nw : Network} {rule : HeldRule} (hs : nw.Sound)
    (h : rule.Valid nw) (nw' : Network) : (rule.copy nw).makeBdd nw' = rule.makeBdd nw := by
  cases rule with
  | loaded rule =>
    have hpackets : packets ((rule.predicate.copy nw).makeBdd : ModelBdd) =
        packets (rule.predicate.makeBdd nw) := PredicateRef.packets_copy hs h
    exact makeBdd_eq_iff.mpr hpackets
  | copied rule => exact makeBdd_eq_iff.mpr (Predicate.packets_copy rule.predicate)

section Decision

variable {nw nw' : Network} {firewall : HeldFirewall}

theorem mem_rules_of_mem_acl {rule : HeldRule} (h : rule ∈ firewall.acl) :
    rule ∈ firewall.rules := (List.mem_filter.mp h).1

theorem HeldFirewall.acl_copy (firewall : HeldFirewall) (name : String) :
    (firewall.copy nw name).acl = firewall.acl.map (HeldRule.copy nw) := by
  have hstatus (rule : HeldRule) : (rule.copy nw).status = rule.status := by cases rule <;> rfl
  rw [acl, acl, HeldFirewall.copy, List.filter_map]
  simp only [Function.comp_def, hstatus]

variable (hs : nw.Sound) (h : ∀ rule ∈ firewall.rules, rule.Valid nw)

include hs h

/-- **A firewall decides the same in a network that has grown.** -/
theorem HeldFirewall.decision_grows (hgrows : Grows nw nw') (pk : Packet) :
    firewall.decision nw' pk = firewall.decision nw pk := by
  have hmap : FirstMatch.decision (HeldRule.covers nw') HeldRule.action (firewall.acl.map id) pk =
      firewall.decision nw pk := by
    refine FirstMatch.decision_map (fun rule hrule => ?_) fun _ _ => rfl
    have hvalid := h rule (mem_rules_of_mem_acl hrule)
    simp only [HeldRule.covers, id_eq, HeldRule.makeBdd_grows hs hgrows hvalid]
  rwa [List.map_id] at hmap

/-- **The copy of a firewall decides the same**, in every network. -/
theorem HeldFirewall.decision_copy (name : String) (nw' : Network) (pk : Packet) :
    (firewall.copy nw name).decision nw' pk = firewall.decision nw pk := by
  rw [decision, acl_copy]
  refine FirstMatch.decision_map (fun rule hrule => ?_) fun rule _ => by cases rule <;> rfl
  have hvalid := h rule (mem_rules_of_mem_acl hrule)
  simp only [HeldRule.covers, HeldRule.makeBdd_copy hs hvalid]

/-- **Rule by rule, the copy is the firewall**: a copy holds the diagram that its rule had. -/
theorem HeldFirewall.forall₂_copy (name : String) (nw' : Network) :
    List.Forall₂ (fun rule rule' : HeldRule => rule'.id = rule.id ∧ rule'.name = rule.name ∧
      rule'.status = rule.status ∧ rule'.action = rule.action ∧
      rule'.makeBdd nw' = rule.makeBdd nw) firewall.rules (firewall.copy nw name).rules := by
  have hrules : (firewall.copy nw name).rules = firewall.rules.map (HeldRule.copy nw) := rfl
  rw [hrules, List.forall₂_map_right_iff, List.forall₂_same]
  intro rule hrule
  have hbdd := HeldRule.makeBdd_copy hs (h rule hrule) nw'
  cases rule with
  | loaded rule => exact ⟨rfl, rfl, rfl, rfl, hbdd⟩
  | copied rule => exact ⟨rfl, rfl, rfl, rfl, hbdd⟩

end Decision

/-! ### The change of a status -/

section SetRuleStatus

variable {ruleId : ℤ} {status : RuleStatus} {rules rules' : List HeldRule}

theorem setRuleStatus_eq_none_iff :
    setRuleStatus ruleId status rules = none ↔ ∀ rule ∈ rules, rule.id ≠ ruleId := by
  induction rules with
  | nil => simp [setRuleStatus]
  | cons rule rules ih =>
    rw [List.forall_mem_cons, ← ih, setRuleStatus]
    rcases setRuleStatus ruleId status rules with _ | rest
    · by_cases hid : rule.id = ruleId <;> simp [hid]
    · simp

/-- **Only the last rule with the id changes**, and only its status.  The later rules are tried
first, so a rule with the same id behind it hides an earlier one. -/
theorem setRuleStatus_eq_some_iff : setRuleStatus ruleId status rules = some rules' ↔
    ∃ pre rule post, rules = pre ++ rule :: post ∧ rule.id = ruleId ∧
      (∀ other ∈ post, other.id ≠ ruleId) ∧
      rules' = pre ++ rule.setRuleStatus status :: post := by
  constructor
  · intro h
    -- the later rules are tried first
    induction rules generalizing rules' with
    | nil => cases h
    | cons rule rules ih =>
      rw [setRuleStatus] at h
      split at h
      · next rest hrest =>
        cases h
        obtain ⟨pre, rule', post, rfl, hid, hpost, rfl⟩ := ih hrest
        exact ⟨rule :: pre, rule', post, rfl, hid, hpost, rfl⟩
      · next hnone =>
        split at h
        · next hid =>
          cases h
          exact ⟨[], rule, rules, rfl, hid, setRuleStatus_eq_none_iff.mp hnone, rfl⟩
        · cases h
  · intro ⟨pre, rule, post, hrules, hid, hpost, hrules'⟩
    subst hrules hrules'
    induction pre with
    | nil =>
      have hnone : setRuleStatus ruleId status post = none := setRuleStatus_eq_none_iff.mpr hpost
      rw [List.nil_append, setRuleStatus, hnone]
      exact if_pos hid
    | cons first pre ih => rw [List.cons_append, setRuleStatus, ih, List.cons_append]

end SetRuleStatus

theorem HeldRule.id_setRuleStatus (status : RuleStatus) (rule : HeldRule) :
    (rule.setRuleStatus status).id = rule.id := by
  cases rule <;> rfl

theorem HeldRule.valid_setRuleStatus {nw : Network} {rule : HeldRule} {status : RuleStatus} :
    (rule.setRuleStatus status).Valid nw ↔ rule.Valid nw := by cases rule <;> exact Iff.rfl

/-! ### The context -/

/-- What a command raises. -/
inductive CliError
  | exception (fault : Fault)
  /-- `std::out_of_range`, which is not one of the others. -/
  | outOfRange
  deriving DecidableEq

/-- Nothing of the program runs after the error. -/
def CliError.isFinal : CliError → Bool
  | exception fault => fault.isFinal
  | outOfRange => false

/-- A `std::runtime_error`. -/
def CliError.runtimeError (what : String) : CliError := .exception (.runtimeError what)

/-- What is known of a file. -/
inductive FileContents
  | missing
  | unreadable
  | text (contents : List Char)

/-- What the commands share: the store of objects, the network with its firewalls by name, and the
selected firewall.  A firewall is a place on the heap, so that two names would share it and a
copy of a context keeps it. -/
structure CliContext where
  ostore : ObjectStore
  network : Network
  /-- `Network::_firewalls`. -/
  firewalls : String → Option ℕ
  /-- The firewalls that were allocated; one that was deleted leaves nothing. -/
  heap : List (Option HeldFirewall)
  /-- `_current_firewall`. -/
  currentFirewall : Option ℕ

namespace CliContext

/-- The firewall at an address, if it has not been deleted. -/
def at? (c : CliContext) (p : ℕ) : Option HeldFirewall := c.heap[p]?.join

/-- The firewall that the network has under a name. -/
def find (c : CliContext) (name : String) : Option HeldFirewall := (c.firewalls name).bind c.at?

/-- The firewall that is selected. -/
def current (c : CliContext) : Option HeldFirewall := c.currentFirewall.bind c.at?

/-- Writes the firewall at an address. -/
def write (c : CliContext) (p : ℕ) (firewall : Option HeldFirewall) : CliContext :=
  { c with heap := c.heap.set p firewall }

/-- `Network::add` of a new firewall; one that has the name is deleted. -/
def add (c : CliContext) (firewall : HeldFirewall) : CliContext where
  ostore := c.ostore
  network := c.network
  firewalls := Function.update c.firewalls firewall.name (some c.heap.length)
  heap := (match c.firewalls firewall.name with
    | some p => c.heap.set p none
    | none => c.heap) ++ [some firewall]
  currentFirewall := c.currentFirewall

/-- `Network::del`. -/
def del (c : CliContext) (name : String) : CliContext :=
  match c.firewalls name with
  | some p => { c.write p none with firewalls := Function.update c.firewalls name none }
  | none => c

end CliContext

/-- The commands change the context, and may raise. -/
abbrev Command (α : Type) := Program CliContext CliError α

namespace CliContext

/-- The use of a pointer. -/
def deref (p : ℕ) : Command HeldFirewall := do
  match (← get).at? p with
  | some firewall => pure firewall
  | none => throw (.exception .undefined)

/-- `get_current_firewall`. -/
def getCurrentFirewall : Command (ℕ × HeldFirewall) := do
  match (← get).currentFirewall with
  | some p => do
    let firewall ← deref p
    pure (p, firewall)
  | none => throw (.runtimeError "a firewall is not selected")

/-- `add_firewall`. -/
def addFirewall (name : String) : Command PUnit := do
  let c ← get
  if (c.firewalls name).isSome then
    throw (.runtimeError ("firewall '" ++ name ++ "' already exists"))
  else
    modify fun c => { c.add ⟨name, []⟩ with currentFirewall := some c.heap.length }

/-- `delete_firewall`. -/
def deleteFirewall (name : String) : Command PUnit := do
  let c ← get
  if (c.firewalls name).isNone then throw (.runtimeError "firewall not found")
  else
    match c.currentFirewall with
    | some p => do
      let firewall ← deref p
      if firewall.name = name then
        throw (.runtimeError "firewall is currently selected, it can not be deleted")
      else modify fun c => c.del name
    | none => modify fun c => c.del name

/-- `CliFwSelectCommand::do_execute`. -/
def selectFirewall (name : String) : Command PUnit := do
  match (← get).firewalls name with
  | some p => modify fun c => { c with currentFirewall := some p }
  | none => throw (.runtimeError "firewall not found")

/-- `clone_current_firewall`. -/
def cloneCurrentFirewall (name : String) : Command PUnit := do
  let c ← get
  if (c.firewalls name).isSome then
    throw (.runtimeError ("firewall '" ++ name ++ "' already exists"))
  else
    let current ← getCurrentFirewall
    modify fun c => c.add (current.2.copy c.network name)

/-- The context after the loader of the firewall at an address. -/
def loaded (c : CliContext) (p : ℕ) (firewall : HeldFirewall) (s : Loading) : CliContext :=
  { c.write p (some { firewall with rules := s.rules.map .loaded }) with network := s.network }

/-- The end of a load: what the loader added stays when it raises. -/
def finishLoad (p : ℕ) (firewall : HeldFirewall) (result : Except Fault LoaderStatus × Loading) :
    Command PUnit := do
  modify fun c => c.loaded p firewall result.2
  match result.1 with
  | .ok _ => pure ⟨⟩
  | .error fault => throw (.exception fault)

/-- `load_current_firewall`: the rules are cleared before the file is opened. -/
def loadCurrentFirewall (config : ModelConfig) (options : LoaderConfig)
    (interrupted : ℕ → Bool) (file : FileContents) : Command PUnit := do
  let current ← getCurrentFirewall
  modify fun c => c.write current.1 (some { current.2 with rules := [] })
  match file with
  | .text contents => do
    let c ← get
    finishLoad current.1 current.2 (exec
      (FirewallFactory.load config c.ostore options interrupted contents) ⟨c.network, [], {}⟩)
  | _ => throw (.runtimeError "can't open file")

/-- The body of the commands that enable or disable a rule. -/
def changeRuleStatus (status : RuleStatus) (ruleId : String) : Command PUnit := do
  let current ← getCurrentFirewall
  match str2i ruleId with
  | some ruleId =>
    if ruleId < 0 then throw (.runtimeError "invalid rule id")
    else
      match setRuleStatus ruleId status current.2.rules with
      | some rules => modify fun c => c.write current.1 (some { current.2 with rules := rules })
      | none => throw (.runtimeError ("rule id '" ++ toString ruleId ++ "' not found"))
  | none => throw (.runtimeError "invalid rule id")

/-! ### What an operation can do -/

/-- What a command can do to the context, and how it ends then. -/
inductive Effect (config : ModelConfig) (options : LoaderConfig) (c : CliContext) :
    Except CliError PUnit → CliContext → Prop
  | unchanged (outcome : Except CliError PUnit) : Effect config options c outcome c
  | store (outcome : Except CliError PUnit) (ostore : ObjectStore) :
      Effect config options c outcome { c with ostore := ostore }
  | modelOptions (modelOptions : ModelOptions) :
      Effect config options c (.ok ⟨⟩) { c with
        network := { c.network with modelOptions := modelOptions } }
  | created (name : String) (h : c.firewalls name = none) :
      Effect config options c (.ok ⟨⟩)
        { c.add ⟨name, []⟩ with currentFirewall := some c.heap.length }
  | deleted (name : String) (p : ℕ) (h : c.firewalls name = some p)
      (hcurrent : ∀ q, c.currentFirewall = some q → ∃ fw, c.at? q = some fw ∧ fw.name ≠ name) :
      Effect config options c (.ok ⟨⟩) (c.del name)
  | selected (name : String) (p : ℕ) (h : c.firewalls name = some p) :
      Effect config options c (.ok ⟨⟩) { c with currentFirewall := some p }
  | copied (name : String) (p : ℕ) (fw : HeldFirewall) (h : c.firewalls name = none)
      (hcurrent : c.currentFirewall = some p) (hfw : c.at? p = some fw) :
      Effect config options c (.ok ⟨⟩) (c.add (fw.copy c.network name))
  | status (ruleId : ℤ) (status : RuleStatus) (p : ℕ) (fw : HeldFirewall) (rules : List HeldRule)
      (hcurrent : c.currentFirewall = some p) (hfw : c.at? p = some fw)
      (h : setRuleStatus ruleId status fw.rules = some rules) :
      Effect config options c (.ok ⟨⟩) (c.write p (some { fw with rules := rules }))
  | loaded (outcome : Except CliError PUnit) (p : ℕ) (fw : HeldFirewall) (s : Loading)
      (hcurrent : c.currentFirewall = some p) (hfw : c.at? p = some fw)
      (h : s = ⟨c.network, [], {}⟩ ∨ ∃ interrupted contents, s = (exec
        (FirewallFactory.load config c.ostore options interrupted contents)
        ⟨c.network, [], {}⟩).2) :
      Effect config options c outcome (c.loaded p fw s)

section Effects

@[simp] theorem ostore_write (c : CliContext) (p : ℕ) (fw : Option HeldFirewall) :
    (c.write p fw).ostore = c.ostore := rfl

@[simp] theorem network_write (c : CliContext) (p : ℕ) (fw : Option HeldFirewall) :
    (c.write p fw).network = c.network := rfl

theorem loaded_write (c : CliContext) (p : ℕ) (fw : HeldFirewall) (fw' : Option HeldFirewall)
    (s : Loading) : (c.write p fw').loaded p fw s = c.loaded p fw s := by
  rw [loaded, loaded, write, write, write, List.set_set]

variable {config : ModelConfig} {options : LoaderConfig} {c : CliContext} {α : Type}

/-- The use of a firewall that is selected. -/
theorem exec_getCurrentFirewall {p : ℕ} {fw : HeldFirewall} (hcurrent : c.currentFirewall = some p)
    (hfw : c.at? p = some fw) : exec getCurrentFirewall c = (.ok (p, fw), c) := by
  have hderef : exec (deref p) c = (.ok fw, c) := by
    rw [deref, exec_get_bind, hfw]
    rfl
  rw [getCurrentFirewall, exec_get_bind, hcurrent]
  exact exec_bind_ok hderef

/-- The use of the selected firewall: it returns the firewall, or raises without an effect. -/
theorem getCurrentFirewall_cases (c : CliContext) :
    (∃ p fw, c.currentFirewall = some p ∧ c.at? p = some fw ∧
        exec getCurrentFirewall c = (.ok (p, fw), c)) ∨
      ∃ e, exec getCurrentFirewall c = (.error e, c) := by
  rcases hcurrent : c.currentFirewall with _ | p
  · right
    exact ⟨.runtimeError "a firewall is not selected", by
      rw [getCurrentFirewall, exec_get_bind, hcurrent]
      rfl⟩
  rcases hfw : c.at? p with _ | fw
  · right
    refine ⟨.exception .undefined, ?_⟩
    rw [getCurrentFirewall, exec_get_bind, hcurrent]
    refine exec_bind_error ?_
    rw [deref, exec_get_bind, hfw]
    rfl
  · exact Or.inl ⟨p, fw, rfl, hfw, exec_getCurrentFirewall hcurrent hfw⟩

/-- What is done with the selected firewall is all there is to do. -/
theorem effect_getCurrentFirewall {f : ℕ × HeldFirewall → Command PUnit}
    (hf : ∀ p fw, c.currentFirewall = some p → c.at? p = some fw →
      Effect config options c (exec (f (p, fw)) c).1 (exec (f (p, fw)) c).2) :
    Effect config options c (exec (getCurrentFirewall >>= f) c).1
      (exec (getCurrentFirewall >>= f) c).2 := by
  rcases getCurrentFirewall_cases c with ⟨p, fw, hcurrent, hfw, hrun⟩ | ⟨e, hrun⟩
  · rw [exec_bind_ok hrun]
    exact hf p fw hcurrent hfw
  · rw [exec_bind_error hrun]
    exact .unchanged _

theorem effect_addFirewall (name : String) :
    Effect config options c (exec (addFirewall name) c).1 (exec (addFirewall name) c).2 := by
  rw [addFirewall, exec_get_bind]
  by_cases h : (c.firewalls name).isSome = true
  · rw [if_pos h]
    exact .unchanged _
  · rw [if_neg h]
    exact .created name (Option.not_isSome_iff_eq_none.mp h)

theorem effect_deleteFirewall (name : String) :
    Effect config options c (exec (deleteFirewall name) c).1
      (exec (deleteFirewall name) c).2 := by
  rw [deleteFirewall, exec_get_bind]
  rcases h : c.firewalls name with _ | p
  · exact .unchanged _
  simp only [Option.isNone_some, Bool.false_eq_true, if_false]
  rcases hcurrent : c.currentFirewall with _ | q
  · exact .deleted name p h fun q hq => by
      rw [hcurrent] at hq
      cases hq
  rcases hfw : c.at? q with _ | fw
  · have hderef : exec (deref q) c = (.error (.exception .undefined), c) := by
      rw [deref, exec_get_bind, hfw]
      rfl
    rw [exec_bind_error hderef]
    exact .unchanged _
  · have hderef : exec (deref q) c = (.ok fw, c) := by
      rw [deref, exec_get_bind, hfw]
      rfl
    rw [exec_bind_ok hderef]
    by_cases hname : fw.name = name
    · rw [if_pos hname]
      exact .unchanged _
    · rw [if_neg hname]
      refine .deleted name p h fun q' hq' => ⟨fw, ?_, hname⟩
      rwa [← Option.some.inj (hcurrent.symm.trans hq')]

theorem effect_selectFirewall (name : String) :
    Effect config options c (exec (selectFirewall name) c).1
      (exec (selectFirewall name) c).2 := by
  rw [selectFirewall, exec_get_bind]
  rcases h : c.firewalls name with _ | p
  · exact .unchanged _
  · exact .selected name p h

theorem effect_cloneCurrentFirewall (name : String) :
    Effect config options c (exec (cloneCurrentFirewall name) c).1
      (exec (cloneCurrentFirewall name) c).2 := by
  rw [cloneCurrentFirewall, exec_get_bind]
  by_cases h : (c.firewalls name).isSome = true
  · rw [if_pos h]
    exact .unchanged _
  · rw [if_neg h]
    refine effect_getCurrentFirewall fun p fw hcurrent hfw => ?_
    exact .copied name p fw (Option.not_isSome_iff_eq_none.mp h) hcurrent hfw

theorem exec_finishLoad (c : CliContext) (p : ℕ) (fw : HeldFirewall)
    (result : Except Fault LoaderStatus × Loading) :
    ∃ outcome, exec (finishLoad p fw result) c = (outcome, c.loaded p fw result.2) := by
  rw [finishLoad, exec_modify_bind]
  cases result.1 with
  | ok status => exact ⟨_, rfl⟩
  | error fault => exact ⟨_, rfl⟩

theorem effect_loadCurrentFirewall (interrupted : ℕ → Bool) (file : FileContents) :
    Effect config options c (exec (loadCurrentFirewall config options interrupted file) c).1
      (exec (loadCurrentFirewall config options interrupted file) c).2 := by
  rw [loadCurrentFirewall]
  refine effect_getCurrentFirewall fun p fw hcurrent hfw => ?_
  have hcleared : Effect config options c (.error (.runtimeError "can't open file"))
      (c.write p (some { fw with rules := [] })) :=
    .loaded _ p fw ⟨c.network, [], {}⟩ hcurrent hfw (Or.inl rfl)
  cases file with
  | missing => exact hcleared
  | unreadable => exact hcleared
  | text contents =>
    rw [exec_modify_bind]
    obtain ⟨outcome, hfinish⟩ := exec_finishLoad (c.write p (some { fw with rules := [] })) p fw
      (exec (FirewallFactory.load config c.ostore options interrupted contents)
        ⟨c.network, [], {}⟩)
    simp only [exec_get_bind, ostore_write, network_write]
    rw [hfinish, loaded_write]
    exact .loaded outcome p fw _ hcurrent hfw (Or.inr ⟨interrupted, contents, rfl⟩)

theorem exec_changeRuleStatus (status : RuleStatus) (ruleId : String) {p : ℕ} {fw : HeldFirewall}
    (hcurrent : c.currentFirewall = some p) (hfw : c.at? p = some fw) :
    exec (changeRuleStatus status ruleId) c = match str2i ruleId with
      | some ruleId =>
        if ruleId < 0 then (.error (.runtimeError "invalid rule id"), c)
        else
          match setRuleStatus ruleId status fw.rules with
          | some rules => (.ok ⟨⟩, c.write p (some { fw with rules := rules }))
          | none => (.error (.runtimeError ("rule id '" ++ toString ruleId ++ "' not found")), c)
      | none => (.error (.runtimeError "invalid rule id"), c) := by
  rw [changeRuleStatus, exec_bind_ok (exec_getCurrentFirewall hcurrent hfw)]
  rcases str2i ruleId with _ | ruleId
  · rfl
  simp only
  split
  · rfl
  · rcases setRuleStatus ruleId status fw.rules with _ | rules <;> rfl

theorem effect_changeRuleStatus (status : RuleStatus) (ruleId : String) :
    Effect config options c (exec (changeRuleStatus status ruleId) c).1
      (exec (changeRuleStatus status ruleId) c).2 := by
  rw [changeRuleStatus]
  refine effect_getCurrentFirewall fun p fw hcurrent hfw => ?_
  rcases str2i ruleId with _ | ruleId
  · exact .unchanged _
  show Effect config options c (exec (if ruleId < 0 then _ else _) c).1
    (exec (if ruleId < 0 then _ else _) c).2
  by_cases hneg : ruleId < 0
  · rw [if_pos hneg]
    exact .unchanged _
  rw [if_neg hneg]
  rcases h : setRuleStatus ruleId status fw.rules with _ | rules
  · exact .unchanged _
  · exact .status ruleId status p fw rules hcurrent hfw h

end Effects

/-! ### Operations that raise -/

section Atomic

theorem keeps_deref (p : ℕ) : Keeps Eq (deref p) := by
  refine keeps_bind keeps_get fun c => ?_
  split
  · exact keeps_pure _
  · exact keeps_throw _

theorem keeps_getCurrentFirewall : Keeps Eq getCurrentFirewall := by
  refine keeps_bind keeps_get fun c => ?_
  split
  · exact keeps_bind (keeps_deref _) fun _ => keeps_pure _
  · exact keeps_throw _

theorem atomic_addFirewall (name : String) : Atomic (addFirewall name) := by
  refine atomic_bind keeps_get fun c => ?_
  split
  · exact atomic_throw _
  · exact atomic_modify _

theorem atomic_deleteFirewall (name : String) : Atomic (deleteFirewall name) := by
  refine atomic_bind keeps_get fun c => ?_
  split
  · exact atomic_throw _
  split
  · refine atomic_bind (keeps_deref _) fun firewall => ?_
    split
    · exact atomic_throw _
    · exact atomic_modify _
  · exact atomic_modify _

theorem atomic_selectFirewall (name : String) : Atomic (selectFirewall name) := by
  refine atomic_bind keeps_get fun c => ?_
  split
  · exact atomic_modify _
  · exact atomic_throw _

theorem atomic_cloneCurrentFirewall (name : String) : Atomic (cloneCurrentFirewall name) := by
  refine atomic_bind keeps_get fun c => ?_
  split
  · exact atomic_throw _
  · exact atomic_bind keeps_getCurrentFirewall fun _ => atomic_modify _

theorem atomic_changeRuleStatus (status : RuleStatus) (ruleId : String) :
    Atomic (changeRuleStatus status ruleId) := by
  refine atomic_bind keeps_getCurrentFirewall fun current => ?_
  split
  · split
    · exact atomic_throw _
    split
    · exact atomic_modify _
    · exact atomic_throw _
  · exact atomic_throw _

end Atomic

/-! ### What a load keeps -/

/-- The network is extended, and the rules that are added are valid. -/
def Loads (s s' : Loading) : Prop :=
  s.network.Sound → s'.network.Sound ∧ s.network.Extends s'.network ∧
    ∀ rule ∈ s'.rules, rule ∈ s.rules ∨ rule.predicate.Valid s'.network

instance : Std.Refl Loads := ⟨fun _ hs => ⟨hs, refl _, fun _ h => Or.inl h⟩⟩

instance : IsTrans Loading Loads where
  trans s s' s'' h h' hs := by
    obtain ⟨hs', hext, hrules⟩ := h hs
    obtain ⟨hs'', hext', hrules'⟩ := h' hs'
    refine ⟨hs'', Trans.trans hext hext', fun rule hrule => ?_⟩
    rcases hrules' rule hrule with hrule | hvalid
    · exact (hrules rule hrule).imp_right (PredicateRef.valid_extends hs' hext')
    · exact Or.inr hvalid

section Loads

variable (config : ModelConfig) (store : ObjectStore) (options : LoaderConfig)
  (interrupted : ℕ → Bool)

theorem keeps_addRule (rule : RuleObject) :
    Keeps Loads (FirewallFactory.addRule config store rule) := by
  intro s hs
  obtain ⟨hstep, hrules⟩ := Session.valid_addRule config store rule hs
  obtain ⟨hs', hext⟩ := hstep hs
  exact ⟨hs', hext, hrules⟩

theorem keeps_loadRows (depth : ℕ) (reader : Csv.CsvReader) :
    Keeps Loads (FirewallFactory.loadRows config store options interrupted depth reader) := by
  induction depth generalizing reader with
  | zero => exact keeps_throw _
  | succ depth ih =>
    rw [FirewallFactory.loadRows]
    refine keeps_bind (keeps_ofExcept _) fun row => ?_
    rcases row with ⟨_ | rule, reader'⟩
    · exact keeps_pure _
    · refine keeps_bind (keeps_addRule config store rule) fun added => ?_
      refine keeps_bind (keeps_modify fun s hs => ⟨hs, refl _, fun _ h => Or.inl h⟩) fun _ => ?_
      exact ih reader'

theorem loads_finish (s : Loading) : Loads s (FirewallFactory.finish config options s) := by
  intro hs
  rw [FirewallFactory.finish]
  split
  · refine ⟨hs, refl _, fun rule hrule => ?_⟩
    rcases List.mem_append.mp hrule with hrule | hrule
    · exact Or.inl hrule
    · obtain rfl := List.mem_singleton.mp hrule
      exact Or.inr trivial
  · exact ⟨hs, refl _, fun _ h => Or.inl h⟩

/-- **A load extends the network, and the rules it leaves are valid**, also when it raises. -/
theorem keeps_load (contents : List Char) :
    Keeps Loads (FirewallFactory.load config store options interrupted contents) := by
  refine keeps_bind (keeps_ofExcept _) fun reader => ?_
  refine keeps_bind (keeps_modify fun s hs => ⟨hs, refl _, fun _ h => Or.inl h⟩) fun _ => ?_
  refine keeps_bind (keeps_loadRows config store options interrupted _ reader) fun _ => ?_
  refine keeps_bind (keeps_modify (loads_finish config options)) fun _ => ?_
  exact keeps_bind keeps_get fun s => keeps_pure _

end Loads

/-! ### The invariant -/

/-- The network owns every firewall under its own name, one is selected, the network is sound,
every rule refers to the network, and the rules of a firewall have different ids. -/
structure Good (c : CliContext) : Prop where
  owned : ∀ name p, c.firewalls name = some p → ∃ fw, c.at? p = some fw ∧ fw.name = name
  registered : ∀ p fw, c.at? p = some fw → c.firewalls fw.name = some p
  selected : ∃ p fw, c.currentFirewall = some p ∧ c.at? p = some fw
  sound : c.network.Sound
  valid : ∀ p fw, c.at? p = some fw → ∀ rule ∈ fw.rules, rule.Valid c.network
  numbered : ∀ p fw, c.at? p = some fw → Numbered 0 (fw.rules.map HeldRule.id)

section Heap

variable {c : CliContext} {p q : ℕ} {fw fw' : HeldFirewall}

theorem lt_length (h : c.at? p = some fw) : p < c.heap.length := by
  obtain ⟨cell, hcell, -⟩ := Option.bind_eq_some_iff.mp h
  exact (List.getElem?_eq_some_iff.mp hcell).1

theorem at?_write_self (h : c.at? p = some fw) (fw' : Option HeldFirewall) :
    (c.write p fw').at? p = fw' := by
  rw [at?, write, List.getElem?_set_self (lt_length h)]
  rfl

theorem at?_write_of_ne (h : p ≠ q) (fw' : Option HeldFirewall) :
    (c.write p fw').at? q = c.at? q := by
  rw [at?, write, List.getElem?_set_ne h, at?]

theorem at?_add (fw : HeldFirewall) (h : c.firewalls fw.name = none) :
    (c.add fw).at? q = if q = c.heap.length then some fw else c.at? q := by
  rw [at?, add, h]
  simp only
  split
  · next hq =>
    rw [hq, List.getElem?_concat_length]
    rfl
  · next hq =>
    rcases Nat.lt_or_ge q c.heap.length with hlt | hge
    · rw [List.getElem?_append_left hlt, at?]
    · rw [at?, List.getElem?_eq_none (by simp; omega), List.getElem?_eq_none hge]

end Heap

section Good

variable {config : ModelConfig} {options : LoaderConfig} {c c' : CliContext} {p q : ℕ}
  {fw fw' : HeldFirewall} {name : String}

/-- A new firewall.  It takes the next place of the heap, so those that are there keep theirs. -/
theorem Good.add (hc : c.Good) (fw : HeldFirewall) (h : c.firewalls fw.name = none)
    (hvalid : ∀ rule ∈ fw.rules, rule.Valid c.network)
    (hnumbered : Numbered 0 (fw.rules.map HeldRule.id)) : (c.add fw).Good where
  owned := by
    intro name p hname
    rw [at?_add fw h]
    -- a name leads to the new place, or to one that was there
    by_cases heq : name = fw.name
    · subst heq
      have hp : c.heap.length = p := by
        have hself : (c.add fw).firewalls fw.name = some c.heap.length := Function.update_self ..
        exact Option.some.inj (hself.symm.trans hname)
      rw [if_pos hp.symm]
      exact ⟨fw, rfl, rfl⟩
    · have hname : c.firewalls name = some p := by
        have hother : (c.add fw).firewalls name = c.firewalls name := Function.update_of_ne heq ..
        rwa [← hother]
      obtain ⟨fw', hfw', hname'⟩ := hc.owned name p hname
      rw [if_neg (lt_length hfw').ne]
      exact ⟨fw', hfw', hname'⟩
  registered := by
    intro p fw' hfw'
    rw [at?_add fw h] at hfw'
    split at hfw'
    · next hp =>
      cases hfw'
      rw [hp]
      exact Function.update_self ..
    · have hname := hc.registered p fw' hfw'
      -- the name of the new firewall was free
      have hne : fw'.name ≠ fw.name := by
        intro heq
        rw [heq, h] at hname
        cases hname
      exact (Function.update_of_ne hne ..).trans hname
  selected := by
    obtain ⟨p, fw', hcurrent, hfw'⟩ := hc.selected
    refine ⟨p, fw', hcurrent, ?_⟩
    rw [at?_add fw h, if_neg (lt_length hfw').ne, hfw']
  sound := hc.sound
  valid := by
    intro p fw' hfw'
    rw [at?_add fw h] at hfw'
    split at hfw'
    · cases hfw'
      exact hvalid
    · exact hc.valid p fw' hfw'
  numbered := by
    intro p fw' hfw'
    rw [at?_add fw h] at hfw'
    split at hfw'
    · cases hfw'
      exact hnumbered
    · exact hc.numbered p fw' hfw'

/-- Another firewall is selected. -/
theorem Good.select (hc : c.Good) (hfw : c.at? p = some fw) :
    Good { c with currentFirewall := some p } :=
  ⟨hc.owned, hc.registered, ⟨p, fw, rfl, hfw⟩, hc.sound, hc.valid, hc.numbered⟩

/-- The new firewall is found under its name. -/
theorem find_add_self (fw : HeldFirewall) (h : c.firewalls fw.name = none) :
    (c.add fw).find fw.name = some fw := by
  have hname : (c.add fw).firewalls fw.name = some c.heap.length := Function.update_self ..
  rw [CliContext.find, hname]
  exact (at?_add fw h).trans (if_pos rfl)

/-- The firewalls of other names are found as before. -/
theorem Good.find_add_of_ne (hc : c.Good) {fw : HeldFirewall} (h : c.firewalls fw.name = none)
    {other : String} (hne : other ≠ fw.name) : (c.add fw).find other = c.find other := by
  have hother : (c.add fw).firewalls other = c.firewalls other := Function.update_of_ne hne ..
  rw [CliContext.find, CliContext.find, hother]
  rcases hfind : c.firewalls other with _ | q
  · rfl
  · obtain ⟨fw', hfw', -⟩ := hc.owned other q hfind
    exact (at?_add fw h).trans (if_neg (lt_length hfw').ne)

/-- The selected firewall stays the selected one. -/
theorem current_add {fw fw' : HeldFirewall} (h : c.firewalls fw.name = none)
    (hcurrent : c.current = some fw') : (c.add fw).current = some fw' := by
  obtain ⟨p, hp, hfw'⟩ := Option.bind_eq_some_iff.mp hcurrent
  refine Option.bind_eq_some_iff.mpr ⟨p, hp, ?_⟩
  rw [at?_add fw h, if_neg (lt_length hfw').ne, hfw']

/-- The rules of a firewall are written.  Its name stays, so it is still found under it. -/
theorem Good.write (hc : c.Good) (hfw : c.at? p = some fw) {rules : List HeldRule}
    (hvalid : ∀ rule ∈ rules, rule.Valid c.network)
    (hnumbered : Numbered 0 (rules.map HeldRule.id)) :
    (c.write p (some { fw with rules := rules })).Good where
  owned := by
    intro name q hname
    -- a write keeps the name, so only the rules at `p` differ
    obtain ⟨fw', hfw', hname'⟩ := hc.owned name q hname
    by_cases hq : p = q
    · subst hq
      have heq : fw' = fw := Option.some.inj (hfw'.symm.trans hfw)
      exact ⟨_, at?_write_self hfw _, heq ▸ hname'⟩
    · exact ⟨fw', (at?_write_of_ne hq _).trans hfw', hname'⟩
  registered := by
    intro q fw' hfw'
    by_cases hq : p = q
    · subst hq
      rw [at?_write_self hfw] at hfw'
      cases hfw'
      exact hc.registered p fw hfw
    · rw [at?_write_of_ne hq] at hfw'
      exact hc.registered q fw' hfw'
  selected := by
    obtain ⟨q, fw', hcurrent, hfw'⟩ := hc.selected
    by_cases hq : p = q
    · subst hq
      exact ⟨p, _, hcurrent, at?_write_self hfw _⟩
    · exact ⟨q, fw', hcurrent, (at?_write_of_ne hq _).trans hfw'⟩
  sound := hc.sound
  valid := by
    intro q fw' hfw'
    by_cases hq : p = q
    · subst hq
      rw [at?_write_self hfw] at hfw'
      cases hfw'
      exact hvalid
    · rw [at?_write_of_ne hq] at hfw'
      exact hc.valid q fw' hfw'
  numbered := by
    intro q fw' hfw'
    by_cases hq : p = q
    · subst hq
      rw [at?_write_self hfw] at hfw'
      cases hfw'
      exact hnumbered
    · rw [at?_write_of_ne hq] at hfw'
      exact hc.numbered q fw' hfw'

/-- The network is extended. -/
theorem Good.grow (hc : c.Good) {nw : Network} (hs : nw.Sound) (hgrows : Grows c.network nw) :
    Good { c with network := nw } :=
  ⟨hc.owned, hc.registered, hc.selected, hs, fun p fw hfw rule hrule =>
    HeldRule.valid_grows hc.sound hgrows (hc.valid p fw hfw rule hrule), hc.numbered⟩

/-- A firewall that is not selected is deleted.  Its place in the heap stays empty, and no other
name leads to it. -/
theorem Good.del (hc : c.Good) (h : c.firewalls name = some p)
    (hcurrent : ∀ q, c.currentFirewall = some q → ∃ fw, c.at? q = some fw ∧ fw.name ≠ name) :
    (c.del name).Good := by
  obtain ⟨fw, hfw, hname⟩ := hc.owned name p h
  have hdel : c.del name =
      { c.write p none with firewalls := Function.update c.firewalls name none } := by
    rw [CliContext.del, h]
  -- a firewall that is left is another one, and was there before
  have hleft (q : ℕ) (fw' : HeldFirewall) (hfw' : (c.write p none).at? q = some fw') :
      p ≠ q ∧ c.at? q = some fw' := by
    have hq : p ≠ q := by
      intro hq
      subst hq
      rw [at?_write_self hfw] at hfw'
      cases hfw'
    exact ⟨hq, (at?_write_of_ne hq none).symm.trans hfw'⟩
  rw [hdel]
  refine ⟨?owned, ?registered, ?selected, hc.sound, ?valid, ?numbered⟩
  case owned =>
    intro name' q hname'
    have hne : name' ≠ name := by
      intro heq
      rw [heq] at hname'
      simp only [Function.update_self] at hname'
      cases hname'
    simp only [Function.update_of_ne hne] at hname'
    obtain ⟨fw', hfw', hname''⟩ := hc.owned name' q hname'
    have hq : p ≠ q := by
      intro hq
      subst hq
      have heq : fw' = fw := Option.some.inj (hfw'.symm.trans hfw)
      exact hne (hname''.symm.trans ((congrArg HeldFirewall.name heq).trans hname))
    exact ⟨fw', (at?_write_of_ne hq none).trans hfw', hname''⟩
  case registered =>
    intro q fw' hfw'
    obtain ⟨hq, hfw'⟩ := hleft q fw' hfw'
    have hreg := hc.registered q fw' hfw'
    have hne : fw'.name ≠ name := by
      intro heq
      rw [heq, h] at hreg
      exact hq (Option.some.inj hreg)
    exact (Function.update_of_ne hne ..).trans hreg
  case selected =>
    -- the selected firewall has another name
    obtain ⟨q, fw', hq, hfw'⟩ := hc.selected
    obtain ⟨fw'', hfw'', hne⟩ := hcurrent q hq
    have hpq : p ≠ q := by
      intro hpq
      subst hpq
      have heq : fw'' = fw := Option.some.inj (hfw''.symm.trans hfw)
      exact hne ((congrArg HeldFirewall.name heq).trans hname)
    exact ⟨q, fw', hq, (at?_write_of_ne hpq none).trans hfw'⟩
  case valid =>
    intro q fw' hfw'
    exact hc.valid q fw' (hleft q fw' hfw').2
  case numbered =>
    intro q fw' hfw'
    exact hc.numbered q fw' (hleft q fw' hfw').2

/-- The change of a status leaves the ids. -/
theorem map_id_setRuleStatus {ruleId : ℤ} {status : RuleStatus} {rules rules' : List HeldRule}
    (h : setRuleStatus ruleId status rules = some rules') :
    rules'.map HeldRule.id = rules.map HeldRule.id := by
  obtain ⟨pre, rule, post, rfl, -, -, rfl⟩ := setRuleStatus_eq_some_iff.mp h
  rw [List.map_append, List.map_append, List.map_cons, List.map_cons, HeldRule.id_setRuleStatus]

/-- Copies have the ids of the rules. -/
theorem map_id_copy (nw : Network) (rules : List HeldRule) :
    (rules.map (HeldRule.copy nw)).map HeldRule.id = rules.map HeldRule.id := by
  rw [List.map_map]
  exact List.map_congr_left fun rule _ => by cases rule <;> rfl

/-- **Every command keeps the invariant, and lets the network grow.**  A load is the only command
that registers objects, and the rules that it leaves have different ids. -/
theorem Good.effect {outcome : Except CliError PUnit} (hc : c.Good)
    (h : Effect config options c outcome c') : c'.Good ∧ Grows c.network c'.network := by
  cases h with
  | unchanged => exact ⟨hc, refl _⟩
  | store _ ostore =>
    exact ⟨⟨hc.owned, hc.registered, hc.selected, hc.sound, hc.valid, hc.numbered⟩, refl _⟩
  | modelOptions modelOptions => exact ⟨hc.grow hc.sound fun k => refl _, fun k => refl _⟩
  | created name h =>
    have hadd : (c.add ⟨name, []⟩).Good :=
      hc.add ⟨name, []⟩ h (fun _ hmem => absurd hmem List.not_mem_nil) numbered_nil
    have hat : (c.add ⟨name, []⟩).at? c.heap.length = some ⟨name, []⟩ :=
      (at?_add ⟨name, []⟩ h).trans (if_pos rfl)
    exact ⟨hadd.select hat, refl _⟩
  | deleted name p h hcurrent =>
    refine ⟨hc.del h hcurrent, ?_⟩
    rw [CliContext.del, h]
    exact refl _
  | selected name p h =>
    obtain ⟨fw, hfw, -⟩ := hc.owned name p h
    exact ⟨hc.select hfw, refl _⟩
  | copied name p fw h hcurrent hfw =>
    refine ⟨hc.add (fw.copy c.network name) h (fun rule hrule => ?_) ?_, refl _⟩
    · obtain ⟨rule₀, -, rfl⟩ := List.mem_map.mp hrule
      cases rule₀ <;> exact trivial
    · rw [HeldFirewall.copy, map_id_copy]
      exact hc.numbered p fw hfw
  | status ruleId status p fw rules hcurrent hfw h =>
    have hnumbered := hc.numbered p fw hfw
    rw [← map_id_setRuleStatus h] at hnumbered
    refine ⟨hc.write hfw (fun rule hrule => ?_) hnumbered, refl _⟩
    -- the rule that changes is valid, as it keeps its predicate
    obtain ⟨pre, rule₀, post, hrules, -, -, rfl⟩ := setRuleStatus_eq_some_iff.mp h
    have hvalid := hc.valid p fw hfw
    rw [hrules, List.forall_mem_append, List.forall_mem_cons] at hvalid
    rcases List.mem_append.mp hrule with hpre | hpost
    · exact hvalid.1 rule hpre
    rcases List.mem_cons.mp hpost with rfl | hpost
    · exact HeldRule.valid_setRuleStatus.mpr hvalid.2.1
    · exact hvalid.2.2 rule hpost
  | loaded _ p fw s hcurrent hfw h =>
    -- a load starts with an empty firewall, whether it was stopped by an error or not
    have hloads : Loads ⟨c.network, [], {}⟩ s := by
      rcases h with rfl | ⟨interrupted, contents, rfl⟩
      · exact refl _
      · exact keeps_load config c.ostore options interrupted contents _
    obtain ⟨hs, hext, hrules⟩ := hloads hc.sound
    have hstart : Loading.Numbered 1 ⟨c.network, [], {}⟩ := numbered_nil
    have hnumbered : s.Numbered 0 := by
      rcases h with rfl | ⟨interrupted, contents, rfl⟩
      · exact hstart.mono (by decide)
      · exact (FirewallFactory.triple_load config c.ostore options interrupted contents _
          hstart).state (fun _ _ hs => hs) fun _ hs => hs
    have hgood : Good { c with network := s.network } := hc.grow hs hext.registries
    refine ⟨hgood.write hfw (fun rule hrule => ?_) ?_, hext.registries⟩
    · obtain ⟨rule, hmem, rfl⟩ := List.mem_map.mp hrule
      exact (hrules rule hmem).resolve_left List.not_mem_nil
    · rw [List.map_map]
      exact hnumbered

/-- A firewall that is not selected stays, or is deleted with its name. -/
theorem Good.other_effect {outcome : Except CliError PUnit} (hc : c.Good)
    (h : Effect config options c outcome c') (hfw : c.at? p = some fw)
    (hne : c.currentFirewall ≠ some p) :
    c'.at? p = some fw ∨ c'.at? p = none ∧ c'.firewalls fw.name = none := by
  have hadd (fw' : HeldFirewall) (hname : c.firewalls fw'.name = none) :
      (c.add fw').at? p = some fw := by
    rw [at?_add fw' hname, if_neg (lt_length hfw).ne, hfw]
  have hwrite {q : ℕ} (hcurrent : c.currentFirewall = some q) (fw' : Option HeldFirewall) :
      (c.write q fw').at? p = some fw := by
    refine (at?_write_of_ne (fun hq => hne ?_) fw').trans hfw
    rw [hcurrent, hq]
  cases h with
  | unchanged => exact Or.inl hfw
  | store => exact Or.inl hfw
  | modelOptions => exact Or.inl hfw
  | created name h => exact Or.inl (hadd ⟨name, []⟩ h)
  | deleted name q h hcurrent =>
    rw [CliContext.del, h]
    by_cases hq : q = p
    · subst hq
      obtain ⟨fw', hfw', hname⟩ := hc.owned name q h
      have heq : fw' = fw := Option.some.inj (hfw'.symm.trans hfw)
      subst heq
      refine Or.inr ⟨at?_write_self hfw none, ?_⟩
      rw [hname]
      exact Function.update_self ..
    · -- another firewall is deleted
      exact Or.inl ((at?_write_of_ne hq none).trans hfw)
  | selected => exact Or.inl hfw
  | copied name q fw' h hcurrent hfw' => exact Or.inl (hadd (fw'.copy c.network name) h)
  | status _ _ q fw' rules hcurrent => exact Or.inl (hwrite hcurrent _)
  | loaded _ q fw' s hcurrent => exact Or.inl (hwrite hcurrent _)

/-- Only the rules of the selected firewall change.  Its name and its place stay, as it cannot be
deleted while it is selected. -/
theorem Good.selected_effect {outcome : Except CliError PUnit} (hc : c.Good)
    (h : Effect config options c outcome c') (hfw : c.at? p = some fw)
    (heq : c.currentFirewall = some p) :
    ∃ rules, c'.at? p = some { fw with rules := rules } := by
  have hadd (fw' : HeldFirewall) (hname : c.firewalls fw'.name = none) :
      (c.add fw').at? p = some fw := by
    rw [at?_add fw' hname, if_neg (lt_length hfw).ne, hfw]
  have hsame {q : ℕ} {fw' : HeldFirewall} (hcurrent : c.currentFirewall = some q)
      (hfw' : c.at? q = some fw') : q = p ∧ fw' = fw := by
    obtain rfl : q = p := Option.some.inj (hcurrent.symm.trans heq)
    exact ⟨rfl, Option.some.inj (hfw'.symm.trans hfw)⟩
  cases h with
  | unchanged => exact ⟨fw.rules, hfw⟩
  | store => exact ⟨fw.rules, hfw⟩
  | modelOptions => exact ⟨fw.rules, hfw⟩
  | created name h => exact ⟨fw.rules, hadd ⟨name, []⟩ h⟩
  | deleted name q h hcurrent =>
    obtain ⟨fw', hfw', hname⟩ := hcurrent p heq
    obtain ⟨fw'', hfw'', hname'⟩ := hc.owned name q h
    -- a firewall that is deleted is not the selected one: the names differ
    have hq : q ≠ p := by
      intro hq
      subst hq
      have heq' : fw' = fw'' := Option.some.inj (hfw'.symm.trans hfw'')
      exact hname (heq' ▸ hname')
    refine ⟨fw.rules, ?_⟩
    rw [CliContext.del, h]
    exact (at?_write_of_ne hq none).trans hfw
  | selected => exact ⟨fw.rules, hfw⟩
  | copied name q fw' h hcurrent hfw' => exact ⟨fw.rules, hadd (fw'.copy c.network name) h⟩
  | status _ _ q fw' rules hcurrent hfw' =>
    obtain ⟨rfl, rfl⟩ := hsame hcurrent hfw'
    exact ⟨rules, at?_write_self hfw _⟩
  | loaded _ q fw' s hcurrent hfw' =>
    obtain ⟨rfl, rfl⟩ := hsame hcurrent hfw'
    exact ⟨_, at?_write_self hfw _⟩

/-- A new firewall has no rules, or copies of the rules of the selected one.  A write needs a
firewall that is there, so it does not make one. -/
theorem Good.new_effect {outcome : Except CliError PUnit} (hc : c.Good)
    (h : Effect config options c outcome c') (hnone : c.at? p = none)
    (hfw' : c'.at? p = some fw') : fw'.rules = [] ∨
      ∃ fw, c.current = some fw ∧ fw'.rules = fw.rules.map (HeldRule.copy c.network) := by
  -- a write changes no place that is empty
  have hold {q : ℕ} {fw'' : HeldFirewall} (hcell : c.at? q = some fw'')
      (new : Option HeldFirewall) : (c.write q new).at? p = none := by
    refine (at?_write_of_ne (fun hq => ?_) new).trans hnone
    rw [← hq, hcell] at hnone
    cases hnone
  have hcontra (hgone : c'.at? p = none) : False := by
    rw [hgone] at hfw'
    cases hfw'
  cases h with
  | unchanged => exact (hcontra hnone).elim
  | store => exact (hcontra hnone).elim
  | modelOptions => exact (hcontra hnone).elim
  | created name h =>
    have hat : (c.add ⟨name, []⟩).at? p = some fw' := hfw'
    rw [at?_add ⟨name, []⟩ h, hnone] at hat
    split at hat
    · cases hat
      exact Or.inl rfl
    · cases hat
  | deleted name q h =>
    obtain ⟨fw, hfw, -⟩ := hc.owned name q h
    refine (hcontra ?_).elim
    rw [CliContext.del, h]
    exact hold hfw none
  | selected => exact (hcontra hnone).elim
  | copied name q fw h hcurrent hfw =>
    rw [at?_add (fw.copy c.network name) h, hnone] at hfw'
    split at hfw'
    · cases hfw'
      refine Or.inr ⟨fw, ?_, rfl⟩
      rw [current, hcurrent]
      exact hfw
    · cases hfw'
  | status _ _ q fw rules hcurrent hfw => exact (hcontra (hold hfw _)).elim
  | loaded _ q fw s hcurrent hfw => exact (hcontra (hold hfw _)).elim

end Good

end CliContext

end Cli

end RulesAnalyzer
