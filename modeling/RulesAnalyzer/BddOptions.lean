import RulesAnalyzer.Rule

/-!
# Reduced diagrams of predicates

A test may leave zones, applications, users or urls open.  The diagram of a
predicate is then built from the remaining criteria; addresses and services are
always among them.

## Main definitions

* `BddOption`, `BddOptions` — the criteria that can be left out.
* `Predicate.makeBddOptions` — the diagram of the selected criteria.

## Main results

* `Predicate.mem_makeBddOptions` — the packets of the reduced diagram.
-/

namespace RulesAnalyzer

open Diagram Mnode

/-- A criterion that only counts when it is selected. -/
inductive BddOption
  | sourceZone
  | destinationZone
  | application
  | user
  | url
  deriving DecidableEq, Repr

/-- The selected criteria. -/
abbrev BddOptions := Finset BddOption

namespace Predicate

/-- The diagram of the selected criteria: `make_bdd` with options. -/
def makeBddOptions (p : Predicate) (options : BddOptions) : ModelBdd :=
  let outputBdd := bddAnd (Mnode.negateIf p.srcAddresses p.negateSrcAddresses)
    (Mnode.negateIf p.dstAddresses p.negateDstAddresses)
  let outputBdd := if .sourceZone ∈ options then
    bddAnd outputBdd p.srcZones.makeBdd else outputBdd
  let outputBdd := if .destinationZone ∈ options then
    bddAnd outputBdd p.dstZones.makeBdd else outputBdd
  let outputBdd := if .application ∈ options then
    bddAnd outputBdd (bddAnd
      (if p.services.isAppServices then bddTrue else p.services.makeBdd) p.applications.makeBdd)
  else
    bddAnd outputBdd (if p.services.isAppServices then (defaultServices p.applications).makeBdd
      else p.services.makeBdd)
  let outputBdd := if .user ∈ options then
    bddAnd outputBdd p.users.makeBdd else outputBdd
  if .url ∈ options then bddAnd outputBdd p.urls.makeBdd else outputBdd

theorem mem_ite_bddAnd {c : Prop} [Decidable c] {a b : ModelBdd} {pk : Packet} :
    pk ∈ (if c then bddAnd a b else a) ↔ pk ∈ a ∧ (c → pk ∈ b) := by
  by_cases h : c <;> simp [h]

/-- The default services of an application group are the services of the predicate. -/
theorem services_of_default {p : Predicate} (h : p.services.isAppServices = true) :
    (defaultServices p.applications).makeBdd = p.services.makeBdd := by
  obtain ⟨hservices, -⟩ := p.criteria.appDefault h
  exact congrArg ServiceGroup.makeBdd hservices.symm

/-- **The packets of the reduced diagram**: addresses and services always count.  Default
services count through the applications as soon as these are selected. -/
theorem mem_makeBddOptions {p : Predicate} {options : BddOptions} {pk : Packet} :
    pk ∈ p.makeBddOptions options ↔
      (pk ∈ p.srcAddresses.makeBdd ↔ p.negateSrcAddresses = false) ∧
      (pk ∈ p.dstAddresses.makeBdd ↔ p.negateDstAddresses = false) ∧
      (.sourceZone ∈ options → pk ∈ p.srcZones.makeBdd) ∧
      (.destinationZone ∈ options → pk ∈ p.dstZones.makeBdd) ∧
      ((.application ∈ options → p.services.isAppServices = false) → pk ∈ p.services.makeBdd) ∧
      (.application ∈ options → pk ∈ p.applications.makeBdd) ∧
      (.user ∈ options → pk ∈ p.users.makeBdd) ∧ (.url ∈ options → pk ∈ p.urls.makeBdd) := by
  have hsrc : pk ∈ Mnode.negateIf p.srcAddresses p.negateSrcAddresses ↔
      (pk ∈ p.srcAddresses.makeBdd ↔ p.negateSrcAddresses = false) := Mnode.mem_negateIf
  have hdst : pk ∈ Mnode.negateIf p.dstAddresses p.negateDstAddresses ↔
      (pk ∈ p.dstAddresses.makeBdd ↔ p.negateDstAddresses = false) := Mnode.mem_negateIf
  have happ : ∀ a : ModelBdd, pk ∈ (if BddOption.application ∈ options then
        bddAnd a (bddAnd (if p.services.isAppServices then bddTrue else p.services.makeBdd)
          p.applications.makeBdd)
      else bddAnd a (if p.services.isAppServices then (defaultServices p.applications).makeBdd
        else p.services.makeBdd)) ↔ pk ∈ a ∧
      ((.application ∈ options → p.services.isAppServices = false) → pk ∈ p.services.makeBdd) ∧
      (.application ∈ options → pk ∈ p.applications.makeBdd) := by
    intro a
    by_cases hsel : BddOption.application ∈ options
    · cases hkind : p.services.isAppServices <;> simp [hsel]
    · cases hkind : p.services.isAppServices with
      | false => simp [hsel]
      | true => simp [hsel, services_of_default hkind]
  simp only [makeBddOptions, mem_ite_bddAnd, happ, mem_bddAnd, hsrc, hdst, and_assoc]

end Predicate

/-- The rule matches the packet, as far as the selected criteria go. -/
def RuleList.coversOptions (options : BddOptions) (rule : Rule) (pk : Packet) : Bool :=
  decide (pk ∈ rule.predicate.makeBddOptions options)

/-- The action of the first rule whose selected criteria match a packet. -/
abbrev RuleList.decisionOptions (options : BddOptions) (acl : RuleList) (pk : Packet) :
    Option RuleAction :=
  FirstMatch.decision (RuleList.coversOptions options) Rule.action acl pk

end RulesAnalyzer
