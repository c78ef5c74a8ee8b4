import RulesAnalyzer.Masking

/-!
# Rules for everything

Two checks look for rules that are too broad: allow rules for any service and given destinations,
and rules that deny everything.  A rule that denies everything ends the list, so what the check for
anomalies says about the list after it is determined.

## Main definitions

* `checkAny`, `checkDeny` — the two checks.

## Main results

* `mem_checkAny`, `mem_checkDeny` — the rules that are found.
* `checkDeny_exact` — **what a rule that denies everything means**: no packet is left undecided, the
  rules after it decide nothing, and the check for anomalies says both.
-/

namespace RulesAnalyzer.Analyzer

open Diagram Mnode RuleList

/-- `Analyzer::check_any`: the rules that allow any service for the addresses. -/
def checkAny (acl : RuleList) (anyAddresses : DstAddressGroup) : RuleList :=
  acl.filter fun rule =>
    let predicate := rule.predicate
    rule.action == .allow &&
      isSubset anyAddresses (negateIf predicate.dstAddresses predicate.negateDstAddresses) &&
      isAny predicate.services

/-- `Analyzer::check_deny`: the rules that deny everything. -/
def checkDeny (acl : RuleList) (ipModel : IPAddressModel) : RuleList :=
  acl.filter fun rule => rule.action == .deny && equal rule.predicate (Predicate.any ipModel)

variable {acl : RuleList} {rule : Rule} {ipModel : IPAddressModel}

/-- The rules that are found allow their packets to all of the addresses, whatever the service. -/
theorem mem_checkAny {anyAddresses : DstAddressGroup} : rule ∈ checkAny acl anyAddresses ↔
    rule ∈ acl ∧ rule.action = .allow ∧
      (∀ pk ∈ packets anyAddresses,
        pk ∈ packets rule.predicate.dstAddresses ↔ rule.predicate.negateDstAddresses = false) ∧
      packets rule.predicate.services = Set.univ := by
  rw [checkAny, List.mem_filter]
  simp only [Bool.and_eq_true, beq_iff_eq, and_assoc, isAny_iff, isSubset_iff, Set.subset_def]
  simp only [mem_packets, makeBdd_bddnode, mem_negateIf]

/-- The rules that are found are those of which the rule itself knows that it denies everything. -/
theorem checkDeny_eq (acl : RuleList) (ipModel : IPAddressModel) :
    checkDeny acl ipModel = acl.filter Rule.isDenyAll := rfl

theorem mem_checkDeny : rule ∈ checkDeny acl ipModel ↔
    rule ∈ acl ∧ rule.action = .deny ∧ packets rule.predicate = Set.univ := by
  rw [checkDeny_eq, List.mem_filter, Rule.isDenyAll, Bool.and_eq_true, beq_iff_eq, isAny_iff]

theorem covers_of_univ (huniv : packets rule.predicate = Set.univ) (pk : Packet) :
    covers rule pk = true := by
  rw [covers_iff, huniv]
  exact Set.mem_univ pk

/-- After a rule for everything, no packet is left. -/
theorem not_fresh_of_univ (huniv : packets rule.predicate = Set.univ) (pre post : RuleList)
    (other : Rule) : ¬Fresh (pre ++ rule :: post) other := by
  intro hfresh
  obtain ⟨pk, -, hnone⟩ := hfresh
  rw [decision, FirstMatch.decision_of_covers_all (covers_of_univ huniv)] at hnone
  cases hnone

/-- **What a rule that denies everything means.**  Every packet is decided by the rules before it,
or denied, and no deny-all rule is reported as missing.  Each rule after it that has a packet is
reported as fully masked, unless it denies everything itself and is the last one. -/
theorem checkDeny_exact (acl : RuleList) (ipModel : IPAddressModel) (hids : DistinctIds acl) :
    ∃ result, checkAnomaly acl ipModel never = .ok result ∧
      ∀ rule ∈ checkDeny acl ipModel, result.missingDenyAll = false ∧
        ∀ pre post, acl = pre ++ rule :: post →
          (∀ pk, decision acl pk = some ((decision pre pk).getD .deny)) ∧
          ∀ other ∈ post, (packets other.predicate).Nonempty →
            reportedFullyMasked result other = true ∨
              other.isDenyAll = true ∧ acl.isLast other = true := by
  obtain ⟨result, hresult, hanomalies, hmissing⟩ := checkAnomaly_eq acl ipModel
  refine ⟨result, hresult, fun rule hrule => ?_⟩
  obtain ⟨hmem, haction, huniv⟩ := mem_checkDeny.mp hrule
  -- all three parts follow from that the rule matches every packet
  have hcovers := covers_of_univ huniv
  refine ⟨?_, fun pre post hsplit => ⟨fun pk => ?_, fun other hother hne => ?_⟩⟩
  · rw [← Bool.not_eq_true, hmissing]
    intro hleft
    obtain ⟨pk, hpk⟩ := hleft
    exact mem_undecided.mp hpk rule hmem (covers_iff.mp (hcovers pk))
  · rw [hsplit, ← haction]
    exact FirstMatch.decision_of_covers_all hcovers
  · obtain ⟨mid, rest, rfl⟩ := List.append_of_mem hother
    -- the last rule is not looked at when it denies everything
    rcases hlast : other.isDenyAll && acl.isLast other
    · left
      have hfresh := not_fresh_of_univ huniv pre mid other
      obtain ⟨details, hfull, houtcome⟩ := exists_outcome_of_not_fresh hne hfresh
      have hreported : Reported acl ipModel acl ⟨other, details⟩ :=
        ⟨pre ++ rule :: mid, rest, by rw [hsplit, List.append_assoc]; rfl, hlast,
          verdict_eq_iff.mpr houtcome⟩
      rw [reportedFullyMasked, List.any_eq_true]
      refine ⟨⟨other, details⟩, (hanomalies hids _).mpr hreported, ?_⟩
      rw [hfull, Bool.and_true, decide_eq_true_iff]
    · right
      exact Bool.and_eq_true_iff.mp hlast

theorem checkDeny_exact_first :
    ∃ result, checkAnomaly [⟨1, "", .enabled, .deny, .any .ip4Model⟩, Rule.ofSrcZones 2 .allow [3]]
        .ip4Model never = .ok result ∧
      ∀ rule ∈ checkDeny [⟨1, "", .enabled, .deny, .any .ip4Model⟩, Rule.ofSrcZones 2 .allow [3]]
        .ip4Model, result.missingDenyAll = false ∧
        ∀ pre post, [⟨1, "", .enabled, .deny, .any .ip4Model⟩, Rule.ofSrcZones 2 .allow [3]] =
            pre ++ rule :: post →
          (∀ pk, decision [⟨1, "", .enabled, .deny, .any .ip4Model⟩, Rule.ofSrcZones 2 .allow [3]]
            pk = some ((decision pre pk).getD .deny)) ∧
          ∀ other ∈ post, (packets other.predicate).Nonempty →
            reportedFullyMasked result other = true ∨ other.isDenyAll = true ∧
              RuleList.isLast [⟨1, "", .enabled, .deny, .any .ip4Model⟩,
                Rule.ofSrcZones 2 .allow [3]] other = true :=
  checkDeny_exact _ .ip4Model (by decide +kernel)

end RulesAnalyzer.Analyzer
