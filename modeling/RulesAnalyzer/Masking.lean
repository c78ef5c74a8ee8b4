import RulesAnalyzer.Verdict

/-!
# Fully masked rules

A rule is fully masked when the rules before it match all of its packets.  The
analysis tells three kinds apart, by the actions that decide these packets, and
rules of all three kinds are dead.

## Main results

* `classification_exact` — **the three kinds of fully masked rules are told apart exactly.**
* `scope_right_iff` — the scope of an anomaly is right unless a fully masked rule is decided
  with both actions: the constructor of that class says *partially masked*.
* `remove_fullyMasked` — **all fully masked rules can be removed together.**
* `report_justified` — **the rules a report lists are a reason for it.**
-/

namespace RulesAnalyzer

open Diagram Mnode RuleList

/-- The anomaly is one of those of a fully masked rule. -/
def RuleAnomalyDetails.ofFullyMasked : RuleAnomalyDetails → Bool
  | shadowed _ => true
  | fullRedundant _ => true
  | redundantOrCorrelated _ _ => true
  | _ => false

namespace Analyzer

variable {pre post : RuleList} {rule : Rule} {ipModel : IPAddressModel}
  {details : RuleAnomalyDetails}

theorem matched_iff {pk : Packet} :
    (∃ r ∈ pre, pk ∈ packets r.predicate) ↔ decision pre pk ≠ none := by
  rw [ne_eq, decision_eq_none_iff, mem_undecided]
  simp only [not_forall, exists_prop, not_not]

theorem exists_matched_iff : (∃ pk ∈ packets rule.predicate, ∃ r ∈ pre, pk ∈ packets r.predicate) ↔
    Hits pre rule rule.action ∨ Hits pre rule rule.action.not := by
  have hsub := @subset_undecided_iff pre rule
  rw [← not_iff_not, not_or, ← hsub, Set.subset_def]
  simp only [mem_undecided, not_exists, not_and]

theorem forall_matched_iff :
    (∀ pk ∈ packets rule.predicate, ∃ r ∈ pre, pk ∈ packets r.predicate) ↔ ¬Fresh pre rule := by
  simp only [matched_iff, Fresh, not_exists, not_and, ne_eq]

theorem exists_unmatched_iff :
    (∃ pk ∈ packets rule.predicate, ∀ r ∈ pre, pk ∉ packets r.predicate) ↔ Fresh pre rule := by
  simp only [Fresh, decision_eq_none_iff, mem_undecided]

/-- An anomaly of a fully masked rule is reported where no packet is left to decide, and only
there. -/
theorem ofFullyMasked_iff (h : Outcome pre rule (some details)) :
    details.ofFullyMasked = true ↔ ¬Fresh pre rule := by
  cases h with
  | shadowed hfresh => exact iff_of_true rfl hfresh
  | fullRedundant hfresh => exact iff_of_true rfl hfresh
  | redundantOrCorrelated hfresh => exact iff_of_true rfl hfresh
  | generalization hfresh => exact iff_of_false nofun (not_not_intro hfresh)
  | partialRedundant hfresh => exact iff_of_false nofun (not_not_intro hfresh)
  | correlated hfresh => exact iff_of_false nofun (not_not_intro hfresh)

/-- A nonempty rule whose packets are all decided is reported. -/
theorem exists_outcome_of_not_fresh (hne : (packets rule.predicate).Nonempty)
    (hfresh : ¬Fresh pre rule) :
    ∃ details, details.ofFullyMasked = true ∧ Outcome pre rule (some details) := by
  have hhits := ((nonempty_iff pre).mp hne).resolve_left hfresh
  by_cases hsame : Hits pre rule rule.action
  · by_cases hother : Hits pre rule rule.action.not
    · exact ⟨_, rfl, .redundantOrCorrelated hfresh hsame hother⟩
    · exact ⟨_, rfl, .fullRedundant hfresh hsame hother⟩
  · exact ⟨_, rfl, .shadowed hfresh hsame (hhits.resolve_left hsame)⟩

/-- A rule is shadowed when all of its packets are decided with the other action. -/
theorem exists_shadowed_iff (hne : (packets rule.predicate).Nonempty) :
    (∃ rules, Outcome pre rule (some (.shadowed rules))) ↔
      ∀ pk ∈ packets rule.predicate, decision pre pk = some rule.action.not := by
  rw [forall_decision_iff, RuleAction.not_not]
  constructor
  · rintro ⟨rules, h⟩
    cases h with
    | shadowed hf hs ho => exact ⟨hf, hs⟩
  · rintro ⟨hf, hs⟩
    have ho := (((nonempty_iff pre).mp hne).resolve_left hf).resolve_left hs
    exact ⟨_, .shadowed hf hs ho⟩

/-- A rule is redundant when all of its packets are decided with its own action. -/
theorem exists_fullRedundant_iff (hne : (packets rule.predicate).Nonempty) :
    (∃ rules, Outcome pre rule (some (.fullRedundant rules))) ↔
      ∀ pk ∈ packets rule.predicate, decision pre pk = some rule.action := by
  rw [forall_decision_iff]
  constructor
  · rintro ⟨rules, h⟩
    cases h with
    | fullRedundant hf hs ho => exact ⟨hf, ho⟩
  · rintro ⟨hf, ho⟩
    have hs := (((nonempty_iff pre).mp hne).resolve_left hf).resolve_right ho
    exact ⟨_, .fullRedundant hf hs ho⟩

/-- The third kind of rule has packets of both kinds. -/
theorem exists_redundantOrCorrelated_iff :
    (∃ rules rules', Outcome pre rule (some (.redundantOrCorrelated rules rules'))) ↔
      (∀ pk ∈ packets rule.predicate, decision pre pk ≠ none) ∧
        (∃ pk ∈ packets rule.predicate, decision pre pk = some rule.action) ∧
        ∃ pk ∈ packets rule.predicate, decision pre pk = some rule.action.not := by
  have hmasked : (∀ pk ∈ packets rule.predicate, decision pre pk ≠ none) ↔ ¬Fresh pre rule := by
    simp only [Fresh, not_exists, not_and, ne_eq]
  rw [hmasked]
  constructor
  · rintro ⟨rules, rules', h⟩
    cases h with
    | redundantOrCorrelated hf hs ho => exact ⟨hf, hs, ho⟩
  · rintro ⟨hf, hs, ho⟩
    exact ⟨_, _, .redundantOrCorrelated hf hs ho⟩

/-- A rule is of none of the kinds when a packet of it reaches it. -/
theorem not_exists_ofFullyMasked_iff (hne : (packets rule.predicate).Nonempty) :
    (¬∃ details, details.ofFullyMasked = true ∧ Outcome pre rule (some details)) ↔
      ∃ pk ∈ packets rule.predicate, ∀ r ∈ pre, pk ∉ packets r.predicate := by
  rw [exists_unmatched_iff]
  constructor
  · intro hnone
    by_contra hf
    exact hnone (exists_outcome_of_not_fresh hne hf)
  · rintro hf ⟨details, hd, h⟩
    exact (ofFullyMasked_iff h).mp hd hf

/-- **The classification of fully masked rules is exact.** -/
theorem classification_exact (ipModel : IPAddressModel) (pre post : RuleList) (rule : Rule)
    (hids : DistinctIds (pre ++ rule :: post)) (hne : (packets rule.predicate).Nonempty)
    (hlast : ¬(rule.isDenyAll = true ∧ post = [])) :
    ((∃ rules, Reports (pre ++ rule :: post) ipModel rule (.shadowed rules)) ↔
      ∀ pk ∈ packets rule.predicate, decision pre pk = some rule.action.not) ∧
    ((∃ rules, Reports (pre ++ rule :: post) ipModel rule (.fullRedundant rules)) ↔
      ∀ pk ∈ packets rule.predicate, decision pre pk = some rule.action) ∧
    ((∃ rules rules',
        Reports (pre ++ rule :: post) ipModel rule (.redundantOrCorrelated rules rules')) ↔
      (∀ pk ∈ packets rule.predicate, decision pre pk ≠ none) ∧
        (∃ pk ∈ packets rule.predicate, decision pre pk = some rule.action) ∧
        ∃ pk ∈ packets rule.predicate, decision pre pk = some rule.action.not) ∧
    ((¬∃ details, details.ofFullyMasked = true ∧
        Reports (pre ++ rule :: post) ipModel rule details) ↔
      ∃ pk ∈ packets rule.predicate, ∀ r ∈ pre, pk ∉ packets r.predicate) := by
  simp only [reports_iff_outcome hids hlast]
  exact ⟨exists_shadowed_iff hne, exists_fullRedundant_iff hne, exists_redundantOrCorrelated_iff,
    not_exists_ofFullyMasked_iff hne⟩

theorem classification_exact_witness :
    (∃ rules, Reports [Rule.ofSrcZones 1 .deny [1, 2], Rule.ofSrcZones 2 .allow [2]] .ip4Model
      (Rule.ofSrcZones 2 .allow [2]) (.shadowed rules)) ↔
    ∀ pk ∈ packets (Rule.ofSrcZones 2 .allow [2]).predicate,
      decision [Rule.ofSrcZones 1 .deny [1, 2]] pk = some .deny := by
  have hne : (packets (Rule.ofSrcZones 2 .allow [2]).predicate).Nonempty :=
    ⟨Packet.ofValues fun _ => 2, mem_packets.mpr (by decide +kernel)⟩
  exact (classification_exact .ip4Model [Rule.ofSrcZones 1 .deny [1, 2]] []
    (Rule.ofSrcZones 2 .allow [2]) (by decide +kernel) hne (by decide +kernel)).1

/-! ### The scope -/

/-- The scope of the anomaly says how much of the rule is masked. -/
def ScopeRight (pre : RuleList) (rule : Rule) (details : RuleAnomalyDetails) : Prop :=
  (details.anomalyScope = .fullyMaskedRule ↔
    ∀ pk ∈ packets rule.predicate, ∃ r ∈ pre, pk ∈ packets r.predicate) ∧
  (details.anomalyScope = .partiallyMaskedRule ↔
    (∃ pk ∈ packets rule.predicate, ∃ r ∈ pre, pk ∈ packets r.predicate) ∧
      ∃ pk ∈ packets rule.predicate, ∀ r ∈ pre, pk ∉ packets r.predicate)

/-- **The scope of an anomaly is right, unless all packets of the rule are matched by the
rules before, and both actions occur among their decisions.** -/
theorem scope_right_iff (ipModel : IPAddressModel) (pre post : RuleList) (rule : Rule)
    (details : RuleAnomalyDetails) (hids : DistinctIds (pre ++ rule :: post))
    (hreports : Reports (pre ++ rule :: post) ipModel rule details) :
    ScopeRight pre rule details ↔
      ¬((∀ pk ∈ packets rule.predicate, ∃ r ∈ pre, pk ∈ packets r.predicate) ∧
        (∃ pk ∈ packets rule.predicate, decision pre pk = some .allow) ∧
        ∃ pk ∈ packets rule.predicate, decision pre pk = some .deny) := by
  have houtcome := outcome_of_reports hids hreports
  have hboth : ((∃ pk ∈ packets rule.predicate, decision pre pk = some .allow) ∧
      ∃ pk ∈ packets rule.predicate, decision pre pk = some .deny) ↔
      Hits pre rule rule.action ∧ Hits pre rule rule.action.not := by
    cases rule.action with
    | allow => exact Iff.rfl
    | deny => exact and_comm
  -- whichever action the rule has, both occur
  rw [hboth, ScopeRight, forall_matched_iff, exists_matched_iff, exists_unmatched_iff]
  cases houtcome with
  | shadowed hf hs ho => simp [RuleAnomalyDetails.anomalyScope, hf, hs]
  | fullRedundant hf hs ho => simp [RuleAnomalyDetails.anomalyScope, hf, ho]
  | redundantOrCorrelated hf hs ho => simp [RuleAnomalyDetails.anomalyScope, hf, hs, ho]
  | generalization hf hhits hc => simp [RuleAnomalyDetails.anomalyScope, hf, hhits]
  | partialRedundant hf hs hn hc => simp [RuleAnomalyDetails.anomalyScope, hf, hs]
  | correlated hf ho hn hr => simp [RuleAnomalyDetails.anomalyScope, hf, ho]

theorem scope_right_iff_witness :
    ScopeRight [Rule.ofSrcZones 1 .deny [1, 2]] (Rule.ofSrcZones 2 .allow [2])
      (.shadowed [Rule.ofSrcZones 1 .deny [1, 2]]) ↔
    ¬((∀ pk ∈ packets (Rule.ofSrcZones 2 .allow [2]).predicate,
        ∃ r ∈ [Rule.ofSrcZones 1 .deny [1, 2]], pk ∈ packets r.predicate) ∧
      (∃ pk ∈ packets (Rule.ofSrcZones 2 .allow [2]).predicate,
        decision [Rule.ofSrcZones 1 .deny [1, 2]] pk = some .allow) ∧
      ∃ pk ∈ packets (Rule.ofSrcZones 2 .allow [2]).predicate,
        decision [Rule.ofSrcZones 1 .deny [1, 2]] pk = some .deny) := by
  have hids : DistinctIds [Rule.ofSrcZones 1 .deny [1, 2], Rule.ofSrcZones 2 .allow [2]] := by
    decide +kernel
  exact scope_right_iff .ip4Model [Rule.ofSrcZones 1 .deny [1, 2]] []
    (Rule.ofSrcZones 2 .allow [2]) _ hids
    ((@reports_iff [Rule.ofSrcZones 1 .deny [1, 2]] [] _ _ _ hids).mpr (by decide +kernel))

/-- The last of these rules is masked by the first two together, which do not agree. -/
theorem scope_wrong : ∃ details,
    Reports [Rule.ofSrcZones 1 .allow [1], Rule.ofSrcZones 2 .deny [2],
      Rule.ofSrcZones 3 .allow [1, 2]] .ip4Model (Rule.ofSrcZones 3 .allow [1, 2]) details ∧
    ¬ScopeRight [Rule.ofSrcZones 1 .allow [1], Rule.ofSrcZones 2 .deny [2]]
      (Rule.ofSrcZones 3 .allow [1, 2]) details := by
  have hids : DistinctIds ([Rule.ofSrcZones 1 .allow [1], Rule.ofSrcZones 2 .deny [2]] ++
      [Rule.ofSrcZones 3 .allow [1, 2]]) := by decide +kernel
  have hverdict : verdict .ip4Model [Rule.ofSrcZones 1 .allow [1], Rule.ofSrcZones 2 .deny [2]]
      (Rule.ofSrcZones 3 .allow [1, 2]) =
      some (.redundantOrCorrelated [Rule.ofSrcZones 1 .allow [1]]
        [Rule.ofSrcZones 2 .deny [2]]) := by
    decide +kernel
  refine ⟨_, (reports_iff hids).mpr ⟨by decide +kernel, hverdict⟩, ?_⟩
  rintro ⟨hfull, -⟩
  have hfresh : ¬Fresh [Rule.ofSrcZones 1 .allow [1], Rule.ofSrcZones 2 .deny [2]]
      (Rule.ofSrcZones 3 .allow [1, 2]) :=
    (ofFullyMasked_iff (verdict_eq_iff.mp hverdict)).mp rfl
  exact absurd (hfull.mpr (forall_matched_iff.mpr hfresh)) (by decide)

/-! ### Removing the fully masked rules -/

/-- The analysis reports the rule as shadowed, redundant, or redundant or correlated. -/
def reportedFullyMasked (result : RuleAnomalies) (rule : Rule) : Bool :=
  result.anomalies.any fun anomaly =>
    anomaly.rule = rule && anomaly.details.ofFullyMasked

/-- **All fully masked rules can be removed together**: every packet keeps its first matching
rule, or keeps having none. -/
theorem remove_fullyMasked (acl : RuleList) (ipModel : IPAddressModel) (hids : DistinctIds acl) :
    ∃ result, checkAnomaly acl ipModel never = .ok result ∧
      ∀ pk, firstMatch (acl.filter fun rule => !reportedFullyMasked result rule) pk =
        firstMatch acl pk := by
  obtain ⟨result, hresult, hanomalies, -⟩ := checkAnomaly_eq acl ipModel
  refine ⟨result, hresult, fun pk => FirstMatch.firstMatch_filter fun rule hfirst => ?_⟩
  obtain ⟨hcovers, pre, post, hsplit, hundecided⟩ := FirstMatch.firstMatch_eq_some_iff.mp hfirst
  subst hsplit
  rw [Bool.not_eq_true', ← Bool.not_eq_true, reportedFullyMasked, List.any_eq_true]
  rintro ⟨anomaly, hmem, htest⟩
  rw [Bool.and_eq_true, decide_eq_true_iff] at htest
  obtain ⟨hrule, hkind⟩ := htest
  obtain ⟨before, after, hsplit', -, hverdict⟩ := (hanomalies hids anomaly).mp hmem
  rw [hrule] at hsplit' hverdict
  obtain ⟨rfl, -⟩ := hids.split_unique hsplit'
  -- the packet is fresh for the rule, so the rule is not fully masked
  have hfresh : Fresh pre rule :=
    ⟨pk, covers_iff.mp hcovers, decision_eq_none_iff.mpr hundecided⟩
  exact (ofFullyMasked_iff (verdict_eq_iff.mp hverdict)).mp hkind hfresh

theorem remove_fullyMasked_witness :
    ∃ result, checkAnomaly [Rule.ofSrcZones 1 .deny [1, 2], Rule.ofSrcZones 2 .allow [2]] .ip4Model
        never = .ok result ∧
      ∀ pk, firstMatch ([Rule.ofSrcZones 1 .deny [1, 2], Rule.ofSrcZones 2 .allow [2]].filter
          fun rule => !reportedFullyMasked result rule) pk =
        firstMatch [Rule.ofSrcZones 1 .deny [1, 2], Rule.ofSrcZones 2 .allow [2]] pk :=
  remove_fullyMasked _ .ip4Model (by decide +kernel)

/-! ### The rules a report lists -/

/-- The rules, of which there is one, stand before the rule, have the action, and overlap the
rule. -/
def Listed (pre : RuleList) (rule : Rule) (action : RuleAction) (rules : RuleList) : Prop :=
  rules ≠ [] ∧ ∀ other ∈ rules, other ∈ pre ∧ other.action = action ∧
    (packets rule.predicate ∩ packets other.predicate).Nonempty

/-- Every packet of the rule is a packet of one of the rules. -/
def Masks (rules : RuleList) (rule : Rule) : Prop :=
  ∀ pk ∈ packets rule.predicate, ∃ other ∈ rules, pk ∈ packets other.predicate

/-- The rules listed by the anomaly of a fully masked rule are a reason for it. -/
def Justified (pre : RuleList) (rule : Rule) : RuleAnomalyDetails → Prop
  | .shadowed shadowingRules =>
    Listed pre rule rule.action.not shadowingRules ∧ Masks shadowingRules rule
  | .fullRedundant redundantRules =>
    Listed pre rule rule.action redundantRules ∧ Masks redundantRules rule
  | .redundantOrCorrelated redundantRules correlatedRules =>
    Listed pre rule rule.action redundantRules ∧
      Listed pre rule rule.action.not correlatedRules ∧
      Masks (redundantRules ++ correlatedRules) rule
  | _ => True

/-- The overlapping rules are listed when one of them decides a packet of the rule. -/
theorem listed_overlappingRules {action : RuleAction} (h : Hits pre rule action) :
    Listed pre rule action (overlappingRules pre rule action) :=
  ⟨overlappingRules_ne_nil h, fun _ hother => mem_overlappingRules.mp hother⟩

/-- The rule that decides a packet of the rule is one of the overlapping rules. -/
theorem exists_overlapping_of_decision {action : RuleAction} {pk : Packet}
    (hpk : pk ∈ packets rule.predicate) (hd : decision pre pk = some action) :
    ∃ other ∈ overlappingRules pre rule action, pk ∈ packets other.predicate := by
  obtain ⟨other, hmem, hcovers, haction⟩ := FirstMatch.exists_of_decision hd
  have hother : pk ∈ packets other.predicate := covers_iff.mp hcovers
  exact ⟨other, mem_overlappingRules.mpr ⟨hmem, haction, pk, hpk, hother⟩, hother⟩

/-- Packets that are all decided with one action are those of the overlapping rules with this
action. -/
theorem masks_overlappingRules {action : RuleAction} (hfresh : ¬Fresh pre rule)
    (hother : ¬Hits pre rule action.not) : Masks (overlappingRules pre rule action) rule := by
  intro pk hpk
  exact exists_overlapping_of_decision hpk (forall_decision_iff.mpr ⟨hfresh, hother⟩ pk hpk)

/-- Where the packets are decided with both actions, the rules of both lists are needed. -/
theorem masks_overlappingRules_append (hfresh : ¬Fresh pre rule) :
    Masks (overlappingRules pre rule rule.action ++ overlappingRules pre rule rule.action.not)
      rule := by
  intro pk hpk
  rcases hd : decision pre pk with _ | action
  · exact absurd ⟨pk, hpk, hd⟩ hfresh
  · obtain ⟨other, hother, hpk'⟩ := exists_overlapping_of_decision hpk hd
    refine ⟨other, List.mem_append.mpr ?_, hpk'⟩
    rcases action.eq_or_eq_not rule.action with rfl | rfl
    · exact Or.inl hother
    · exact Or.inr hother

theorem justified_of_outcome (h : Outcome pre rule (some details)) :
    Justified pre rule details := by
  cases h with
  | shadowed hfresh hsame hother =>
    rw [← rule.action.not_not] at hsame
    exact ⟨listed_overlappingRules hother, masks_overlappingRules hfresh hsame⟩
  | fullRedundant hfresh hsame hother =>
    exact ⟨listed_overlappingRules hsame, masks_overlappingRules hfresh hother⟩
  | redundantOrCorrelated hfresh hsame hother =>
    exact ⟨listed_overlappingRules hsame, listed_overlappingRules hother,
      masks_overlappingRules_append hfresh⟩
  | generalization => exact trivial
  | partialRedundant => exact trivial
  | correlated => exact trivial

/-- **The rules listed in a report justify it.**  A rule that is reported has its place in the
list, and the rules its report lists stand before it, have the claimed action, overlap the
rule, and together match all its packets. -/
theorem report_justified (acl : RuleList) (ipModel : IPAddressModel) (rule : Rule)
    (details : RuleAnomalyDetails) (hids : DistinctIds acl)
    (hreports : Reports acl ipModel rule details) :
    ∃ pre post, acl = pre ++ rule :: post ∧ Justified pre rule details := by
  obtain ⟨result, hresult, hmem⟩ := hreports
  obtain ⟨result', hresult', hanomalies, -⟩ := checkAnomaly_eq acl ipModel
  obtain rfl : result' = result := Except.ok.inj (hresult'.symm.trans hresult)
  obtain ⟨pre, post, hsplit, -, hverdict⟩ := (hanomalies hids _).mp hmem
  exact ⟨pre, post, hsplit, justified_of_outcome (verdict_eq_iff.mp hverdict)⟩

theorem report_justified_witness :
    ∃ pre post, [Rule.ofSrcZones 1 .deny [1, 2], Rule.ofSrcZones 2 .allow [2]] =
        pre ++ Rule.ofSrcZones 2 .allow [2] :: post ∧
      Justified pre (Rule.ofSrcZones 2 .allow [2])
        (.shadowed [Rule.ofSrcZones 1 .deny [1, 2]]) := by
  have hids : DistinctIds [Rule.ofSrcZones 1 .deny [1, 2], Rule.ofSrcZones 2 .allow [2]] := by
    decide +kernel
  exact report_justified [Rule.ofSrcZones 1 .deny [1, 2], Rule.ofSrcZones 2 .allow [2]] .ip4Model
    (Rule.ofSrcZones 2 .allow [2]) _ hids
    ((@reports_iff [Rule.ofSrcZones 1 .deny [1, 2]] [] _ _ _ hids).mpr (by decide +kernel))

end Analyzer

end RulesAnalyzer
