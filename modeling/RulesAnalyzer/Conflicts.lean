import RulesAnalyzer.Verdict

/-!
# Partially masked rules

Of a partially masked rule the analysis reports the first of three relations it
finds: the rule generalizes earlier rules with the other action, it is redundant
with earlier rules with the same action, or it is correlated with earlier rules
with the other action.  This file says exactly when these reports do what they
promise.

## Main definitions

* `ConflictLost` — the cases in which a conflict is not named.

## Main results

* `conflict_named_iff` — when a conflict with an earlier rule is named.
* `redundant_removable_iff` — when the rules named as redundant can be deleted.
* `generalization_real_iff` — when a generalization or correlation is a real conflict.
-/

namespace RulesAnalyzer

open Diagram Mnode RuleList

namespace Analyzer

variable {pre post : RuleList} {rule : Rule} {ipModel : IPAddressModel}
  {details : RuleAnomalyDetails}

/-! ### Conflicts -/

/-- The search stops before it comes to the conflict: packets of the rule are left, it contains
no earlier rule with the other action that matches anything, but either one that matches
nothing, or an earlier rule with the same action, which also decides some of its packets. -/
def ConflictLost (pre : RuleList) (rule : Rule) : Prop :=
  (∃ pk ∈ packets rule.predicate, decision pre pk = none) ∧
  (∀ other ∈ pre, other.action = rule.action.not →
    packets other.predicate ⊆ packets rule.predicate → packets other.predicate = ∅) ∧
  ((∃ other ∈ pre, other.action = rule.action.not ∧
      packets other.predicate ⊆ packets rule.predicate) ∨
    (∃ pk ∈ packets rule.predicate, decision pre pk = some rule.action) ∧
      ∃ other ∈ pre, other.action = rule.action ∧
        packets other.predicate ⊆ packets rule.predicate)

theorem containedRules_ne_nil_iff {action : RuleAction} : containedRules pre rule action ≠ [] ↔
    ∃ other ∈ pre, other.action = action ∧ packets other.predicate ⊆ packets rule.predicate := by
  constructor
  · intro hne
    obtain ⟨other, hmem⟩ := List.exists_mem_of_ne_nil _ hne
    exact ⟨other, mem_containedRules.mp hmem⟩
  · rintro ⟨other, hother⟩
    exact List.ne_nil_of_mem (mem_containedRules.mpr hother)

/-- A rule of the list with the other action that overlaps `rule`. -/
def Conflicts (pre : RuleList) (rule other : Rule) : Prop :=
  other ∈ pre ∧ other.action = rule.action.not ∧
    (packets rule.predicate ∩ packets other.predicate).Nonempty

/-- A contained rule that matches something overlaps. -/
theorem conflicts_of_contained {other : Rule} (hmem : other ∈ pre)
    (haction : other.action = rule.action.not)
    (hsub : packets other.predicate ⊆ packets rule.predicate)
    (hne : packets other.predicate ≠ ∅) : Conflicts pre rule other := by
  obtain ⟨pk, hpk⟩ := Set.nonempty_iff_ne_empty.mpr hne
  exact ⟨hmem, haction, pk, hsub hpk, hpk⟩

/-- A conflict that is not lost is named.  The outcomes of the analysis are gone through; only
those that look at one action drop the rules of the other. -/
theorem exists_named (hother : Hits pre rule rule.action.not) (hlost : ¬ConflictLost pre rule) :
    ∃ details, Outcome pre rule (some details) ∧ ∃ other ∈ details.rules,
      Conflicts pre rule other := by
  obtain ⟨other, hover⟩ := List.exists_mem_of_ne_nil _ (overlappingRules_ne_nil hother)
  have hnamed : Conflicts pre rule other := mem_overlappingRules.mp hover
  -- the rule has a packet of its own, or it is fully masked
  by_cases hfresh : Fresh pre rule
  · by_cases hgen : containedRules pre rule rule.action.not = []
    · have hredundant :
          ¬(Hits pre rule rule.action ∧ containedRules pre rule rule.action ≠ []) := by
        rintro ⟨hsame, hcontained⟩
        refine hlost ⟨hfresh, ?_, Or.inr ⟨hsame, containedRules_ne_nil_iff.mp hcontained⟩⟩
        intro o hmem haction hsub
        exact absurd hgen (containedRules_ne_nil_iff.mpr ⟨o, hmem, haction, hsub⟩)
      exact ⟨_, .correlated hfresh hother hgen hredundant, other, hover, hnamed⟩
    · -- one of the contained rules matches something
      obtain ⟨o, hmem, haction, hsub, hne⟩ : ∃ o ∈ pre, o.action = rule.action.not ∧
          packets o.predicate ⊆ packets rule.predicate ∧ packets o.predicate ≠ ∅ := by
        by_contra hnone
        refine hlost ⟨hfresh, ?_, Or.inl (containedRules_ne_nil_iff.mp hgen)⟩
        intro o hmem haction hsub
        by_contra hne
        exact hnone ⟨o, hmem, haction, hsub, hne⟩
      exact ⟨_, .generalization hfresh (Or.inr hother) hgen, o,
        mem_containedRules.mpr ⟨hmem, haction, hsub⟩,
        conflicts_of_contained hmem haction hsub hne⟩
  · by_cases hsame : Hits pre rule rule.action
    · exact ⟨_, .redundantOrCorrelated hfresh hsame hother, other,
        List.mem_append_right _ hover, hnamed⟩
    · exact ⟨_, .shadowed hfresh hsame hother, other, hover, hnamed⟩

/-- A conflict that is lost is not named. -/
theorem not_named (hlost : ConflictLost pre rule) (houtcome : Outcome pre rule (some details)) :
    ¬∃ other ∈ details.rules, Conflicts pre rule other := by
  obtain ⟨hfresh, hempty, hstop⟩ := hlost
  rintro ⟨other, hmem, hpre, haction, hover⟩
  cases houtcome with
  | shadowed hf => exact hf hfresh
  | fullRedundant hf => exact hf hfresh
  | redundantOrCorrelated hf => exact hf hfresh
  | generalization _ _ _ =>
    -- the rules named match nothing
    obtain ⟨-, -, hsub⟩ := mem_containedRules.mp hmem
    rw [hempty other hpre haction hsub, Set.inter_empty] at hover
    exact Set.not_nonempty_empty hover
  | partialRedundant _ _ _ _ =>
    -- the rules named have the action of the rule
    obtain ⟨-, hsame, -⟩ := mem_containedRules.mp hmem
    exact rule.action.not_ne (haction.symm.trans hsame)
  | correlated _ _ hnone hredundant =>
    rcases hstop with hgen | ⟨hsame, hcontained⟩
    · exact containedRules_ne_nil_iff.mpr hgen hnone
    · exact hredundant ⟨hsame, containedRules_ne_nil_iff.mpr hcontained⟩

/-- **When a conflict is named.**  If an earlier rule with the other action decides a packet
of the rule, the report of the rule names an earlier rule with the other action that overlaps
it, unless the conflict is lost. -/
theorem conflict_named_iff (ipModel : IPAddressModel) (pre post : RuleList) (rule : Rule)
    (hids : DistinctIds (pre ++ rule :: post)) (hlast : ¬(rule.isDenyAll = true ∧ post = [])) :
    ((∃ pk ∈ packets rule.predicate, decision pre pk = some rule.action.not) →
        ∃ details, Reports (pre ++ rule :: post) ipModel rule details ∧
          ∃ other ∈ details.rules, Conflicts pre rule other) ↔
      ¬((∃ pk ∈ packets rule.predicate, decision pre pk = some rule.action.not) ∧
        ConflictLost pre rule) := by
  simp only [reports_iff_outcome hids hlast]
  constructor
  · rintro hnamed ⟨hother, hlost⟩
    obtain ⟨details, houtcome, hother⟩ := hnamed hother
    exact not_named hlost houtcome hother
  · intro hnot hother
    exact exists_named hother fun hlost => hnot ⟨hother, hlost⟩

theorem conflict_named_iff_witness :
    ((∃ pk ∈ packets (Rule.ofSrcZones 2 .allow [2]).predicate,
          decision [Rule.ofSrcZones 1 .deny [1, 2]] pk = some .deny) →
        ∃ details, Reports [Rule.ofSrcZones 1 .deny [1, 2], Rule.ofSrcZones 2 .allow [2]]
            .ip4Model (Rule.ofSrcZones 2 .allow [2]) details ∧
          ∃ other ∈ details.rules,
            Conflicts [Rule.ofSrcZones 1 .deny [1, 2]] (Rule.ofSrcZones 2 .allow [2]) other) ↔
      ¬((∃ pk ∈ packets (Rule.ofSrcZones 2 .allow [2]).predicate,
          decision [Rule.ofSrcZones 1 .deny [1, 2]] pk = some .deny) ∧
        ConflictLost [Rule.ofSrcZones 1 .deny [1, 2]] (Rule.ofSrcZones 2 .allow [2])) :=
  conflict_named_iff .ip4Model [Rule.ofSrcZones 1 .deny [1, 2]] []
    (Rule.ofSrcZones 2 .allow [2]) (by decide +kernel) (by decide +kernel)

/-- The last rule contains the second and overlaps the first, which denies packets it allows:
only the redundancy is reported. -/
theorem conflict_lost :
    (∃ pk ∈ packets (Rule.ofSrcZones 3 .allow [1, 2, 3]).predicate,
      decision [Rule.ofSrcZones 1 .deny [1, 5], Rule.ofSrcZones 2 .allow [2]] pk = some .deny) ∧
    ¬∃ details, Reports [Rule.ofSrcZones 1 .deny [1, 5], Rule.ofSrcZones 2 .allow [2],
        Rule.ofSrcZones 3 .allow [1, 2, 3]] .ip4Model (Rule.ofSrcZones 3 .allow [1, 2, 3])
        details ∧
      ∃ other ∈ details.rules,
        Conflicts [Rule.ofSrcZones 1 .deny [1, 5], Rule.ofSrcZones 2 .allow [2]]
          (Rule.ofSrcZones 3 .allow [1, 2, 3]) other := by
  have hids : DistinctIds ([Rule.ofSrcZones 1 .deny [1, 5], Rule.ofSrcZones 2 .allow [2]] ++
      [Rule.ofSrcZones 3 .allow [1, 2, 3]]) := by decide +kernel
  constructor
  · exact ⟨Packet.ofValues fun _ => 1, mem_packets.mpr (by decide +kernel), by decide +kernel⟩
  · rintro ⟨details, hreports, other, hmem, hconflict⟩
    have hverdict := ((reports_iff hids).mp hreports).2
    have heq : verdict .ip4Model [Rule.ofSrcZones 1 .deny [1, 5], Rule.ofSrcZones 2 .allow [2]]
        (Rule.ofSrcZones 3 .allow [1, 2, 3]) =
        some (.partialRedundant [Rule.ofSrcZones 2 .allow [2]]) := by decide +kernel
    obtain rfl : RuleAnomalyDetails.partialRedundant [Rule.ofSrcZones 2 .allow [2]] = details :=
      Option.some.inj (heq.symm.trans hverdict)
    obtain rfl := List.mem_singleton.mp hmem
    exact absurd hconflict.2.1 (by decide)

/-! ### Redundancy -/

/-- In a list with distinct ids, erasing a rule removes it from its place. -/
theorem erase_split {before after : RuleList} {s : Rule}
    (hids : DistinctIds (before ++ s :: after)) :
    (before ++ s :: after).erase s = before ++ after := by
  rw [List.erase_append_right _ hids.notMem, List.erase_cons_head]

/-- **When a rule can be deleted** that has the action of a later rule and is contained in it:
every rule between the two with the other action only takes packets that are decided before
the rule, or taken by a rule with the same action in between. -/
theorem removable_iff {before rest : RuleList} {s : Rule}
    (hids : DistinctIds (before ++ s :: (rest ++ rule :: post)))
    (haction : s.action = rule.action) (hsub : packets s.predicate ⊆ packets rule.predicate) :
    (∀ pk, decision ((before ++ s :: (rest ++ rule :: post)).erase s) pk =
        decision (before ++ s :: (rest ++ rule :: post)) pk) ↔
      ∀ mid o after, rest = mid ++ o :: after → o.action = rule.action.not →
        ∀ pk ∈ packets s.predicate ∩ packets o.predicate, pk ∈ undecided before →
          ∃ t ∈ mid, t.action = rule.action ∧ pk ∈ packets t.predicate := by
  rw [erase_split hids]
  -- packet by packet, the rules after `s` have to reach its action
  have hpacket : ∀ pk, decision (before ++ (rest ++ rule :: post)) pk =
      decision (before ++ s :: (rest ++ rule :: post)) pk ↔
      (pk ∈ undecided before → pk ∈ packets s.predicate →
        decision (rest ++ rule :: post) pk = some rule.action) := by
    intro pk
    rw [decision, decision, FirstMatch.decision_remove_eq_iff, covers_iff, haction]
  constructor
  · rintro h mid o after rfl hopp pk ⟨hs, ho⟩ hu
    have hrule : covers rule pk = true := covers_iff.mpr (hsub hs)
    have hne : o.action ≠ rule.action := RuleAction.ne_iff.mpr hopp
    have hbetween := (FirstMatch.decision_between_iff hrule).mp ((hpacket pk).mp (h pk) hu hs)
    obtain ⟨t, ht, hcovers, hsame⟩ := hbetween mid o after rfl (covers_iff.mpr ho) hne
    exact ⟨t, ht, hsame, covers_iff.mp hcovers⟩
  · intro h pk
    rw [hpacket]
    intro hu hs
    have hrule : covers rule pk = true := covers_iff.mpr (hsub hs)
    refine (FirstMatch.decision_between_iff hrule).mpr fun mid o after hrest ho hne => ?_
    obtain ⟨t, ht, hsame, hpk⟩ :=
      h mid o after hrest (RuleAction.ne_iff.mp hne) pk ⟨hs, covers_iff.mp ho⟩ hu
    exact ⟨t, ht, covers_iff.mpr hpk, hsame⟩

/-- The rules named as partially redundant. -/
theorem mem_partialRedundant {rules : RuleList} {s : Rule}
    (h : Outcome pre rule (some (.partialRedundant rules))) : s ∈ rules ↔
      s ∈ pre ∧ s.action = rule.action ∧ packets s.predicate ⊆ packets rule.predicate := by
  cases h
  exact mem_containedRules

/-- **When the rules named as redundant can be deleted.**  Each of them can be deleted without
changing a decision exactly when no rule with the other action stands between one of them and
the rule and matches a packet that the named rule decides, unless a rule with the same action
between the two matches the packet first. -/
theorem redundant_removable_iff (ipModel : IPAddressModel) (pre post : RuleList) (rule : Rule)
    (rules : RuleList) (hids : DistinctIds (pre ++ rule :: post))
    (hreports : Reports (pre ++ rule :: post) ipModel rule (.partialRedundant rules)) :
    (∀ s ∈ rules, ∀ pk, decision ((pre ++ rule :: post).erase s) pk =
        decision (pre ++ rule :: post) pk) ↔
      ∀ before s mid o after, pre = before ++ s :: (mid ++ o :: after) →
        s.action = rule.action → packets s.predicate ⊆ packets rule.predicate →
        o.action = rule.action.not →
        ∀ pk ∈ packets s.predicate ∩ packets o.predicate, pk ∈ undecided before →
          ∃ t ∈ mid, t.action = rule.action ∧ pk ∈ packets t.predicate := by
  have hrules : ∀ s, s ∈ rules ↔ s ∈ pre ∧ s.action = rule.action ∧
      packets s.predicate ⊆ packets rule.predicate := fun s =>
    mem_partialRedundant (outcome_of_reports hids hreports)
  constructor
  · rintro h before s mid o after rfl haction hsub
    have hs : s ∈ rules := (hrules s).mpr ⟨by simp, haction, hsub⟩
    have hremove := h s hs
    rw [List.append_assoc, List.cons_append] at hids hremove
    exact (removable_iff hids haction hsub).mp hremove mid o after rfl
  · intro h s hs
    obtain ⟨hmem, haction, hsub⟩ := (hrules s).mp hs
    obtain ⟨before, rest, rfl⟩ := List.append_of_mem hmem
    rw [List.append_assoc, List.cons_append] at hids ⊢
    refine (removable_iff hids haction hsub).mpr fun mid o after hrest => ?_
    exact h before s mid o after (by rw [hrest]) haction hsub

/-- Rules before one that allows a zone.  Without the first, the third would take over its packets,
but for the second. -/
def guardedRules (zone guarded denied : Fin 256) : RuleList :=
  [Rule.ofSrcZones 1 .allow [zone], Rule.ofSrcZones 2 .allow [zone, guarded],
    Rule.ofSrcZones 3 .deny [zone, denied]]

/-- The first rule is named as redundant and can be deleted, though a rule that denies its packets
stands between. -/
theorem redundant_removable_iff_witness :
    Reports (guardedRules 1 5 6 ++ [Rule.ofSrcZones 4 .allow [1, 2]]) .ip4Model
      (Rule.ofSrcZones 4 .allow [1, 2]) (.partialRedundant [Rule.ofSrcZones 1 .allow [1]]) ∧
    ∀ s ∈ [Rule.ofSrcZones 1 .allow [1]], ∀ pk,
      decision ((guardedRules 1 5 6 ++ [Rule.ofSrcZones 4 .allow [1, 2]]).erase s) pk =
        decision (guardedRules 1 5 6 ++ [Rule.ofSrcZones 4 .allow [1, 2]]) pk := by
  have hids : DistinctIds (guardedRules 1 5 6 ++ [Rule.ofSrcZones 4 .allow [1, 2]]) := by
    decide +kernel
  have hreports : Reports (guardedRules 1 5 6 ++ [Rule.ofSrcZones 4 .allow [1, 2]]) .ip4Model
      (Rule.ofSrcZones 4 .allow [1, 2]) (.partialRedundant [Rule.ofSrcZones 1 .allow [1]]) :=
    (reports_iff hids).mpr (by decide +kernel)
  have hguard : packets (Rule.ofSrcZones 1 .allow [1]).predicate ⊆
      packets (Rule.ofSrcZones 2 .allow [1, 5]).predicate :=
    isSubset_iff.mp (by decide +kernel : isSubset _ _ = true)
  refine ⟨hreports, (redundant_removable_iff .ip4Model (guardedRules 1 5 6) []
    (Rule.ofSrcZones 4 .allow [1, 2]) _ hids hreports).mpr ?_⟩
  intro before s mid o after hsplit haction hsub hopp pk hpk _
  rcases before with _ | ⟨a, _ | ⟨b, _ | ⟨c, before⟩⟩⟩
  · -- the first rule is named: the second stands between it and the third
    rcases mid with _ | ⟨m, _ | ⟨m', mid⟩⟩
    · cases hsplit
      cases hopp
    · cases hsplit
      exact ⟨_, List.mem_cons_self, rfl, hguard hpk.1⟩
    · simp [guardedRules] at hsplit
  · -- the second rule is not contained in the last one
    rcases mid with _ | ⟨m, mid⟩
    · cases hsplit
      exact absurd (isSubset_iff.mpr hsub) (by decide +kernel)
    · simp [guardedRules] at hsplit
  · simp [guardedRules] at hsplit
  · simp [guardedRules] at hsplit

/-- The first rule is named as redundant with the last one, but the second takes over its
packet when it goes. -/
theorem redundant_not_removable :
    Reports [Rule.ofSrcZones 1 .allow [1], Rule.ofSrcZones 2 .deny [1, 5],
        Rule.ofSrcZones 3 .allow [1, 2, 3]] .ip4Model (Rule.ofSrcZones 3 .allow [1, 2, 3])
      (.partialRedundant [Rule.ofSrcZones 1 .allow [1]]) ∧
    ∃ pk, decision ([Rule.ofSrcZones 1 .allow [1], Rule.ofSrcZones 2 .deny [1, 5],
        Rule.ofSrcZones 3 .allow [1, 2, 3]].erase (Rule.ofSrcZones 1 .allow [1])) pk ≠
      decision [Rule.ofSrcZones 1 .allow [1], Rule.ofSrcZones 2 .deny [1, 5],
        Rule.ofSrcZones 3 .allow [1, 2, 3]] pk := by
  have hids : DistinctIds ([Rule.ofSrcZones 1 .allow [1], Rule.ofSrcZones 2 .deny [1, 5]] ++
      [Rule.ofSrcZones 3 .allow [1, 2, 3]]) := by decide +kernel
  exact ⟨(reports_iff hids).mpr (by decide +kernel), Packet.ofValues fun _ => 1,
    by decide +kernel⟩

/-! ### Generalization and correlation -/

/-- An earlier rule decides a packet that it matches and no rule before it matches. -/
theorem firstMatch_earlier_iff (hids : DistinctIds (pre ++ rule :: post)) {o : Rule}
    {pk : Packet} : o ∈ pre ∧ firstMatch (pre ++ rule :: post) pk = some o ↔
      ∃ before after, pre = before ++ o :: after ∧ pk ∈ packets o.predicate ∧
        pk ∈ undecided before := by
  constructor
  · intro h
    obtain ⟨hmem, hfirst⟩ := h
    obtain ⟨hcovers, before, after, hsplit, hu⟩ := FirstMatch.firstMatch_eq_some_iff.mp hfirst
    -- distinct ids: both splits are at the same place
    obtain ⟨before', after', rfl⟩ := List.append_of_mem hmem
    rw [List.append_assoc, List.cons_append] at hids hsplit
    obtain ⟨rfl, -⟩ := hids.split_unique hsplit
    exact ⟨before', after', rfl, covers_iff.mp hcovers, hu⟩
  · intro h
    obtain ⟨before, after, rfl, hpk, hu⟩ := h
    refine ⟨by simp, FirstMatch.firstMatch_eq_some_iff.mpr ⟨covers_iff.mpr hpk, before,
      after ++ rule :: post, ?_, hu⟩⟩
    rw [List.append_assoc, List.cons_append]

/-- A correlation is always a real conflict. -/
theorem correlated_real {rules : RuleList} (h : Outcome pre rule (some (.correlated rules))) :
    ∃ pk ∈ packets rule.predicate, ∃ o ∈ rules, o ∈ pre ∧ o.action = rule.action.not ∧
      firstMatch (pre ++ rule :: post) pk = some o := by
  cases h with
  | correlated hfresh hother hnone hredundant =>
    obtain ⟨pk, hpk, hd⟩ := hother
    obtain ⟨o, hfirst, haction⟩ := FirstMatch.decision_eq_some_iff.mp hd
    have hmem := FirstMatch.mem_of_firstMatch hfirst
    have hover : (packets rule.predicate ∩ packets o.predicate).Nonempty :=
      ⟨pk, hpk, covers_iff.mp (FirstMatch.covers_of_firstMatch hfirst)⟩
    exact ⟨pk, hpk, o, mem_overlappingRules.mpr ⟨hmem, haction, hover⟩, hmem, haction,
      FirstMatch.firstMatch_of_prefix (List.prefix_append _ _) hfirst⟩

/-- **When a generalization or a correlation is a real conflict.**  A packet of the rule is
decided by one of the rules named exactly when no earlier rule with the other action is
contained in the rule, or one that is contained decides some packet. -/
theorem generalization_real_iff (ipModel : IPAddressModel) (pre post : RuleList) (rule : Rule)
    (details : RuleAnomalyDetails) (hids : DistinctIds (pre ++ rule :: post))
    (hreports : Reports (pre ++ rule :: post) ipModel rule details)
    (hkind : (∃ rules, details = .generalization rules) ∨ ∃ rules, details = .correlated rules) :
    (∃ pk ∈ packets rule.predicate, ∃ o ∈ details.rules, o ∈ pre ∧
        o.action = rule.action.not ∧ firstMatch (pre ++ rule :: post) pk = some o) ↔
      (∀ o ∈ pre, o.action = rule.action.not →
        ¬packets o.predicate ⊆ packets rule.predicate) ∨
      ∃ before o after, pre = before ++ o :: after ∧ o.action = rule.action.not ∧
        packets o.predicate ⊆ packets rule.predicate ∧
        ∃ pk ∈ packets o.predicate, pk ∈ undecided before := by
  have houtcome := outcome_of_reports hids hreports
  rcases hkind with ⟨rules, rfl⟩ | ⟨rules, rfl⟩
  · cases houtcome with
    -- a generalization names the contained rules; one of them must decide a packet
    | generalization hfresh hhits hcontained =>
      constructor
      · intro h
        obtain ⟨pk, -, o, ho, hmem, -, hfirst⟩ := h
        obtain ⟨-, haction, hsub⟩ := mem_containedRules.mp ho
        obtain ⟨before, after, hsplit, hpk, hu⟩ := (firstMatch_earlier_iff hids).mp ⟨hmem, hfirst⟩
        exact Or.inr ⟨before, o, after, hsplit, haction, hsub, pk, hpk, hu⟩
      · intro hcond
        rcases hcond with hnone | ⟨before, o, after, hsplit, haction, hsub, pk, hpk, hu⟩
        · obtain ⟨o, hmem, haction, hsub⟩ := containedRules_ne_nil_iff.mp hcontained
          exact absurd hsub (hnone o hmem haction)
        · obtain ⟨hmem, hfirst⟩ :=
            (firstMatch_earlier_iff hids).mpr ⟨before, after, hsplit, hpk, hu⟩
          exact ⟨pk, hsub hpk, o, mem_containedRules.mpr ⟨hmem, haction, hsub⟩, hmem, haction,
            hfirst⟩
  · -- a correlation is always real, and only reported when no rule is contained
    refine iff_of_true (correlated_real houtcome) ?_
    cases houtcome with
    | correlated hfresh hother hnone hredundant =>
      refine Or.inl fun o hmem haction hsub => ?_
      exact containedRules_ne_nil_iff.mpr ⟨o, hmem, haction, hsub⟩ hnone

theorem generalization_real_iff_witness :
    (∃ pk ∈ packets (Rule.ofSrcZones 2 .allow [1, 2]).predicate,
        ∃ o ∈ [Rule.ofSrcZones 1 .deny [1]], o ∈ [Rule.ofSrcZones 1 .deny [1]] ∧
          o.action = .deny ∧ firstMatch [Rule.ofSrcZones 1 .deny [1],
            Rule.ofSrcZones 2 .allow [1, 2]] pk = some o) ↔
      (∀ o ∈ [Rule.ofSrcZones 1 .deny [1]], o.action = .deny →
        ¬packets o.predicate ⊆ packets (Rule.ofSrcZones 2 .allow [1, 2]).predicate) ∨
      ∃ before o after, [Rule.ofSrcZones 1 .deny [1]] = before ++ o :: after ∧
        o.action = .deny ∧
        packets o.predicate ⊆ packets (Rule.ofSrcZones 2 .allow [1, 2]).predicate ∧
        ∃ pk ∈ packets o.predicate, pk ∈ undecided before := by
  have hids : DistinctIds ([Rule.ofSrcZones 1 .deny [1]] ++
      [Rule.ofSrcZones 2 .allow [1, 2]]) := by decide +kernel
  exact generalization_real_iff .ip4Model [Rule.ofSrcZones 1 .deny [1]] []
    (Rule.ofSrcZones 2 .allow [1, 2]) (.generalization [Rule.ofSrcZones 1 .deny [1]]) hids
    ((reports_iff hids).mpr (by decide +kernel)) (Or.inl ⟨_, rfl⟩)

/-- The last rule is reported as a generalization of the second, which decides nothing: the
first rule matches the same packets. -/
theorem generalization_masked :
    Reports [Rule.ofSrcZones 1 .allow [1], Rule.ofSrcZones 2 .deny [1],
        Rule.ofSrcZones 3 .allow [1, 2]] .ip4Model (Rule.ofSrcZones 3 .allow [1, 2])
      (.generalization [Rule.ofSrcZones 2 .deny [1]]) ∧
    ¬∃ pk, firstMatch [Rule.ofSrcZones 1 .allow [1], Rule.ofSrcZones 2 .deny [1],
      Rule.ofSrcZones 3 .allow [1, 2]] pk = some (Rule.ofSrcZones 2 .deny [1]) := by
  have hids : DistinctIds ([Rule.ofSrcZones 1 .allow [1], Rule.ofSrcZones 2 .deny [1]] ++
      [Rule.ofSrcZones 3 .allow [1, 2]]) := by decide +kernel
  refine ⟨(reports_iff hids).mpr (by decide +kernel), ?_⟩
  rintro ⟨pk, hfirst⟩
  have hdeny : covers (Rule.ofSrcZones 2 .deny [1]) pk = true :=
    FirstMatch.covers_of_firstMatch hfirst
  -- the predicates of the first two rules are the same
  have hcovers : covers (Rule.ofSrcZones 1 .allow [1]) pk = true := hdeny
  rw [firstMatch, FirstMatch.firstMatch_cons, if_pos hcovers] at hfirst
  exact absurd hfirst (by decide)

end Analyzer

end RulesAnalyzer
