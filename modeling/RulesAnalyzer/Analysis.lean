import RulesAnalyzer.Analyzer

/-!
# What the analysis computes

The analyzer looks diagrams up in a cache and its loop can stop with an error.
This file removes both: in a list whose rules have distinct ids, and with a
callback that never interrupts, the loop succeeds, and what it reports about a
rule is a function of the rules before it.

## Main definitions

* `overlapping`, `contained` — the rules an anomaly can name.
* `verdict` — the anomaly of a rule after a list of rules.
* `Reports` — the analysis of a list reports an anomaly of a rule.

## Main results

* `checkRule_eq` — with the diagrams in the cache, `checkRule` is a function of them.
* `Loop.run_inv` — **the loop never fails, and its state is that of the rules seen.**
* `reports_iff` — **a rule is reported exactly when the rules before it give it a verdict.**
-/

namespace RulesAnalyzer

open Diagram Mnode RuleList

namespace Analyzer

/-! ### The analysis without a cache -/

section Pure

variable (bddOf : Rule → Bddnode) (before : RuleList) (rule : Rule)

/-- The rules with an action that intersect the rule. -/
def overlapping (action : RuleAction) : RuleList :=
  before.filter fun other => other.action = action && overlaps (bddOf rule) (bddOf other)

/-- The rules with an action that are subsets of the rule. -/
def contained (action : RuleAction) : RuleList :=
  before.filter fun other => other.action = action && isSubset (bddOf other) (bddOf rule)

/-- The anomaly of a fully masked rule. -/
def fullyMasked (state : State) : RuleAnomalyDetails :=
  if isSubset (bddOf rule) (state.processed rule.action.not) then
    .shadowed (overlapping bddOf before rule rule.action.not)
  else if isDisjoint (bddOf rule) (state.processed rule.action.not) then
    .fullRedundant (overlapping bddOf before rule rule.action)
  else .redundantOrCorrelated (overlapping bddOf before rule rule.action)
    (overlapping bddOf before rule rule.action.not)

/-- One search of the analysis of a partially masked rule. -/
def reportIf (guard : Bool) (matchingRules : RuleList) (report : RuleList → RuleAnomalyDetails)
    (next : Option RuleAnomalyDetails) : Option RuleAnomalyDetails :=
  if guard ∧ matchingRules ≠ [] then some (report matchingRules) else next

/-- The anomaly of a partially masked rule. -/
def partiallyMasked (state : State) : Option RuleAnomalyDetails :=
  reportIf true (contained bddOf before rule rule.action.not) .generalization <|
  reportIf (overlaps (bddOf rule) (state.processed rule.action))
    (contained bddOf before rule rule.action) .partialRedundant <|
  reportIf (overlaps (bddOf rule) (state.processed rule.action.not))
    (overlapping bddOf before rule rule.action.not) .correlated none

/-- The anomaly of a rule. -/
def ruleDetails (state : State) : Option RuleAnomalyDetails :=
  if isSubset (bddOf rule) state.remaining then none
  else if isNone state.remaining || isDisjoint (bddOf rule) state.remaining then
    some (fullyMasked bddOf before rule state)
  else partiallyMasked bddOf before rule state

end Pure

theorem reportIf_pos {guard : Bool} {matchingRules : RuleList}
    {report : RuleList → RuleAnomalyDetails} {next : Option RuleAnomalyDetails}
    (hguard : guard = true) (hne : matchingRules ≠ []) :
    reportIf guard matchingRules report next = some (report matchingRules) := if_pos ⟨hguard, hne⟩

theorem reportIf_neg {guard : Bool} {matchingRules : RuleList}
    {report : RuleList → RuleAnomalyDetails} {next : Option RuleAnomalyDetails}
    (h : ¬(guard = true ∧ matchingRules ≠ [])) :
    reportIf guard matchingRules report next = next := if_neg h

/-! ### The cache -/

theorem ok_bind {α β ε : Type} (a : α) (f : α → Except ε β) : (Except.ok a >>= f) = f a := rfl

/-- The cache holds the diagrams of the rules. -/
def Knows (cache : Bddcache) (bddOf : Rule → Bddnode) (rules : RuleList) : Prop :=
  ∀ rule ∈ rules, cache.find rule.id = some (bddOf rule)

variable {acl : RuleList} {rule : Rule} {cache : Bddcache} {bddOf : Rule → Bddnode}

theorem findBefore_eq {related : Bddnode → Bddnode → Bool} {action : RuleAction}
    (h : Knows cache bddOf (rule :: acl.takeWhile (· ≠ rule))) :
    findBefore acl related rule action cache = .ok ((acl.takeWhile (· ≠ rule)).filter
      fun other => other.action = action && related (bddOf rule) (bddOf other)) := by
  have hrule : cache.get rule.id = .ok (bddOf rule) :=
    Bddcache.get_of_find (h rule List.mem_cons_self)
  have hother : ∀ other ∈ acl.takeWhile (· ≠ rule),
      (if other.action = action then do
          let otherBdd ← cache.get other.id
          return related (bddOf rule) otherBdd
        else return false : Except AnalyzerError Bool) =
      .ok (other.action = action && related (bddOf rule) (bddOf other)) := by
    intro other hmem
    have hget : cache.get other.id = .ok (bddOf other) :=
      Bddcache.get_of_find (h other (List.mem_cons_of_mem _ hmem))
    by_cases ha : other.action = action
    · simp only [if_pos ha, hget, decide_eq_true ha, Bool.true_and]
      rfl
    · simp only [if_neg ha, decide_eq_false ha, Bool.false_and]
      rfl
  rw [findBefore, hrule]
  exact filterBefore_eq hother

theorem findOverlaping_eq {action : RuleAction}
    (h : Knows cache bddOf (rule :: acl.takeWhile (· ≠ rule))) :
    findOverlaping acl rule action cache =
      .ok (overlapping bddOf (acl.takeWhile (· ≠ rule)) rule action) := findBefore_eq h

theorem findOtherIsSubset_eq {action : RuleAction}
    (h : Knows cache bddOf (rule :: acl.takeWhile (· ≠ rule))) :
    findOtherIsSubset acl rule action cache =
      .ok (contained bddOf (acl.takeWhile (· ≠ rule)) rule action) := findBefore_eq h

theorem analyzeFullyMaskedRule_eq {state : State}
    (h : Knows cache bddOf (rule :: acl.takeWhile (· ≠ rule))) :
    analyzeFullyMaskedRule acl rule state cache =
      .ok (fullyMasked bddOf (acl.takeWhile (· ≠ rule)) rule state) := by
  have hrule : cache.get rule.id = .ok (bddOf rule) :=
    Bddcache.get_of_find (h rule List.mem_cons_self)
  rw [analyzeFullyMaskedRule, hrule, findOverlaping_eq h, findOverlaping_eq h, fullyMasked, ok_bind]
  split
  · rfl
  · split <;> rfl

theorem searchIf_eq {guard : Bool} {search : Except AnalyzerError RuleList}
    {report : RuleList → RuleAnomalyDetails}
    {next : Except AnalyzerError (Option RuleAnomalyDetails)} {matchingRules : RuleList}
    {details : Option RuleAnomalyDetails} (hs : search = .ok matchingRules)
    (hn : next = .ok details) :
    searchIf guard search report next = .ok (reportIf guard matchingRules report details) := by
  subst hs hn
  unfold searchIf reportIf
  cases guard with
  | false => rfl
  | true => cases matchingRules <;> rfl

theorem analyzePartiallyMaskedRule_eq {state : State}
    (h : Knows cache bddOf (rule :: acl.takeWhile (· ≠ rule))) :
    analyzePartiallyMaskedRule acl rule state cache =
      .ok (partiallyMasked bddOf (acl.takeWhile (· ≠ rule)) rule state) := by
  have hrule : cache.get rule.id = .ok (bddOf rule) :=
    Bddcache.get_of_find (h rule List.mem_cons_self)
  rw [analyzePartiallyMaskedRule, hrule, partiallyMasked, ok_bind]
  refine searchIf_eq (findOtherIsSubset_eq h) ?_
  refine searchIf_eq (findOtherIsSubset_eq h) ?_
  exact searchIf_eq (findOverlaping_eq h) rfl

/-- **With the diagrams in the cache, the analysis of a rule is a function of them.** -/
theorem checkRule_eq {state : State}
    (h : Knows cache bddOf (rule :: acl.takeWhile (· ≠ rule))) :
    checkRule acl rule state cache =
      .ok ((ruleDetails bddOf (acl.takeWhile (· ≠ rule)) rule state).map (⟨rule, ·⟩)) := by
  have hrule : cache.get rule.id = .ok (bddOf rule) :=
    Bddcache.get_of_find (h rule List.mem_cons_self)
  rw [checkRule, hrule, ruleDetails, analyzeFullyMaskedRule_eq h,
    analyzePartiallyMaskedRule_eq h]
  rw [ok_bind]
  cases isSubset (bddOf rule) state.remaining with
  | true => rfl
  | false => cases isNone state.remaining || isDisjoint (bddOf rule) state.remaining <;> rfl

/-! ### The loop -/

/-- The callback that never interrupts. -/
def never : ℕ → Bool := fun _ => false

/-- The anomaly of a rule after the rules `before`. -/
def verdict (ipModel : IPAddressModel) (before : RuleList) (rule : Rule) :
    Option RuleAnomalyDetails :=
  ruleDetails (fun rule => rule.predicate.makeBdd) before rule
    ((State.init (.any ipModel)).run before)

/-- Among the rules `pre` of the list, the anomaly is the one of its rule. -/
def Reported (acl : RuleList) (ipModel : IPAddressModel) (pre : RuleList)
    (anomaly : RuleAnomaly) : Prop :=
  ∃ before after, pre = before ++ anomaly.rule :: after ∧
    (anomaly.rule.isDenyAll && acl.isLast anomaly.rule) = false ∧
    verdict ipModel before anomaly.rule = some anomaly.details

namespace Loop

/-- One round without interruption. -/
theorem step_eq {loop : Loop} (h : Knows (loop.cache.set rule.id rule.predicate.makeBdd) bddOf
      (rule :: acl.takeWhile (· ≠ rule))) :
    step acl never loop rule = .ok
      { calls := loop.calls + 1
        state := loop.state.update rule.action rule.predicate.makeBdd
        cache := loop.cache.set rule.id rule.predicate.makeBdd
        anomalies := loop.anomalies ++ ((if !(rule.isDenyAll && acl.isLast rule) then
          ruleDetails bddOf (acl.takeWhile (· ≠ rule)) rule loop.state
          else none).map (⟨rule, ·⟩)).toList } := by
  have hrule : (loop.cache.set rule.id rule.predicate.makeBdd).get rule.id =
      .ok rule.predicate.makeBdd := Bddcache.get_of_find (Bddcache.find_set_self _ _ _)
  rw [step, never, if_neg Bool.false_ne_true]
  dsimp only
  rw [checkRule_eq h, hrule]
  cases !(rule.isDenyAll && acl.isLast rule) <;> rfl

/-- What holds of the loop after the rules `pre`. -/
structure Inv (acl : RuleList) (ipModel : IPAddressModel) (pre : RuleList) (loop : Loop) :
    Prop where
  state : loop.state = (State.init (.any ipModel)).run pre
  found : ∀ rule ∈ pre, (loop.cache.find rule.id).isSome
  cache : DistinctIds acl → Knows loop.cache (fun rule => rule.predicate.makeBdd) pre
  anomalies : DistinctIds acl →
    ∀ anomaly, anomaly ∈ loop.anomalies ↔ Reported acl ipModel pre anomaly

theorem init_inv (acl : RuleList) (ipModel : IPAddressModel) : Inv acl ipModel [] (init ipModel)
    where
  state := rfl
  found := nofun
  cache _ := nofun
  anomalies _ anomaly := by
    constructor
    · exact nofun
    · rintro ⟨before, after, h, -⟩
      exact absurd h (by simp)

/-- A list that ends with `rule` is split at a rule before it or at `rule` itself. -/
theorem reported_concat {acl : RuleList} {ipModel : IPAddressModel} {pre : RuleList} {rule : Rule}
    {anomaly : RuleAnomaly} : Reported acl ipModel (pre ++ [rule]) anomaly ↔
      Reported acl ipModel pre anomaly ∨
        anomaly.rule = rule ∧ (rule.isDenyAll && acl.isLast rule) = false ∧
          verdict ipModel pre rule = some anomaly.details := by
  constructor
  · rintro ⟨before, after, hsplit, hlast, hverdict⟩
    rcases List.eq_nil_or_concat after with rfl | ⟨after, last, rfl⟩
    · obtain ⟨rfl, hrule⟩ := List.append_inj' hsplit rfl
      obtain rfl : rule = anomaly.rule := List.head_eq_of_cons_eq hrule
      exact Or.inr ⟨rfl, hlast, hverdict⟩
    · rw [List.concat_eq_append, ← List.cons_append, ← List.append_assoc] at hsplit
      obtain ⟨rfl, -⟩ := List.append_inj' hsplit rfl
      exact Or.inl ⟨before, after, rfl, hlast, hverdict⟩
  · intro hsplit
    rcases hsplit with ⟨before, after, rfl, hlast, hverdict⟩ | ⟨rfl, hlast, hverdict⟩
    · refine ⟨before, after ++ [rule], ?_, hlast, hverdict⟩
      rw [List.append_assoc, List.cons_append]
    · exact ⟨pre, [], rfl, hlast, hverdict⟩

theorem mem_toList_map {rule : Rule} {details : Option RuleAnomalyDetails}
    {anomaly : RuleAnomaly} : anomaly ∈ (details.map (⟨rule, ·⟩ : _ → RuleAnomaly)).toList ↔
      anomaly.rule = rule ∧ details = some anomaly.details := by
  rw [Option.mem_toList, Option.map_eq_some_iff]
  constructor
  · rintro ⟨d, hd, rfl⟩
    exact ⟨rfl, hd⟩
  · rintro ⟨rfl, hd⟩
    exact ⟨anomaly.details, hd, rfl⟩

theorem mem_cons_takeWhile {pre post : RuleList} {rule r : Rule}
    (hr : r ∈ rule :: (pre ++ rule :: post).takeWhile (· ≠ rule)) : r ∈ pre ++ [rule] := by
  rcases List.mem_cons.mp hr with rfl | hr
  · exact List.mem_append_right _ (List.mem_singleton_self _)
  · exact List.mem_append_left _ (takeWhile_ne_subset pre post rule hr)

/-- The cache has a diagram for every rule up to the current one. -/
theorem found_set {pre : RuleList} {rule : Rule} {cache : Bddcache} (bdd : Bddnode)
    (h : ∀ r ∈ pre, (cache.find r.id).isSome) :
    ∀ r ∈ pre ++ [rule], ((cache.set rule.id bdd).find r.id).isSome := by
  intro r hr
  by_cases hid : r.id = rule.id
  · rw [hid, Bddcache.find_set_self, Option.isSome_some]
  · rw [Bddcache.find_set_of_ne _ _ hid]
    rcases List.mem_append.mp hr with hr | hr
    · exact h r hr
    · exact absurd (congrArg Rule.id (List.mem_singleton.mp hr)) hid

/-- With distinct ids it is the diagram of the rule itself. -/
theorem knows_set {pre post : RuleList} {rule : Rule} {cache : Bddcache}
    (hids : DistinctIds (pre ++ rule :: post))
    (h : Knows cache (fun rule => rule.predicate.makeBdd) pre) :
    Knows (cache.set rule.id rule.predicate.makeBdd) (fun rule => rule.predicate.makeBdd)
      (pre ++ [rule]) := by
  intro r hr
  rcases List.mem_append.mp hr with hr | hr
  · rw [Bddcache.find_set_of_ne _ _ (hids.ne r hr)]
    exact h r hr
  · obtain rfl := List.mem_singleton.mp hr
    exact Bddcache.find_set_self _ _ _

/-- **One round keeps the invariant.** -/
theorem step_inv {pre post : RuleList} {ipModel : IPAddressModel} {rule : Rule} {loop : Loop}
    (h : Inv (pre ++ rule :: post) ipModel pre loop) :
    ∃ loop', step (pre ++ rule :: post) never loop rule = .ok loop' ∧
      Inv (pre ++ rule :: post) ipModel (pre ++ [rule]) loop' := by
  have hstate : loop.state.update rule.action rule.predicate.makeBdd =
      (State.init (.any ipModel)).run (pre ++ [rule]) := by rw [State.run_concat, ← h.state]
  have hfound := @Loop.found_set pre rule loop.cache rule.predicate.makeBdd h.found
  by_cases hids : DistinctIds (pre ++ rule :: post)
  · have hknows := knows_set hids (h.cache hids)
    refine ⟨_, step_eq fun r hr => hknows r (mem_cons_takeWhile hr), hstate, hfound,
      fun _ => hknows, fun _ anomaly => ?_⟩
    dsimp only
    rw [List.mem_append, h.anomalies hids, mem_toList_map, reported_concat,
      takeWhile_ne_eq hids.notMem, h.state]
    cases hlast : rule.isDenyAll && isLast (pre ++ rule :: post) rule with
    | true => simp
    | false => simp [verdict]
  · -- without distinct ids any diagram will do
    have hknows : Knows (loop.cache.set rule.id rule.predicate.makeBdd)
        (fun r => ((loop.cache.set rule.id rule.predicate.makeBdd).find r.id).getD bddFalse)
        (rule :: (pre ++ rule :: post).takeWhile (· ≠ rule)) := by
      intro r hr
      obtain ⟨bdd, hbdd⟩ := Option.isSome_iff_exists.mp (hfound r (mem_cons_takeWhile hr))
      simp only [hbdd, Option.getD_some]
    exact ⟨_, step_eq hknows, hstate, hfound, fun h => absurd h hids, fun h => absurd h hids⟩

/-- **The loop never fails, and it keeps the invariant.** -/
theorem run_inv (ipModel : IPAddressModel) (pre post : RuleList) :
    ∃ loop, pre.foldlM (step (pre ++ post) never) (init ipModel) = .ok loop ∧
      Inv (pre ++ post) ipModel pre loop := by
  induction pre using List.reverseRecOn generalizing post with
  | nil => exact ⟨init ipModel, rfl, init_inv _ ipModel⟩
  | append_singleton pre rule ih =>
    obtain ⟨loop, hloop, hinv⟩ := ih (rule :: post)
    obtain ⟨loop', hstep, hinv'⟩ := step_inv hinv
    rw [List.append_assoc, List.singleton_append]
    refine ⟨loop', ?_, hinv'⟩
    rw [List.foldlM_append, hloop, ok_bind, List.foldlM_cons, hstep, ok_bind]
    rfl

end Loop

/-- Without interruption the analysis succeeds. -/
theorem checkAnomaly_eq (acl : RuleList) (ipModel : IPAddressModel) :
    ∃ result, checkAnomaly acl ipModel never = .ok result ∧
      (DistinctIds acl → ∀ anomaly, anomaly ∈ result.anomalies ↔
        Reported acl ipModel acl anomaly) ∧
      (result.missingDenyAll = true ↔ (undecided acl).Nonempty) := by
  obtain ⟨loop, hloop, hinv⟩ := Loop.run_inv ipModel acl []
  rw [List.append_nil] at hloop hinv
  have hstate : loop.state.Refines acl := hinv.state ▸ State.run_refines ipModel acl
  refine ⟨⟨loop.anomalies, !isNone loop.state.remaining⟩, ?_, hinv.anomalies, ?_⟩
  · rw [checkAnomaly, hloop]
    rfl
  · rw [Bool.not_eq_true', ← Bool.not_eq_true, isNone_iff, hstate.remaining,
      Set.nonempty_iff_ne_empty]

/-- The analysis of the list reports an anomaly of a rule. -/
def Reports (acl : RuleList) (ipModel : IPAddressModel) (rule : Rule)
    (details : RuleAnomalyDetails) : Prop :=
  ∃ result, checkAnomaly acl ipModel never = .ok result ∧ ⟨rule, details⟩ ∈ result.anomalies

/-- **What is reported**: the verdict of the rules before, unless the rule is a deny-all in
last position. -/
theorem reports_iff {pre post : RuleList} {ipModel : IPAddressModel} {rule : Rule}
    {details : RuleAnomalyDetails} (hids : DistinctIds (pre ++ rule :: post)) :
    Reports (pre ++ rule :: post) ipModel rule details ↔
      ¬(rule.isDenyAll = true ∧ post = []) ∧ verdict ipModel pre rule = some details := by
  obtain ⟨result, hresult, hanomalies, -⟩ := checkAnomaly_eq (pre ++ rule :: post) ipModel
  have hreports : Reports (pre ++ rule :: post) ipModel rule details ↔
      Reported (pre ++ rule :: post) ipModel (pre ++ rule :: post) ⟨rule, details⟩ := by
    rw [← hanomalies hids]
    constructor
    · rintro ⟨result', hresult', hmem⟩
      obtain rfl : result = result' := by
        rw [hresult] at hresult'
        exact Except.ok.inj hresult'
      exact hmem
    · exact fun hmem => ⟨result, hresult, hmem⟩
  have hlast : (rule.isDenyAll && isLast (pre ++ rule :: post) rule) = false ↔
      ¬(rule.isDenyAll = true ∧ post = []) := by
    rw [← Bool.not_eq_true, Bool.and_eq_true, hids.isLast_iff]
  rw [hreports, ← hlast]
  constructor
  · rintro ⟨before, after, hsplit, hl, hverdict⟩
    obtain ⟨rfl, rfl⟩ := hids.split_unique hsplit
    exact ⟨hl, hverdict⟩
  · rintro ⟨hl, hverdict⟩
    exact ⟨pre, post, rfl, hl, hverdict⟩

/-- **The state computes first-match semantics.**  After any prefix of any rule list the loop
holds the packets whose first matching rule allows them, those whose first matching rule
denies them, and those no rule matches.  The three sets partition the packets, the first two
only grow, and at the end the deny-all rule is missing exactly when some packet matches no
rule. -/
theorem checkAnomaly_firstMatch (ipModel : IPAddressModel) (pre mid post : RuleList) :
    (∃ loop loop' : Loop,
      pre.foldlM (Loop.step (pre ++ mid ++ post) never) (Loop.init ipModel) = .ok loop ∧
      (pre ++ mid).foldlM (Loop.step (pre ++ mid ++ post) never) (Loop.init ipModel) =
        .ok loop' ∧
      packets loop.state.accepted = {pk | decision pre pk = some .allow} ∧
      packets loop.state.denied = {pk | decision pre pk = some .deny} ∧
      packets loop.state.remaining = {pk | ∀ rule ∈ pre, pk ∉ packets rule.predicate} ∧
      Disjoint (packets loop.state.accepted) (packets loop.state.denied) ∧
      Disjoint (packets loop.state.accepted) (packets loop.state.remaining) ∧
      Disjoint (packets loop.state.denied) (packets loop.state.remaining) ∧
      packets loop.state.accepted ∪ packets loop.state.denied ∪ packets loop.state.remaining =
        Set.univ ∧
      packets loop.state.accepted ⊆ packets loop'.state.accepted ∧
      packets loop.state.denied ⊆ packets loop'.state.denied) ∧
    ∃ result, checkAnomaly (pre ++ mid ++ post) ipModel never = .ok result ∧
      (result.missingDenyAll = true ↔
        ∃ pk, ∀ rule ∈ pre ++ mid ++ post, pk ∉ packets rule.predicate) := by
  constructor
  · -- the invariant at both places, and decisions are not changed by later rules
    obtain ⟨loop, hloop, hinv⟩ := Loop.run_inv ipModel pre (mid ++ post)
    obtain ⟨loop', hloop', hinv'⟩ := Loop.run_inv ipModel (pre ++ mid) post
    rw [← List.append_assoc] at hloop
    have hstate : loop.state.Refines pre := hinv.state ▸ State.run_refines ipModel pre
    have hstate' : loop'.state.Refines (pre ++ mid) :=
      hinv'.state ▸ State.run_refines ipModel (pre ++ mid)
    have hgrow : ∀ action, decided pre action ⊆ decided (pre ++ mid) action :=
      fun action pk hpk => FirstMatch.decision_of_prefix (List.prefix_append pre mid) hpk
    refine ⟨loop, loop', hloop, hloop', hstate.accepted, hstate.denied, ?_, ?_⟩
    · rw [hstate.remaining]
      refine Set.ext fun pk => ?_
      exact mem_undecided
    · rw [hstate.accepted, hstate.denied, hstate.remaining, hstate'.accepted, hstate'.denied]
      exact ⟨disjoint_decided pre, disjoint_undecided pre .allow, disjoint_undecided pre .deny,
        decided_union pre, hgrow .allow, hgrow .deny⟩
  · obtain ⟨result, hresult, -, hmissing⟩ := checkAnomaly_eq (pre ++ mid ++ post) ipModel
    refine ⟨result, hresult, hmissing.trans ?_⟩
    exact exists_congr fun pk => mem_undecided

end Analyzer

end RulesAnalyzer
