import RulesAnalyzer.Cli.Commands
import RulesAnalyzer.Masking

/-!
# Disabling the rules that are reported

The analysis of a firewall reports rules that other rules hide; the user disables them one after
another.  Each command changes the list the next one works on, and the rules that were reported
first may have hidden each other.

## Main definitions

* `HeldFirewall.ruleList` — the enabled rules as the analysis sees them.
* `disableIn` — what the commands do to a rule.

## Main results

* `exec_disableRules` — the commands disable exactly the rules with the ids.
* `disable_fullyMasked` — **the rules that are reported as fully masked can be disabled in any
  order, and no packet is decided in another way.**
-/

namespace RulesAnalyzer.Cli

open Effect Mnode CliContext

/-! ### The rules of the analysis -/

/-- The rule, with groups of its own. -/
def HeldRule.rule (nw : Network) : HeldRule → Rule
  | loaded rule => ⟨rule.id, rule.name, rule.status, rule.action, rule.predicate.copy nw⟩
  | copied rule => rule

/-- The enabled rules.  The analysis only looks at ids, actions and diagrams, which are those of
the rules of the firewall. -/
def HeldFirewall.ruleList (nw : Network) (firewall : HeldFirewall) : RuleList :=
  firewall.acl.map (HeldRule.rule nw)

section RuleList

variable {nw : Network} {firewall : HeldFirewall}

theorem HeldRule.id_rule (rule : HeldRule) : (rule.rule nw).id = rule.id := by
  cases rule <;> rfl

theorem HeldRule.makeBdd_rule {rule : HeldRule} (hs : nw.Sound) (h : rule.Valid nw) :
    ((rule.rule nw).predicate.makeBdd : ModelBdd) = rule.makeBdd nw := by
  cases rule with
  | loaded rule => exact HeldRule.makeBdd_copy hs h nw
  | copied rule => rfl

theorem HeldRule.covers_rule {rule : HeldRule} (hs : nw.Sound) (h : rule.Valid nw)
    (pk : Packet) : RuleList.covers (rule.rule nw) pk = rule.covers nw pk := by
  rw [RuleList.covers, HeldRule.covers]
  exact congrArg (fun b : ModelBdd => decide (pk ∈ b)) (HeldRule.makeBdd_rule hs h)

theorem distinctIds_ruleList (hids : (firewall.rules.map HeldRule.id).Nodup) :
    RuleList.DistinctIds (firewall.ruleList nw) := by
  have hmap : (firewall.ruleList nw).map Rule.id = firewall.acl.map HeldRule.id := by
    rw [HeldFirewall.ruleList, List.map_map]
    exact List.map_congr_left fun rule _ => rule.id_rule
  rw [RuleList.DistinctIds, hmap]
  exact hids.sublist (List.filter_sublist.map HeldRule.id)

/-- A rule that is fully masked is never the first to match.  A packet that it decides is left by
the rules before it, so the rule would be fresh. -/
theorem id_ne_of_firstMatch (hs : nw.Sound) (hvalid : ∀ rule ∈ firewall.rules, rule.Valid nw)
    (hids : (firewall.rules.map HeldRule.id).Nodup) {ipModel : IPAddressModel} {masked : Rule}
    {details : RuleAnomalyDetails} (hmem : masked ∈ firewall.ruleList nw)
    (hreports : Analyzer.Reports (firewall.ruleList nw) ipModel masked details)
    (hfull : details.ofFullyMasked = true) {rule : HeldRule} {pk : Packet}
    (hfirst : FirstMatch.firstMatch (HeldRule.covers nw) firewall.acl pk = some rule) :
    rule.id ≠ masked.id := by
  intro hid
  have hdistinct : RuleList.DistinctIds (firewall.ruleList nw) := distinctIds_ruleList hids
  have hrule : rule ∈ firewall.acl := FirstMatch.mem_of_firstMatch hfirst
  have heq : rule.rule nw = masked :=
    hdistinct.eq_of_id_eq (List.mem_map_of_mem hrule) hmem (rule.id_rule.trans hid)
  obtain ⟨hcovers, pre, post, hsplit, hundecided⟩ := FirstMatch.firstMatch_eq_some_iff.mp hfirst
  have hlist : firewall.ruleList nw =
      pre.map (HeldRule.rule nw) ++ masked :: post.map (HeldRule.rule nw) := by
    rw [HeldFirewall.ruleList, hsplit, List.map_append, List.map_cons, heq]
  rw [hlist] at hdistinct hreports
  -- the packet is left to the rule, so not all packets of the rule were decided
  have hfresh : Analyzer.Fresh (pre.map (HeldRule.rule nw)) masked := by
    refine ⟨pk, ?_, ?_⟩
    · have hmatch := HeldRule.covers_rule hs (hvalid rule (mem_rules_of_mem_acl hrule)) pk
      rw [heq, hcovers] at hmatch
      exact RuleList.covers_iff.mp hmatch
    · rw [RuleList.decision_eq_none_iff]
      intro other hother
      obtain ⟨held, hheld, rfl⟩ := List.mem_map.mp hother
      have hacl : held ∈ firewall.acl := by
        rw [hsplit]
        exact List.mem_append_left _ hheld
      rw [HeldRule.covers_rule hs (hvalid held (mem_rules_of_mem_acl hacl))]
      exact hundecided held hheld
  have houtcome := Analyzer.outcome_of_reports hdistinct hreports
  exact (Analyzer.ofFullyMasked_iff houtcome).mp hfull hfresh

end RuleList

/-! ### The commands -/

/-- The rule after the commands that disable the rules with the ids. -/
def disableIn (ids : List ℤ) (rule : HeldRule) : HeldRule :=
  if rule.id ∈ ids then rule.setRuleStatus .disabled else rule

section Disable

variable {rules : List HeldRule}

theorem id_disableIn (ids : List ℤ) (rule : HeldRule) : (disableIn ids rule).id = rule.id := by
  rw [disableIn]
  split
  · exact rule.id_setRuleStatus .disabled
  · rfl

theorem map_id_disableIn (ids : List ℤ) (rules : List HeldRule) :
    (rules.map (disableIn ids)).map HeldRule.id = rules.map HeldRule.id := by
  rw [List.map_map]
  exact List.map_congr_left fun rule _ => id_disableIn ids rule

/-- With distinct ids, the rule that changes is the one with the id. -/
theorem setRuleStatus_disabled (hids : (rules.map HeldRule.id).Nodup) {rule : HeldRule}
    (hrule : rule ∈ rules) :
    setRuleStatus rule.id .disabled rules = some (rules.map (disableIn [rule.id])) := by
  obtain ⟨pre, post, rfl⟩ := List.append_of_mem hrule
  rw [List.map_append, List.map_cons, List.nodup_append, List.nodup_cons] at hids
  obtain ⟨-, ⟨hpost, -⟩, hdisjoint⟩ := hids
  have hsame (l : List HeldRule) (h : ∀ other ∈ l, other.id ≠ rule.id) :
      l.map (disableIn [rule.id]) = l := by
    refine (List.map_congr_left fun other hmem => ?_).trans (List.map_id' l)
    exact if_neg (mt List.mem_singleton.mp (h other hmem))
  have hne_pre : ∀ other ∈ pre, other.id ≠ rule.id := fun other hmem =>
    hdisjoint _ (List.mem_map_of_mem hmem) _ List.mem_cons_self
  have hne_post : ∀ other ∈ post, other.id ≠ rule.id := fun other hmem heq =>
    hpost (List.mem_map.mpr ⟨other, hmem, heq⟩)
  refine setRuleStatus_eq_some_iff.mpr ⟨pre, rule, post, rfl, rfl, hne_post, ?_⟩
  rw [List.map_append, List.map_cons, hsame pre hne_pre, hsame post hne_post, disableIn,
    if_pos (List.mem_singleton.mpr rfl)]

/-- One id after the others. -/
theorem disableIn_cons (id : ℤ) (ids : List ℤ) (rule : HeldRule) :
    disableIn ids (disableIn [id] rule) = disableIn (id :: ids) rule := by
  by_cases hid : rule.id = id
  · have hfirst : disableIn [id] rule = rule.setRuleStatus .disabled :=
      if_pos (List.mem_singleton.mpr hid)
    have hboth : disableIn (id :: ids) rule = rule.setRuleStatus .disabled :=
      if_pos (List.mem_cons.mpr (Or.inl hid))
    rw [hfirst, hboth, disableIn]
    split
    · cases rule <;> rfl
    · rfl
  · have hfirst : disableIn [id] rule = rule := if_neg (mt List.mem_singleton.mp hid)
    rw [hfirst, disableIn, disableIn]
    simp only [List.mem_cons, hid, false_or]

/-- **The commands disable exactly the rules with the ids**, whatever the order.  The induction
is on the ids; a rule that is disabled twice stays disabled. -/
theorem exec_disableRules {p : ℕ} (ruleIds : List String) {c : CliContext} {fw : HeldFirewall}
    (hcurrent : c.currentFirewall = some p) (hfw : c.at? p = some fw)
    (hids : (fw.rules.map HeldRule.id).Nodup)
    (hrules : ∀ ruleId ∈ ruleIds, ∃ rule ∈ fw.rules, str2i ruleId = some rule.id ∧ 0 ≤ rule.id) :
    ∃ c', exec (ruleIds.forM (changeRuleStatus .disabled)) c = (.ok ⟨⟩, c') ∧
      c'.currentFirewall = some p ∧ c'.network = c.network ∧
      c'.at? p = some { fw with rules := fw.rules.map (disableIn (ruleIds.filterMap str2i)) } := by
  -- after the first command the hypotheses hold again: ids stay, and rules that are hit twice too
  induction ruleIds generalizing c fw with
  | nil =>
    refine ⟨c, rfl, hcurrent, rfl, ?_⟩
    have hnone : disableIn [] = id := funext fun rule => if_neg List.not_mem_nil
    rw [List.filterMap_nil, hnone, List.map_id]
    exact hfw
  | cons ruleId ruleIds ih =>
    obtain ⟨rule, hrule, hid, hnonneg⟩ := hrules ruleId List.mem_cons_self
    -- with different ids, the last rule with an id is the only one
    have hset := setRuleStatus_disabled hids hrule
    have hfirst : exec (changeRuleStatus .disabled ruleId) c = (.ok ⟨⟩,
        c.write p (some { fw with rules := fw.rules.map (disableIn [rule.id]) })) := by
      rw [exec_changeRuleStatus .disabled ruleId hcurrent hfw, hid]
      simp only [hset, not_lt.mpr hnonneg, if_false]
    have hrest : ∀ ruleId' ∈ ruleIds, ∃ rule' ∈ fw.rules.map (disableIn [rule.id]),
        str2i ruleId' = some rule'.id ∧ 0 ≤ rule'.id := by
      intro ruleId' hmem
      obtain ⟨rule', hrule', hid'⟩ := hrules ruleId' (List.mem_cons_of_mem _ hmem)
      refine ⟨disableIn [rule.id] rule', List.mem_map_of_mem hrule', ?_⟩
      rwa [id_disableIn]
    obtain ⟨c', hrun, hcurrent', hnetwork, hfw'⟩ :=
      ih (c := c.write p (some { fw with rules := fw.rules.map (disableIn [rule.id]) })) hcurrent
        (at?_write_self hfw _) ((map_id_disableIn _ _).symm ▸ hids) hrest
    refine ⟨c', ?_, hcurrent', hnetwork, ?_⟩
    · rw [List.forM, exec_bind_ok hfirst]
      exact hrun
    · rw [hfw', List.filterMap_cons, hid, List.map_map]
      have hcomp : disableIn (ruleIds.filterMap str2i) ∘ disableIn [rule.id] =
          disableIn (rule.id :: ruleIds.filterMap str2i) :=
        funext fun rule' => disableIn_cons rule.id _ rule'
      rw [hcomp]

/-- What is left of the enabled rules. -/
theorem acl_disableIn (fw : HeldFirewall) (ids : List ℤ) :
    HeldFirewall.acl { fw with rules := fw.rules.map (disableIn ids) } =
      fw.acl.filter fun rule => rule.id ∉ ids := by
  rw [HeldFirewall.acl, HeldFirewall.acl, List.filter_filter]
  simp only
  induction fw.rules with
  | nil => rfl
  | cons rule rules ih =>
    by_cases hid : rule.id ∈ ids
    · have hstatus : (disableIn ids rule).status = .disabled := by
        rw [disableIn, if_pos hid]
        cases rule <;> rfl
      rw [List.map_cons, List.filter_cons_of_neg (by rw [hstatus]; decide),
        List.filter_cons_of_neg (by simp [hid]), ih]
    · have hrule : disableIn ids rule = rule := if_neg hid
      rw [List.map_cons, hrule, List.filter_cons, List.filter_cons, ih]
      simp only [hid, not_false_eq_true, decide_true, Bool.true_and]

end Disable

/-! ### Disabling the rules that are reported -/

/-- **The rules that are reported as fully masked can be disabled in any order**, with any number
of commands: all commands succeed, exactly these rules are disabled, and the firewall decides every
packet as before. -/
theorem disable_fullyMasked {c : CliContext} (hc : c.Good) {fw : HeldFirewall}
    (hcurrent : c.current = some fw) (ipModel : IPAddressModel) (ruleIds : List String)
    (hmasked : ∀ ruleId ∈ ruleIds, ∃ rule ∈ fw.ruleList c.network, ∃ details,
      str2i ruleId = some rule.id ∧
      Analyzer.Reports (fw.ruleList c.network) ipModel rule details ∧
      details.ofFullyMasked = true) :
    ∃ c' fw', exec (ruleIds.forM (changeRuleStatus .disabled)) c = (.ok ⟨⟩, c') ∧
      c'.current = some fw' ∧
      fw'.rules = fw.rules.map (disableIn (ruleIds.filterMap str2i)) ∧
      ∀ pk, fw'.decision c'.network pk = fw.decision c.network pk := by
  obtain ⟨p, hp, hfw⟩ := Option.bind_eq_some_iff.mp hcurrent
  have hvalid := hc.valid p fw hfw
  obtain ⟨hnonneg, hids⟩ := hc.numbered p fw hfw
  have hrules : ∀ ruleId ∈ ruleIds, ∃ rule ∈ fw.rules,
      str2i ruleId = some rule.id ∧ 0 ≤ rule.id := by
    intro ruleId hmem
    obtain ⟨rule, hrule, -, hid, -⟩ := hmasked ruleId hmem
    obtain ⟨held, hheld, rfl⟩ := List.mem_map.mp hrule
    rw [held.id_rule] at hid
    have hheld := mem_rules_of_mem_acl hheld
    exact ⟨held, hheld, hid, hnonneg _ (List.mem_map_of_mem hheld)⟩
  obtain ⟨c', hrun, hcurrent', hnetwork, hfw'⟩ := exec_disableRules ruleIds hp hfw hids hrules
  refine ⟨c', _, hrun, Option.bind_eq_some_iff.mpr ⟨p, hcurrent', hfw'⟩, rfl, fun pk => ?_⟩
  -- the rules that are left are all that ever match first
  rw [HeldFirewall.decision, HeldFirewall.decision, acl_disableIn, hnetwork, FirstMatch.decision,
    FirstMatch.decision, FirstMatch.firstMatch_filter fun rule hfirst => ?_]
  rw [decide_eq_true_iff, List.mem_filterMap]
  intro hex
  obtain ⟨ruleId, hmem, hid⟩ := hex
  obtain ⟨masked, hlist, details, hid', hreports, hfull⟩ := hmasked ruleId hmem
  have hne := id_ne_of_firstMatch hc.sound hvalid hids hlist hreports hfull hfirst
  exact hne (Option.some.inj (hid.symm.trans hid'))

/-- A firewall whose second rule is shadowed by the first. -/
def shadowedFirewall (zones : List (Fin 256)) : HeldFirewall :=
  ⟨"default", [.copied (.ofSrcZones 1 .deny zones), .copied (.ofSrcZones 2 .allow zones)]⟩

/-- A session with this firewall. -/
def shadowedContext (zones : List (Fin 256)) : CliContext :=
  (Shell.initial ⟨.dotted, ⟨',', false⟩⟩ "").context.write 0 (some (shadowedFirewall zones))

theorem good_shadowedContext (zones : List (Fin 256)) : (shadowedContext zones).Good := by
  have hgood := (ready_initial ⟨.dotted, ⟨',', false⟩⟩ "").good
  have hfw : (Shell.initial ⟨.dotted, ⟨',', false⟩⟩ "").context.at? 0 = some ⟨"default", []⟩ :=
    rfl
  have hnumbered : Numbered 0 [1, 2] := by
    refine ⟨fun id hid => ?_, by decide⟩
    rcases List.mem_pair.mp hid with rfl | rfl <;> decide
  refine hgood.write hfw (fun rule hrule => ?_) hnumbered
  rcases List.mem_pair.mp hrule with rfl | rfl
  · exact trivial
  · exact trivial

theorem disable_fullyMasked_shadowed : ∃ c' fw',
    exec (["2"].forM (changeRuleStatus .disabled)) (shadowedContext [3]) = (.ok ⟨⟩, c') ∧
      c'.current = some fw' ∧
      fw'.rules = (shadowedFirewall [3]).rules.map (disableIn (["2"].filterMap str2i)) ∧
      ∀ pk, fw'.decision c'.network pk =
        (shadowedFirewall [3]).decision (shadowedContext [3]).network pk := by
  refine disable_fullyMasked (good_shadowedContext [3]) rfl .ip4Model ["2"]
    fun ruleId hmem => ?_
  obtain rfl := List.mem_singleton.mp hmem
  have hids : RuleList.DistinctIds
      [Rule.ofSrcZones 1 .deny [3], Rule.ofSrcZones 2 .allow [3]] := by decide +kernel
  refine ⟨Rule.ofSrcZones 2 .allow [3], List.mem_cons_of_mem _ List.mem_cons_self,
    .shadowed [Rule.ofSrcZones 1 .deny [3]], by decide +kernel, ?_, rfl⟩
  exact (@Analyzer.reports_iff [Rule.ofSrcZones 1 .deny [3]] [] _ _ _ hids).mpr
    (by decide +kernel)

end RulesAnalyzer.Cli
