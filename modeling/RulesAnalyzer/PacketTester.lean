import RulesAnalyzer.BddOptions

/-!
# Testing packets

The packet tester answers whether a rule list lets the packets of a test through.
It looks for the first rule that matches all of them, so a rule that only matches
some of them is passed over, whatever its action.

## Main definitions

* `PacketTest` — the criteria of a test.
* `PacketTester.isPacketAllowed` — the tester.
* `PacketTester.OverlapsHarmless` — the rules that are passed over do not matter.

## Main results

* `PacketTester.answer_sound_iff` — **when the answer is right.**
-/

namespace RulesAnalyzer

open Diagram Mnode RuleList

/-- The criteria of a test.  Zones, applications, users and urls may be left open. -/
structure PacketTest where
  srcZone : Option SrcZone
  srcAddrGrp : SrcAddressGroup
  dstZone : Option DstZone
  dstAddrGrp : DstAddressGroup
  svcGrp : ServiceGroup
  appGrp : Option ApplicationGroup
  usrGrp : Option UserGroup
  urlGrp : Option UrlGroup

namespace PacketTest

/-- The criteria that are not left open. -/
def bddOptions (test : PacketTest) : BddOptions :=
  (if test.srcZone.isSome then {.sourceZone} else ∅) ∪
    (if test.dstZone.isSome then {.destinationZone} else ∅) ∪
    (if test.appGrp.isSome then {.application} else ∅) ∪
    (if test.usrGrp.isSome then {.user} else ∅) ∪
    (if test.urlGrp.isSome then {.url} else ∅)

/-- The predicate of a test, made of copies of the groups. -/
def predicate (test : PacketTest) : Predicate := .ofCriteria {
  sources := {
    srcZones := test.srcZone.elim srcAnyZoneGroup (Group.ofItem "")
    srcAddresses := test.srcAddrGrp.clone
    negateSrcAddresses := false }
  destinations := {
    dstZones := test.dstZone.elim dstAnyZoneGroup (Group.ofItem "")
    dstAddresses := test.dstAddrGrp.clone
    negateDstAddresses := false }
  services := test.svcGrp.clone
  applications := test.appGrp.elim anyApplicationGroup Group.clone
  users := test.usrGrp.elim anyUserGroup Group.clone
  urls := test.urlGrp.elim anyUrlGroup Group.clone
  appDefault := nofun }

/-- The diagram of a test. -/
def testBdd (test : PacketTest) : Bddnode := test.predicate.makeBddOptions test.bddOptions

end PacketTest

namespace PacketTester

/-- The rule matches all packets of the test. -/
def accepts (test : PacketTest) (rule : Rule) : Bool :=
  isSubset test.testBdd (rule.predicate.makeBddOptions test.bddOptions : Bddnode)

/-- Whether the packets of a test are allowed, and by which rule. -/
def isPacketAllowed (acl : RuleList) (test : PacketTest) : Bool × Option Rule :=
  match acl with
  | [] => (false, none)
  | rule :: rules =>
    if accepts test rule then (rule.action == .allow, some rule) else isPacketAllowed rules test

/-! ### What the answer promises -/

/-- The decision of a list for the packets of a test, over the criteria of the test. -/
abbrev decisionOf (acl : RuleList) (test : PacketTest) (pk : Packet) : Option RuleAction :=
  decisionOptions test.bddOptions acl pk

/-- What an answer says about the packets of a test. -/
def Right (acl : RuleList) (test : PacketTest) : Bool × Option Rule → Prop
  | (true, some _) => ∀ pk ∈ packets test.testBdd, decisionOf acl test pk = some .allow
  | (false, some _) => ∀ pk ∈ packets test.testBdd, decisionOf acl test pk = some .deny
  | (_, none) => ∀ pk ∈ packets test.testBdd, decisionOf acl test pk ≠ some .allow

/-- Where a rule of the list has the other action and matches a packet of the test, a rule
before it matches the packet with the given action. -/
def Overruled (acl : RuleList) (test : PacketTest) (action : RuleAction) : Prop :=
  ∀ as o bs, acl = as ++ o :: bs → o.action = action.not → ∀ pk ∈ packets test.testBdd,
    coversOptions test.bddOptions o pk = true →
      ∃ s ∈ as, coversOptions test.bddOptions s pk = true ∧ s.action = action

/-- The rules that match some packets of the test but not all do not matter: those before
the first rule that matches all of them, and, where no rule does, all rules against a denial
at the end. -/
structure OverlapsHarmless (acl : RuleList) (test : PacketTest) : Prop where
  matched : ∀ pre rule post, acl = pre ++ rule :: post → (∀ r ∈ pre, accepts test r = false) →
    accepts test rule = true → Overruled pre test rule.action
  unmatched : (∀ r ∈ acl, accepts test r = false) → Overruled acl test .deny

variable {acl pre post : RuleList} {test : PacketTest} {rule : Rule}

/-- The two ways the search can end. -/
theorem isPacketAllowed_cases (acl : RuleList) (test : PacketTest) :
    (∃ pre rule post, acl = pre ++ rule :: post ∧ (∀ r ∈ pre, accepts test r = false) ∧
        accepts test rule = true ∧
        isPacketAllowed acl test = (rule.action == .allow, some rule)) ∨
      (∀ r ∈ acl, accepts test r = false) ∧ isPacketAllowed acl test = (false, none) := by
  induction acl with
  | nil => exact Or.inr ⟨fun r hr => absurd hr List.not_mem_nil, rfl⟩
  | cons r acl ih =>
    rw [isPacketAllowed]
    cases hr : accepts test r with
    | true => exact Or.inl ⟨[], r, acl, rfl, fun _ h => absurd h List.not_mem_nil, hr, rfl⟩
    | false =>
      rw [if_neg Bool.false_ne_true]
      rcases ih with ⟨pre, rule, post, hacl, hpre, hrule, hanswer⟩ | ⟨hall, hanswer⟩
      · refine Or.inl ⟨r :: pre, rule, post, congrArg (r :: ·) hacl, ?_, hrule, hanswer⟩
        exact List.forall_mem_cons.mpr ⟨hr, hpre⟩
      · exact Or.inr ⟨List.forall_mem_cons.mpr ⟨hr, hall⟩, hanswer⟩

/-- A list of rules decides no packet of the test against an action when the rules with the
other action are overruled. -/
theorem overruled_iff (acl : RuleList) (test : PacketTest) (action : RuleAction) :
    Overruled acl test action ↔
      ∀ pk ∈ packets test.testBdd, decisionOf acl test pk ≠ some action.not := by
  have haction : ∀ s : Rule, s.action ≠ action.not ↔ s.action = action := by
    intro s
    rw [RuleAction.ne_iff, RuleAction.not_not]
  have hpk : ∀ pk, decisionOf acl test pk ≠ some action.not ↔
      ∀ as o bs, acl = as ++ o :: bs → coversOptions test.bddOptions o pk = true →
        o.action = action.not →
          ∃ s ∈ as, coversOptions test.bddOptions s pk = true ∧ s.action = action := by
    intro pk
    rw [FirstMatch.decision_ne_iff]
    simp only [haction]
  simp only [hpk]
  constructor
  · intro h pk hmem as o bs hacl ho hoa
    exact h as o bs hacl hoa pk hmem ho
  · intro h as o bs hacl hoa pk hmem ho
    exact h pk hmem as o bs hacl ho hoa

/-- A rule that matches all packets of the test has the last word on them, unless a rule
before it has the other action. -/
theorem decisionOf_eq_iff (haccepts : accepts test rule = true) {pk : Packet}
    (hpk : pk ∈ packets test.testBdd) :
    decisionOf (pre ++ rule :: post) test pk = some rule.action ↔
      decisionOf pre test pk ≠ some rule.action.not := by
  have hcovers : coversOptions test.bddOptions rule pk = true :=
    decide_eq_true (isSubset_iff.mp haccepts hpk)
  rw [decisionOf, decisionOptions, FirstMatch.decision_append, FirstMatch.decision_cons,
    if_pos hcovers]
  rcases hd : FirstMatch.decision (coversOptions test.bddOptions) Rule.action pre pk with _ | a
  · simp [decisionOf, decisionOptions, hd]
  · rcases a.eq_or_eq_not rule.action with rfl | rfl
    · simp [decisionOf, decisionOptions, hd, (RuleAction.not_ne _).symm]
    · simp [decisionOf, decisionOptions, hd, RuleAction.not_ne]

/-- The rules before the first one that matches all packets are determined by the list. -/
theorem takeWhile_not_accepts (hpre : ∀ r ∈ pre, accepts test r = false)
    (hrule : accepts test rule = true) :
    (pre ++ rule :: post).takeWhile (fun r => !accepts test r) = pre := by
  have hnot : ∀ r ∈ pre, (!accepts test r) = true := fun r hr => by rw [hpre r hr]; rfl
  rw [List.takeWhile_append_of_pos hnot, List.takeWhile_cons_of_neg (by simp [hrule]),
    List.append_nil]

/-- The promise of an answer that names a rule is about the action of the rule. -/
theorem right_some_iff : Right acl test (rule.action == .allow, some rule) ↔
    ∀ pk ∈ packets test.testBdd, decisionOf acl test pk = some rule.action := by
  rcases haction : rule.action with _ | _
  · exact Iff.rfl
  · exact Iff.rfl

/-- **When the answer is right**: exactly when the rules that match a part of the packets
do not matter. -/
theorem answer_sound_iff (acl : RuleList) (test : PacketTest) :
    Right acl test (isPacketAllowed acl test) ↔ OverlapsHarmless acl test := by
  rcases isPacketAllowed_cases acl test with
    ⟨pre, rule, post, hacl, hpre, hrule, hanswer⟩ | ⟨hall, hanswer⟩
  · -- the first rule that matches all packets gives the answer
    have hright : Right acl test (isPacketAllowed acl test) ↔
        Overruled pre test rule.action := by
      rw [hanswer, right_some_iff, overruled_iff, hacl]
      exact forall₂_congr fun pk hpk => decisionOf_eq_iff hrule hpk
    rw [hright]
    constructor
    · intro h
      refine ⟨fun pre' rule' post' hacl' hpre' hrule' => ?_, fun hall => ?_⟩
      · -- the first rule that matches all packets is unique
        have hpre_eq : pre' = pre := by
          rw [← takeWhile_not_accepts hpre' hrule', ← hacl', hacl,
            takeWhile_not_accepts hpre hrule]
        subst hpre_eq
        rw [hacl, List.append_cancel_left_eq, List.cons.injEq] at hacl'
        rw [← hacl'.1]
        exact h
      · -- a rule does match all packets
        have hmem : rule ∈ acl := hacl ▸ List.mem_append_right _ List.mem_cons_self
        rw [hall rule hmem] at hrule
        exact absurd hrule Bool.false_ne_true
    · intro h
      exact h.matched pre rule post hacl hpre hrule
  · -- no rule matches all packets
    rw [hanswer]
    constructor
    · intro h
      refine ⟨fun pre rule post hacl _ hrule => ?_, fun _ => (overruled_iff _ _ _).mpr h⟩
      have hmem : rule ∈ acl := hacl ▸ List.mem_append_right _ List.mem_cons_self
      rw [hall rule hmem] at hrule
      exact absurd hrule Bool.false_ne_true
    · intro h
      exact (overruled_iff _ _ _).mp (h.unmatched hall)

/-! ### A wrong answer -/

/-- The predicate that only restricts the source address. -/
def ofSrcAddresses (range : Range 32) : Predicate := .ofCriteria {
  Criteria.any .ip4Model with
  sources := {
    srcZones := srcAnyZoneGroup
    srcAddresses := Group.ofItem "" ⟨"", .ip4 range⟩
    negateSrcAddresses := false } }

/-- Denies the source addresses 10.0.0.0/25, then allows all of 10.0.0.0/24. -/
def overlapping : RuleList :=
  [⟨1, "", .enabled, .deny, ofSrcAddresses ⟨0x0a000000, 0x0a00007f, by decide, by decide⟩⟩,
    ⟨2, "", .enabled, .allow, ofSrcAddresses ⟨0x0a000000, 0x0a0000ff, by decide, by decide⟩⟩]

/-- Packets from 10.0.0.0/24. -/
def subnetTest : PacketTest where
  srcZone := none
  srcAddrGrp := Group.ofItem "" ⟨"", .ip4 ⟨0x0a000000, 0x0a0000ff, by decide, by decide⟩⟩
  dstZone := none
  dstAddrGrp := dstAnyAddressGroup .ip4Model
  svcGrp := ServiceGroup.any
  appGrp := none
  usrGrp := none
  urlGrp := none

/-- The tester lets a whole subnet pass although the first rule denies half of it. -/
theorem answer_wrong : (∀ rule ∈ overlapping, rule.status = .enabled) ∧
    isPacketAllowed overlapping subnetTest = (true, overlapping[1]?) ∧
      ¬Right overlapping subnetTest (isPacketAllowed overlapping subnetTest) := by
  have hanswer : isPacketAllowed overlapping subnetTest = (true, overlapping[1]?) := by
    decide +kernel
  refine ⟨by decide, hanswer, fun h => ?_⟩
  rw [hanswer] at h
  -- a packet from 10.0.0.1
  have hmem : (Packet.ofValues fun dt => if dt = .srcAddress4 then 0x0a000001 else 0) ∈
      subnetTest.testBdd := by decide +kernel
  exact absurd (h _ hmem) (by decide +kernel)

end PacketTester

end RulesAnalyzer
