import RulesAnalyzer.Rule
import Mathlib.Data.Set.BooleanAlgebra

/-!
# Comparing two rules

The command `show rule` prints the relation of each criterion of two rules.  The
addresses of the first rule are negated when its flag says so; those of the second
rule are taken as they are.

## Main definitions

* `MnodeRelationship.converse` — the relation in the other direction.
* `Predicate.srcAddressesBdd`, `Predicate.dstAddressesBdd` — the addresses, negated or not.
* `RuleComparison.table` — what the command prints.
* `Crossing` — the sets for which it does not matter which of them is negated.

## Main results

* `Mnode.compare_converse` — comparison is symmetric up to the direction.
* `related_compl_iff` — when two sets are related as one of them is to the complement of the other.
* `ruleComparison_iff` — **when the relations of the addresses are those of the negated sets.**
-/

namespace RulesAnalyzer

open Diagram Mnode

/-! ### Relations -/

/-- The relation in the other direction. -/
def MnodeRelationship.converse : MnodeRelationship → MnodeRelationship
  | subset => superset
  | superset => subset
  | relation => relation

/-- `to_string`. -/
def MnodeRelationship.toString : MnodeRelationship → String
  | disjoint => "disjoint"
  | equal => "equal"
  | overlap => "overlap"
  | subset => "subset"
  | superset => "superset"

theorem MnodeRelationship.toString_inj {relation relation' : MnodeRelationship} :
    relation.toString = relation'.toString ↔ relation = relation' := by
  cases relation <;> cases relation' <;> decide

theorem related_converse {A B : Set Packet} {relation : MnodeRelationship}
    (h : Related A B relation) : Related B A relation.converse := by
  cases relation with
  | equal => exact Eq.symm h
  | subset => exact h
  | superset => exact h
  | disjoint =>
    obtain ⟨hab, hba, hdisjoint⟩ := h
    exact ⟨hba, hab, hdisjoint.symm⟩
  | overlap =>
    obtain ⟨hab, hba, hoverlap⟩ := h
    exact ⟨hba, hab, Set.inter_comm A B ▸ hoverlap⟩

/-- **Comparison is symmetric up to the direction.** -/
theorem Mnode.compare_converse {S T : Type} [Mnode S] [Mnode T] (a : S) (b : T) :
    compare b a = (compare a b).converse :=
  compare_iff.mpr (related_converse (compare_iff.mp rfl))

/-- The second set is neither nothing nor everything, and the first one is nothing or everything, or
cuts both the second set and its complement. -/
def Crossing (A B : Set Packet) : Prop :=
  (B.Nonempty ∧ Bᶜ.Nonempty ∧ (A = ∅ ∨ A = Set.univ)) ∨
    ((A ∩ B).Nonempty ∧ (A ∩ Bᶜ).Nonempty ∧ (Aᶜ ∩ B).Nonempty ∧ (Aᶜ ∩ Bᶜ).Nonempty)

theorem not_crossing_self (A : Set Packet) : ¬Crossing A A := by
  rintro (⟨hA, hcompl, rfl | rfl⟩ | ⟨-, hboth, -⟩)
  · exact Set.not_nonempty_empty hA
  · rw [Set.compl_univ] at hcompl
    exact Set.not_nonempty_empty hcompl
  · rw [Set.inter_compl_self] at hboth
    exact Set.not_nonempty_empty hboth

/-- The relation of two sets, read off the parts into which they cut the packets: those in both, in
the first only and in the second only. -/
def PartsRelated (both first second : Prop) : MnodeRelationship → Prop
  | .equal => ¬first ∧ ¬second
  | .subset => ¬first ∧ second
  | .superset => first ∧ ¬second
  | .disjoint => first ∧ second ∧ ¬both
  | .overlap => first ∧ second ∧ both

theorem related_iff_parts {A B : Set Packet} {relation : MnodeRelationship} :
    Related A B relation ↔
      PartsRelated (A ∩ B).Nonempty (A ∩ Bᶜ).Nonempty (Aᶜ ∩ B).Nonempty relation := by
  have hab : A ⊆ B ↔ ¬(A ∩ Bᶜ).Nonempty := by
    rw [← Set.not_disjoint_iff_nonempty_inter, not_not, Set.disjoint_compl_right_iff_subset]
  have hba : B ⊆ A ↔ ¬(Aᶜ ∩ B).Nonempty := by
    rw [← Set.not_disjoint_iff_nonempty_inter, not_not, Set.disjoint_compl_left_iff_subset]
  have hdisjoint : Disjoint A B ↔ ¬(A ∩ B).Nonempty := by
    rw [← Set.not_disjoint_iff_nonempty_inter, not_not]
  -- each relation is a choice of the parts that are empty
  cases relation with
  | equal =>
    show A = B ↔ _
    rw [Set.Subset.antisymm_iff, hab, hba]
    rfl
  | subset =>
    show A ⊂ B ↔ _
    rw [Set.ssubset_def, hab, hba, not_not]
    rfl
  | superset =>
    show B ⊂ A ↔ _
    rw [Set.ssubset_def, hab, hba, not_not, and_comm]
    rfl
  | disjoint =>
    show ¬A ⊆ B ∧ ¬B ⊆ A ∧ Disjoint A B ↔ _
    rw [hab, hba, hdisjoint, not_not, not_not]
    rfl
  | overlap =>
    show ¬A ⊆ B ∧ ¬B ⊆ A ∧ (A ∩ B).Nonempty ↔ _
    rw [hab, hba, not_not, not_not]
    rfl

theorem nonempty_iff_parts (A B : Set Packet) :
    B.Nonempty ↔ (A ∩ B).Nonempty ∨ (Aᶜ ∩ B).Nonempty := by
  rw [← Set.union_nonempty, ← Set.union_inter_distrib_right, Set.union_compl_self, Set.univ_inter]

/-- The same relation after the complement of the second set has exchanged the parts. -/
theorem partsRelated_exchange {both first second neither : Prop}
    (hpacket : (both ∨ second) ∨ first ∨ neither) {relation : MnodeRelationship}
    (h : PartsRelated both first second relation) :
    PartsRelated first both neither relation ↔
      ((both ∨ second) ∧ (first ∨ neither) ∧ (¬(both ∨ first) ∨ ¬(second ∨ neither))) ∨
        (both ∧ first ∧ second ∧ neither) := by
  cases relation <;> simp only [PartsRelated] at h ⊢ <;> grind

/-- **When two sets are related as one of them is to the complement of the other.** -/
theorem related_compl_iff {A B : Set Packet} {relation : MnodeRelationship}
    (h : Related A B relation) : Related A Bᶜ relation ↔ Crossing A B := by
  have hempty : A = ∅ ↔ ¬((A ∩ B).Nonempty ∨ (A ∩ Bᶜ).Nonempty) := by
    rw [← Set.union_nonempty, ← Set.inter_union_distrib_left, Set.union_compl_self, Set.inter_univ,
      Set.not_nonempty_iff_eq_empty]
  have huniv : A = Set.univ ↔ ¬((Aᶜ ∩ B).Nonempty ∨ (Aᶜ ∩ Bᶜ).Nonempty) := by
    rw [← Set.union_nonempty, ← Set.inter_union_distrib_left, Set.union_compl_self, Set.inter_univ,
      Set.not_nonempty_iff_eq_empty, Set.compl_empty_iff]
  -- There is a packet, and it is in one of the four parts.
  have hpacket : (B.Nonempty ∨ Bᶜ.Nonempty) := by
    rw [← Set.union_nonempty, Set.union_compl_self]
    exact ⟨fun _ => false, trivial⟩
  rw [nonempty_iff_parts A B, nonempty_iff_parts A Bᶜ] at hpacket
  rw [related_iff_parts] at h ⊢
  rw [compl_compl]
  unfold Crossing
  rw [nonempty_iff_parts A B, nonempty_iff_parts A Bᶜ, hempty, huniv]
  exact partsRelated_exchange hpacket h

theorem packets_negateIf {T : Type} [Mnode T] (b : T) (negate : Bool) :
    packets (negateIf b negate) = if negate then (packets b)ᶜ else packets b := by
  cases negate with
  | false => rfl
  | true =>
    ext pk
    simp only [mem_packets, makeBdd_bddnode, mem_negateIf, if_true, Set.mem_compl_iff]
    simp

/-- The relation of a set and one that is not negated is that of the negated one. -/
theorem related_negateIf_iff {S T : Type} [Mnode S] [Mnode T] (a : S) (b : T) (negate : Bool) :
    Related (packets a) (packets (negateIf b negate)) (compare a b) ↔
      (negate = true → Crossing (packets a) (packets b)) := by
  have hraw : Related (packets a) (packets b) (compare a b) := compare_iff.mp rfl
  rw [packets_negateIf]
  cases negate with
  | false => exact iff_of_true hraw fun h => by cases h
  | true => exact (related_compl_iff hraw).trans ⟨fun h _ => h, fun h => h rfl⟩

/-! ### The command -/

/-- The source addresses of a rule, negated when its flag says so. -/
def Predicate.srcAddressesBdd (p : Predicate) : Bddnode :=
  negateIf p.srcAddresses p.negateSrcAddresses

/-- The destination addresses of a rule, negated when its flag says so. -/
def Predicate.dstAddressesBdd (p : Predicate) : Bddnode :=
  negateIf p.dstAddresses p.negateDstAddresses

/-- The relation of two rules. -/
def Rule.compare (rule other : Rule) : MnodeRelationship :=
  Mnode.compare (negateIf rule.predicate (rule.action == .deny))
    (negateIf other.predicate (other.action == .deny))

namespace RuleComparison

/-- The line that says how two rules are related. -/
def relationMessage (ruleId₀ : ℤ) (relation : MnodeRelationship) (ruleId₁ : ℤ) : String :=
  match relation with
  | .equal => toString ruleId₀ ++ " and " ++ toString ruleId₁ ++ " are equal"
  | .subset => toString ruleId₀ ++ " is subset of " ++ toString ruleId₁
  | .superset => toString ruleId₀ ++ " is superset of " ++ toString ruleId₁
  | .disjoint => toString ruleId₀ ++ " and " ++ toString ruleId₁ ++ " are disjoint"
  | .overlap => toString ruleId₀ ++ " overlaps with " ++ toString ruleId₁

/-- The two attributes are equal, or not. -/
def equalOrDifferent (equal : Bool) : String := if equal then "equal" else "different"

/-- The relation that is printed for the source addresses. -/
def srcAddresses (predicate₀ predicate₁ : Predicate) : MnodeRelationship :=
  Mnode.compare predicate₀.srcAddressesBdd predicate₁.srcAddresses

/-- The relation that is printed for the destination addresses. -/
def dstAddresses (predicate₀ predicate₁ : Predicate) : MnodeRelationship :=
  Mnode.compare predicate₀.dstAddressesBdd predicate₁.dstAddresses

/-- The column of the comparison, one cell for each row. -/
def table (options : ModelOptions) (rule₀ rule₁ : Rule) : List String :=
  let p₀ := rule₀.predicate
  let p₁ := rule₁.predicate
  [relationMessage rule₀.id (rule₀.compare rule₁) rule₁.id,
    equalOrDifferent (rule₀.status == rule₁.status),
    equalOrDifferent (rule₀.action == rule₁.action),
    (Mnode.compare p₀.srcZones p₁.srcZones).toString,
    (Mnode.compare p₀.dstZones p₁.dstZones).toString,
    (srcAddresses p₀ p₁).toString,
    (dstAddresses p₀ p₁).toString,
    (Mnode.compare p₀.services p₁.services).toString] ++
  (if .application ∈ options then
    [(Mnode.compare p₀.applications p₁.applications).toString] else []) ++
  (if .user ∈ options then [(Mnode.compare p₀.users p₁.users).toString] else []) ++
  (if .url ∈ options then [(Mnode.compare p₀.urls p₁.urls).toString] else [])

/-- A cell has the relation of two sets. -/
def Prints (cell : Option String) (A B : Set Packet) : Prop :=
  ∃ relation, cell = some relation.toString ∧ Related A B relation

/-- The cells of the addresses have the relations of the addresses, negated or not. -/
def AddressesRight (options : ModelOptions) (rule₀ rule₁ : Rule) : Prop :=
  Prints (table options rule₀ rule₁)[5]? (packets rule₀.predicate.srcAddressesBdd)
      (packets rule₁.predicate.srcAddressesBdd) ∧
    Prints (table options rule₀ rule₁)[6]? (packets rule₀.predicate.dstAddressesBdd)
      (packets rule₁.predicate.dstAddressesBdd)

/-- Where the addresses of the second rule are negated, that does not matter for the relation. -/
def NegationUnseen (rule₀ rule₁ : Rule) : Prop :=
  (rule₁.predicate.negateSrcAddresses = true →
      Crossing (packets rule₀.predicate.srcAddressesBdd) (packets rule₁.predicate.srcAddresses)) ∧
    (rule₁.predicate.negateDstAddresses = true →
      Crossing (packets rule₀.predicate.dstAddressesBdd) (packets rule₁.predicate.dstAddresses))

/-- The cells of the addresses have the relations in the other direction after an exchange of the
rules. -/
def AddressesConverse (options : ModelOptions) (rule₀ rule₁ : Rule) : Prop :=
  ∀ row ∈ [5, 6], ∃ relation : MnodeRelationship,
    (table options rule₀ rule₁)[row]? = some relation.toString ∧
      (table options rule₁ rule₀)[row]? = some relation.converse.toString

theorem getElem?_table (options : ModelOptions) (rule₀ rule₁ : Rule) :
    (table options rule₀ rule₁)[5]? =
        some (srcAddresses rule₀.predicate rule₁.predicate).toString ∧
      (table options rule₀ rule₁)[6]? =
        some (dstAddresses rule₀.predicate rule₁.predicate).toString := ⟨rfl, rfl⟩

theorem prints_iff {relation : MnodeRelationship} {A B : Set Packet} :
    Prints (some relation.toString) A B ↔ Related A B relation := by
  constructor
  · rintro ⟨relation', hcell, hrelated⟩
    obtain rfl := MnodeRelationship.toString_inj.mp (Option.some.inj hcell)
    exact hrelated
  · exact fun hrelated => ⟨relation, rfl, hrelated⟩

theorem addressesRight_iff (options : ModelOptions) (rule₀ rule₁ : Rule) :
    AddressesRight options rule₀ rule₁ ↔ NegationUnseen rule₀ rule₁ := by
  obtain ⟨hsrc, hdst⟩ := getElem?_table options rule₀ rule₁
  unfold AddressesRight
  rw [hsrc, hdst, prints_iff, prints_iff]
  exact and_congr (related_negateIf_iff ..) (related_negateIf_iff ..)

theorem related_unique {A B : Set Packet} {relation relation' : MnodeRelationship}
    (h : Related A B relation) (h' : Related A B relation') : relation = relation' := by
  rw [related_iff_parts] at h h'
  revert h h'
  cases relation <;> cases relation' <;> simp only [PartsRelated] <;> grind

theorem addressesConverse_of_right {options : ModelOptions} {rule₀ rule₁ : Rule}
    (h : AddressesRight options rule₀ rule₁) (h' : AddressesRight options rule₁ rule₀) :
    AddressesConverse options rule₀ rule₁ := by
  intro row hrow
  obtain ⟨⟨src, hsrc, hsrcRelated⟩, dst, hdst, hdstRelated⟩ := h
  obtain ⟨⟨src', hsrc', hsrcRelated'⟩, dst', hdst', hdstRelated'⟩ := h'
  rcases List.mem_pair.mp hrow with rfl | rfl
  · exact ⟨src, hsrc, related_unique hsrcRelated' (related_converse hsrcRelated) ▸ hsrc'⟩
  · exact ⟨dst, hdst, related_unique hdstRelated' (related_converse hdstRelated) ▸ hdst'⟩

end RuleComparison

open RuleComparison

/-- The relations of the addresses are right just when the negation of the second rule does not
matter, and they are right in both directions, and converse to each other, just when neither
does. -/
theorem ruleComparison_iff (options : ModelOptions) (rule₀ rule₁ : Rule) :
    (AddressesRight options rule₀ rule₁ ↔ NegationUnseen rule₀ rule₁) ∧
      ((AddressesRight options rule₀ rule₁ ∧ AddressesRight options rule₁ rule₀ ∧
          AddressesConverse options rule₀ rule₁) ↔
        NegationUnseen rule₀ rule₁ ∧ NegationUnseen rule₁ rule₀) := by
  refine ⟨addressesRight_iff options rule₀ rule₁, ?_⟩
  rw [← addressesRight_iff options rule₀ rule₁, ← addressesRight_iff options rule₁ rule₀]
  constructor
  · rintro ⟨h, h', -⟩
    exact ⟨h, h'⟩
  · rintro ⟨h, h'⟩
    exact ⟨h, h', addressesConverse_of_right h h'⟩

/-- An enabled rule for the packets from an address, or for those from elsewhere. -/
def Rule.ofSrcAddress (id : ℤ) (negate : Bool) : Rule :=
  ⟨id, "", .enabled, .allow, .ofCriteria {
    Criteria.any .ip4Model with
    sources := {
      srcZones := srcAnyZoneGroup
      srcAddresses := (Group.empty "$root").addItem ⟨"host", .ip4 (Range.singleton 1 one_lt_ip4)⟩
      negateSrcAddresses := negate } }⟩

/-- The addresses of a rule and the other addresses are called equal. -/
theorem ruleComparison_negated :
    ¬AddressesRight ∅ (Rule.ofSrcAddress 1 false) (Rule.ofSrcAddress 2 true) := by
  rw [addressesRight_iff]
  intro h
  exact not_crossing_self _ (h.1 rfl)

end RulesAnalyzer
