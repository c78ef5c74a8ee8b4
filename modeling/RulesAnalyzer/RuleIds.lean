import RulesAnalyzer.Effect.Triple
import RulesAnalyzer.Numbers
import RulesAnalyzer.PolicyReader

/-!
# The ids of the rules

The id of a row is read as a number of 64 bits and kept in one of 32 bits.

## Main definitions

* `PolicyReader.ValidFields` — the fields of a row other than its id are valid.
* `PolicyReader.IdAsWritten` — the id of a rule object is the number of the row.
* `PolicyReader.NumberFits` — the number is not cut to another one.
* `Numbered` — ids that are different and not too small.

## Main results

* `PolicyReader.nextRow_id_iff` — **when the ids of a row are as written.**
* `PolicyReader.IdAsWritten.ne` — rows of different numbers have different ids then.
* `FirewallFactory.triple_load` — **no two rules that a load leaves have the same id.**
-/

namespace RulesAnalyzer

open Csv Effect

namespace PolicyReader

variable {delimiter : Char} {rowNumber : ℕ} {id : String} {fields : CsvValues} {rule : RuleObject}

/-- The fields of a row other than its id are valid. -/
def ValidFields (delimiter : Char) : CsvValues → Prop
  | [_, _, _, srcZones, srcAddresses, srcNegate, dstZones, dstAddresses, dstNegate, services,
      applications, users, urls] =>
    (∀ names ∈ [srcZones, srcAddresses, dstZones, dstAddresses, services, applications, users,
      urls], split names delimiter ≠ []) ∧ ∀ flag ∈ [srcNegate, dstNegate], str2b flag ≠ none
  | _ => False

theorem exists_splitField_iff {text : String} :
    (∃ names, splitField text delimiter = some names) ↔ split text delimiter ≠ [] := by
  unfold splitField
  cases split text delimiter <;> simp

/-- What an accepted row satisfies. -/
theorem of_parseRow (h : parseRow delimiter rowNumber (id :: fields) = some rule) :
    (str2i id = some rule.id ∧ 0 < rule.id) ∧ ValidFields delimiter fields := by
  unfold parseRow at h
  split at h
  · next heq =>
    obtain ⟨rfl, rfl⟩ := List.cons.inj heq
    obtain ⟨k, hk, h⟩ := Option.bind_eq_some_iff.mp h
    obtain ⟨_, hsrcZones, h⟩ := Option.bind_eq_some_iff.mp h
    obtain ⟨_, hsrcAddresses, h⟩ := Option.bind_eq_some_iff.mp h
    obtain ⟨_, hsrcNegate, h⟩ := Option.bind_eq_some_iff.mp h
    obtain ⟨_, hdstZones, h⟩ := Option.bind_eq_some_iff.mp h
    obtain ⟨_, hdstAddresses, h⟩ := Option.bind_eq_some_iff.mp h
    obtain ⟨_, hdstNegate, h⟩ := Option.bind_eq_some_iff.mp h
    obtain ⟨_, hservices, h⟩ := Option.bind_eq_some_iff.mp h
    obtain ⟨_, happlications, h⟩ := Option.bind_eq_some_iff.mp h
    obtain ⟨_, husers, h⟩ := Option.bind_eq_some_iff.mp h
    obtain ⟨_, hurls, hrule⟩ := Option.bind_eq_some_iff.mp h
    obtain ⟨hid, hpos⟩ := Option.filter_eq_some_iff.mp hk
    obtain rfl := Option.some.inj hrule
    refine ⟨⟨hid, by simpa using hpos⟩, ?_, ?_⟩
    · simp only [List.forall_mem_cons, ← exists_splitField_iff]
      exact ⟨⟨_, hsrcZones⟩, ⟨_, hsrcAddresses⟩, ⟨_, hdstZones⟩, ⟨_, hdstAddresses⟩, ⟨_, hservices⟩,
        ⟨_, happlications⟩, ⟨_, husers⟩, ⟨_, hurls⟩, by simp⟩
    · simp [hsrcNegate, hdstNegate]
  · cases h

/-- A row with a positive number and valid fields is accepted. -/
theorem map_id_parseRow {k : ℤ} (hid : str2i id = some k) (hpos : 0 < k)
    (hfields : ValidFields delimiter fields) :
    (parseRow delimiter rowNumber (id :: fields)).map RuleObject.id = some k := by
  unfold ValidFields at hfields
  split at hfields
  · simp only [List.forall_mem_cons, ← exists_splitField_iff, Option.ne_none_iff_exists'] at hfields
    obtain ⟨⟨⟨_, hsrcZones⟩, ⟨_, hsrcAddresses⟩, ⟨_, hdstZones⟩, ⟨_, hdstAddresses⟩,
      ⟨_, hservices⟩, ⟨_, happlications⟩, ⟨_, husers⟩, ⟨_, hurls⟩, -⟩, ⟨_, hsrcNegate⟩,
      ⟨_, hdstNegate⟩, -⟩ := hfields
    have hfilter : (str2i id).filter (fun id => 0 < id) = some k := by
      rw [hid]
      simpa using hpos
    unfold parseRow
    dsimp only
    rw [hfilter, hsrcZones, hsrcAddresses, hsrcNegate, hdstZones, hdstAddresses, hdstNegate,
      hservices, happlications, husers, hurls]
    rfl
  · exact hfields.elim

/-- The id of a rule object is the number of the row, which fits in 32 bits. -/
def IdAsWritten (id : String) (rule : RuleObject) : Prop :=
  ∃ number, numberOf id = some number ∧ 1 ≤ number ∧ number ≤ 2 ^ 31 - 1 ∧ rule.id = number

/-- The number of an id is not cut to another positive number. -/
def NumberFits (id : String) : Prop :=
  ∀ number, numberOf id = some number → number < 2 ^ 31 ∨ number % 2 ^ 32 = 0 ∨
    2 ^ 31 ≤ number % 2 ^ 32

theorem bmod_pos_iff {number : ℤ} :
    0 < number.bmod (2 ^ 32) ↔ number % 2 ^ 32 ≠ 0 ∧ number % 2 ^ 32 < 2 ^ 31 := by
  rw [Int.bmod_def]
  split <;> omega

theorem bmod_eq_self {number : ℤ} (h : 0 ≤ number) (hlt : number < 2 ^ 31) :
    number.bmod (2 ^ 32) = number := by
  rw [Int.bmod_def]
  split <;> omega

/-- **When the ids of a row are as written.**  The rule object of an accepted row has the number
of the row, between 1 and 2^31 - 1, as its id exactly when the other fields are not valid or the
number is not cut to another positive number. -/
theorem nextRow_id_iff {reader reader' : CsvReader} {interrupted : Bool}
    (h : reader.nextRow interrupted = .ok (some (id :: fields), reader')) :
    (∀ rule reader'', nextRow delimiter reader interrupted = .ok (some rule, reader'') →
        IdAsWritten id rule) ↔
      (ValidFields delimiter fields → NumberFits id) := by
  have hrow : nextRow delimiter reader interrupted =
      .ok (parseRow delimiter reader'.rowNumber (id :: fields), reader') := by
    unfold nextRow
    rw [h]
  rw [hrow]
  constructor
  · intro hid hfields number hnumber
    by_contra hcut
    obtain ⟨hlarge, hpos⟩ : 2 ^ 31 ≤ number ∧ 0 < number.bmod (2 ^ 32) := by
      rw [bmod_pos_iff]
      omega
    -- the row is accepted with another number
    have hstr2i := str2i_eq_some_iff.mpr ⟨number, hnumber, by omega, rfl⟩
    obtain ⟨rule, hparse, -⟩ := Option.map_eq_some_iff.mp (map_id_parseRow hstr2i hpos hfields)
    obtain ⟨number', hnumber', -, hle, -⟩ := hid rule reader' (by rw [hparse])
    obtain rfl := Option.some.inj (hnumber.symm.trans hnumber')
    omega
  · intro hfits rule reader'' haccept
    obtain ⟨hparse, -⟩ := Prod.mk.inj (Except.ok.inj haccept)
    obtain ⟨⟨hid, hpos⟩, hfields⟩ := of_parseRow hparse
    obtain ⟨number, hnumber, hmin, hcut⟩ := str2i_eq_some_iff.mp hid
    have hfit := hfits hfields number hnumber
    rw [← hcut, bmod_pos_iff] at hpos
    rw [bmod_eq_self hmin (by omega)] at hcut
    exact ⟨number, hnumber, by omega, by omega, hcut.symm⟩

theorem nextRow_id_witness :
    (∀ rule reader'', nextRow ';' (FirewallFactory.policyReader "7,allow,any,any,any\n".toList)
        false = .ok (some rule, reader'') → IdAsWritten "7" rule) ↔
      (ValidFields ';' ["", "enabled", "allow", "any", "any", "false", "any", "any", "false", "any",
        "any", "any", "any"] → NumberFits "7") := by
  have hrow : (FirewallFactory.policyReader "7,allow,any,any,any\n".toList).nextRow false =
      .ok (some ("7" :: ["", "enabled", "allow", "any", "any", "false", "any", "any", "false",
        "any", "any", "any", "any"]),
        { FirewallFactory.policyReader [] with rowNumber := 2 }) := rfl
  exact nextRow_id_iff hrow

/-- The number 2^32 + 1 is read as the id 1. -/
theorem nextRow_id_cut : numberOf "4294967297" = some 4294967297 ∧
    ∃ rule reader, nextRow ';' (FirewallFactory.policyReader
        "4294967297,allow,any,any,any\n".toList) false = .ok (some rule, reader) ∧
      rule.id = 1 ∧ ¬IdAsWritten "4294967297" rule := by
  have hnumber : numberOf "4294967297" = some 4294967297 := by decide +kernel
  have hrow : (FirewallFactory.policyReader "4294967297,allow,any,any,any\n".toList).nextRow false =
      .ok (some ["4294967297", "", "enabled", "allow", "any", "any", "false", "any", "any", "false",
        "any", "any", "any", "any"], { FirewallFactory.policyReader [] with rowNumber := 2 }) := rfl
  have hparse : (parseRow ';' 2 ["4294967297", "", "enabled", "allow", "any", "any", "false", "any",
      "any", "false", "any", "any", "any", "any"]).map RuleObject.id = some 1 := by
    decide +kernel
  obtain ⟨rule, hparse, hid⟩ := Option.map_eq_some_iff.mp hparse
  refine ⟨hnumber, rule, { FirewallFactory.policyReader [] with rowNumber := 2 }, ?_, hid, ?_⟩
  · unfold nextRow
    rw [hrow]
    exact congrArg (fun row => Except.ok (row, _)) hparse
  · intro hwritten
    obtain ⟨number, hnumber', -, hle, -⟩ := hwritten
    obtain rfl := Option.some.inj (hnumber.symm.trans hnumber')
    omega

/-- Rows of different numbers have different ids then. -/
theorem IdAsWritten.ne {id₁ id₂ : String} {rule₁ rule₂ : RuleObject} (h₁ : IdAsWritten id₁ rule₁)
    (h₂ : IdAsWritten id₂ rule₂) (hne : numberOf id₁ ≠ numberOf id₂) : rule₁.id ≠ rule₂.id := by
  obtain ⟨number₁, hnumber₁, -, -, hid₁⟩ := h₁
  obtain ⟨number₂, hnumber₂, -, -, hid₂⟩ := h₂
  rw [hid₁, hid₂]
  intro heq
  rw [hnumber₁, hnumber₂, heq] at hne
  exact hne rfl

/-- The id of a row that is accepted is positive. -/
theorem nextRow_id_pos {reader reader' : CsvReader} {interrupted : Bool}
    (h : nextRow delimiter reader interrupted = .ok (some rule, reader')) : 0 < rule.id := by
  unfold nextRow at h
  split at h
  · next values reader'' _ =>
    obtain ⟨hparse, -⟩ := Prod.mk.inj (Except.ok.inj h)
    cases values with
    | nil => cases hparse
    | cons id fields => exact (of_parseRow hparse).1.2
  · cases (Prod.mk.inj (Except.ok.inj h)).1
  · cases h

end PolicyReader

/-! ### The ids of the rules that are loaded -/

/-- The ids are different, and none of them is below the least one. -/
def Numbered (least : ℤ) (ids : List ℤ) : Prop := (∀ id ∈ ids, least ≤ id) ∧ ids.Nodup

section Numbered

variable {least id : ℤ} {ids : List ℤ}

theorem numbered_nil : Numbered least [] := ⟨fun _ h => absurd h List.not_mem_nil, List.nodup_nil⟩

theorem Numbered.mono {least' : ℤ} (h : Numbered least ids) (hle : least' ≤ least) :
    Numbered least' ids := ⟨fun id hid => hle.trans (h.1 id hid), h.2⟩

/-- One more id, which is not among the others. -/
theorem Numbered.concat (h : Numbered least ids) (hle : least ≤ id) (hnew : id ∉ ids) :
    Numbered least (ids ++ [id]) := by
  refine ⟨fun id' hid' => ?_, ?_⟩
  · rcases List.mem_append.mp hid' with hold | hlast
    · exact h.1 id' hold
    · rwa [List.mem_singleton.mp hlast]
  · exact h.2.append (List.nodup_singleton id) (List.disjoint_singleton.mpr hnew)

end Numbered

namespace Loading

/-- The rules have different ids from the least one on. -/
def Numbered (least : ℤ) (s : Loading) : Prop :=
  RulesAnalyzer.Numbered least (s.rules.map RuleRef.id)

theorem not_mem_ids {s : Loading} {ruleId : ℤ} (h : s.getRule ruleId = none) :
    ruleId ∉ s.rules.map RuleRef.id := by
  rintro hmem
  obtain ⟨rule, hrule, hid⟩ := List.mem_map.mp hmem
  have hne := List.find?_eq_none.mp h rule (List.mem_reverse.mpr hrule)
  exact hne (beq_iff_eq.mpr hid)

theorem Numbered.addRule {least : ℤ} {s : Loading} (h : s.Numbered least) {rule : RuleRef}
    (hle : least ≤ rule.id) (hnew : rule.id ∉ s.rules.map RuleRef.id) :
    (s.addRule rule).Numbered least := by
  have hconcat := h.concat hle hnew
  rw [Numbered, Loading.addRule, List.map_append]
  exact hconcat

end Loading

namespace FirewallFactory

variable (config : ModelConfig) (store : ObjectStore) (options : LoaderConfig)
  (interrupted : ℕ → Bool)

/-- A row is added with an id that no rule has. -/
theorem triple_addRule {rule : RuleObject} (hpos : 0 < rule.id) :
    Triple (Loading.Numbered 1) (addRule config store rule) (fun _ => Loading.Numbered 1)
      (Loading.Numbered 1) := by
  intro s hs
  have hsame {s' : Loading} {result : Except Fault (CriteriaRef × Bool)}
      (hrun : exec (buildCriteria config store rule) s = (result, s')) : s'.Numbered 1 := by
    rw [Loading.Numbered, (builds_of_exec config store hrun).rules]
    exact hs
  have hadds := addsRule config store rule s
  generalize exec (addRule config store rule) s = outcome at hadds
  cases hadds with
  | malformed _ => exact hs
  | raised _ _ hrun => exact hsame hrun
  | rejected _ _ hrun _ => exact hsame hrun
  | added _ _ hrun hnew =>
    refine (hsame hrun).addRule hpos ?_
    rw [(builds_of_exec config store hrun).rules]
    exact Loading.not_mem_ids hnew

theorem triple_loadRows (depth : ℕ) (reader : CsvReader) :
    Triple (Loading.Numbered 1) (loadRows config store options interrupted depth reader)
      (fun _ => Loading.Numbered 1) (Loading.Numbered 1) := by
  induction depth generalizing reader with
  | zero => exact triple_throw fun _ hs => hs
  | succ depth ih =>
    rw [loadRows]
    refine triple_bind (Q := fun row s => s.Numbered 1 ∧ ∀ rule, row.1 = some rule → 0 < rule.id)
      (triple_ofExcept (fun row hrow s hs => ⟨hs, fun rule hrule => ?_⟩) fun _ hs => hs)
      fun row => ?_
    · have hnext : PolicyReader.nextRow options.csvListDelimiter reader
          (interrupted reader.rowNumber) = .ok (some rule, row.2) := by rw [hrow, ← hrule]
      exact PolicyReader.nextRow_id_pos hnext
    rcases row with ⟨_ | rule, reader'⟩
    · exact triple_pure fun _ hs => hs.1
    · intro s hs
      have hpos : 0 < rule.id := hs.2 rule rfl
      have hnext : Triple (Loading.Numbered 1) (addRule config store rule >>= fun added => do
          modify fun s : Loading => s.count added
          loadRows config store options interrupted depth reader')
          (fun _ => Loading.Numbered 1) (Loading.Numbered 1) :=
        triple_bind (triple_addRule config store hpos) fun added =>
          triple_bind (Q := fun _ => Loading.Numbered 1) (fun _ hs => hs) fun _ => ih reader'
      exact hnext s hs.1

/-- The rule that denies everything has the id that no row has. -/
theorem numbered_finish {s : Loading} (h : s.Numbered 1) :
    (finish config options s).Numbered 0 := by
  rw [finish]
  split
  · have hnew : (0 : ℤ) ∉ s.rules.map RuleRef.id := fun hmem => absurd (h.1 0 hmem) (by decide)
    exact Loading.Numbered.addRule (h.mono (by decide)) le_rfl hnew
  · exact h.mono (by decide)

/-- **No two rules that a load leaves have the same id**, and no id is negative, also when it
raises. -/
theorem triple_load (contents : List Char) :
    Triple (Loading.Numbered 1) (load config store options interrupted contents)
      (fun _ => Loading.Numbered 0) (Loading.Numbered 0) := by
  have hmono (s : Loading) (hs : s.Numbered 1) : s.Numbered 0 := hs.mono (by decide)
  refine triple_bind (Q := fun _ => Loading.Numbered 1)
    (triple_ofExcept (fun _ _ _ hs => hs) hmono) fun reader => ?_
  refine triple_bind (Q := fun _ => Loading.Numbered 1) (fun _ hs => hs) fun _ => ?_
  refine triple_bind ((triple_loadRows config store options interrupted _ reader).mono
    (fun _ hs => hs) (fun _ _ hs => hs) hmono) fun _ => ?_
  refine triple_bind (Q := fun _ => Loading.Numbered 0)
    (fun _ hs => numbered_finish config options hs) fun _ => ?_
  exact triple_get_bind fun s hs => triple_pure fun t ht => ht ▸ hs

end FirewallFactory

end RulesAnalyzer
