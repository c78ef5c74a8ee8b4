import RulesAnalyzer.Numbers
import RulesAnalyzer.ServiceParser

/-!
# The grammar of services

The parser of services leaves blank parts out and reads the numbers with a library
function, so it accepts more than the grammar, and a text without parts makes it
read the first element of an empty list.

## Main definitions

* `ServiceText` — the grammar.
* `LenientText` — the texts that are not refused.
* `TightText` — no part is blank, and the numbers are digits.

## Main results

* `parse_of_serviceText` — the texts of the grammar are accepted.
* `parse_serviceError_iff` — the texts that are refused.
* `parseProtocolPort_iff` — **when a text is accepted as the grammar says.**
-/

namespace RulesAnalyzer

/-! ### The grammar -/

/-- A port, or two with a hyphen between them. -/
inductive PortsText : List Char → Range 16 → Prop
  | port {ports : List Char} {range : Range 16} (hports : IsNumeral ports)
      (hlower : range.lbound = ofDigits ports) (hupper : range.ubound = ofDigits ports) :
      PortsText ports range
  | range {low high : List Char} {range : Range 16} (hlow : IsNumeral low) (hhigh : IsNumeral high)
      (hlower : range.lbound = ofDigits low) (hupper : range.ubound = ofDigits high) :
      PortsText (low ++ '-' :: high) range

/-- A protocol, alone or with ports behind a slash. -/
inductive ServiceText : List Char → ProtocolType → Range 16 → Prop
  | protocol {name : List Char} {pt : ProtocolType}
      (hname : protocolType (String.ofList name) = some pt) : ServiceText name pt (Range.full 16)
  | ports {name ports : List Char} {pt : ProtocolType} {range : Range 16}
      (hname : protocolType (String.ofList name) = some pt) (hports : PortsText ports range) :
      ServiceText (name ++ '/' :: ports) pt range

/-- The ports that are not refused: blank parts do not count. -/
def LenientPorts (ports : String) : Prop :=
  match split ports '-' with
  | [] => True
  | [first] => ∃ number, str2num first 0 65535 = some number
  | [first, second] => ∃ low high, str2num first 0 65535 = some low ∧
      str2num second 0 65535 = some high ∧ low ≤ high
  | _ => False

/-- The texts that are not refused: blank parts do not count. -/
def LenientText (text : String) : Prop :=
  text ≠ "" ∧
    match split text '/' with
    | [] => True
    | [name] => protocolType name ≠ none
    | [name, ports] => protocolType name ≠ none ∧ LenientPorts ports
    | _ => False

/-- No part is blank, and the ports are written with digits. -/
def TightText (text : String) : Prop :=
  (∀ part ∈ text.toList.splitOn '/', trim part ≠ []) ∧
    ∀ ports ∈ (text.toList.splitOn '/').tail, ∀ part ∈ ports.splitOn '-', IsNumeral part

/-! ### Names and numbers -/

theorem notMem_of_iequal {name word : String} {c : Char} (h : iequal name word = true)
    (hc : c.toLower ∉ word.toList.map Char.toLower) : c ∉ name.toList := by
  intro hmem
  unfold iequal at h
  rw [beq_iff_eq] at h
  exact hc (h ▸ List.mem_map_of_mem hmem)

/-- The name of a protocol has neither a slash nor a blank. -/
theorem notMem_protocolType {name : String} {pt : ProtocolType} (h : protocolType name = some pt) :
    '/' ∉ name.toList ∧ trim name.toList ≠ [] := by
  have hword : ∃ word ∈ ["tcp", "udp", "icmp"], iequal name word = true := by
    unfold protocolType at h
    split at h
    · exact ⟨"tcp", by simp, by assumption⟩
    split at h
    · exact ⟨"udp", by simp, by assumption⟩
    split at h
    · exact ⟨"icmp", by simp, by assumption⟩
    · cases h
  obtain ⟨word, hword, hequal⟩ := hword
  -- letters are neither, whatever their case
  have hletters : ∀ word ∈ ["tcp", "udp", "icmp"], word.toList ≠ [] ∧
      ['/', ' ', '\t'].all (fun c => !(word.toList.map Char.toLower).contains c.toLower) = true :=
    by decide
  have hnot : ∀ c ∈ ['/', ' ', '\t'], c ∉ name.toList := by
    intro c hc
    have hletter := List.all_eq_true.mp (hletters word hword).2 c hc
    exact notMem_of_iequal hequal (by simpa using hletter)
  refine ⟨hnot '/' (by simp), ?_⟩
  intro hnil
  have hempty : name.toList = [] := by
    apply List.eq_nil_iff_forall_not_mem.mpr
    intro c hc
    have hblank := trim_eq_nil_iff.mp hnil c hc
    unfold isBlank at hblank
    rcases (Bool.or_eq_true _ _).mp hblank with hspace | htab
    · exact hnot ' ' (by simp) (by simpa using (beq_iff_eq.mp hspace) ▸ hc)
    · exact hnot '\t' (by simp) (by simpa using (beq_iff_eq.mp htab) ▸ hc)
  unfold iequal at hequal
  rw [hempty, beq_iff_eq, List.map_nil, eq_comm, List.map_eq_nil_iff] at hequal
  exact (hletters word hword).1 hequal

/-- A number of digits that fits is read. -/
theorem str2num_numeral {text : List Char} (h : IsNumeral text) (hle : ofDigits text < 2 ^ 16) :
    str2num (String.ofList text) 0 65535 = some (ofDigits text : ℤ) := by
  rw [str2num_eq_some_iff, numberOf_numeral (by rwa [String.toList_ofList]), String.toList_ofList,
    if_pos (by omega)]
  exact ⟨rfl, by omega, by omega⟩

theorem of_str2num_numeral {text : List Char} {number : ℤ} (h : IsNumeral text)
    (hread : str2num (String.ofList text) 0 65535 = some number) :
    ofDigits text < 2 ^ 16 ∧ number = ofDigits text := by
  obtain ⟨hnumber, hmin, hmax⟩ := str2num_eq_some_iff.mp hread
  rw [numberOf_numeral (by rwa [String.toList_ofList]), String.toList_ofList] at hnumber
  split at hnumber
  · obtain rfl := Option.some.inj hnumber
    exact ⟨by omega, rfl⟩
  · cases hnumber

/-! ### The ports -/

/-- One number is a range of one port. -/
theorem parsePortRange_one {ports first : String} (h : split ports '-' = [first]) :
    (str2num first 0 65535 = none ∧ parsePortRange ports 65535 = .ok none) ∨
      ∃ (number : ℕ) (range : Range 16), str2num first 0 65535 = some (number : ℤ) ∧
        range.lbound = number ∧ range.ubound = number ∧
          parsePortRange ports 65535 = .ok (some range) := by
  have heq : parsePortRange ports 65535 = .ok ((str2num first 0 65535).bind fun lvalue =>
      if h : lvalue.toNat < 2 ^ 16 then some (Range.singleton lvalue.toNat h) else none) := by
    unfold parsePortRange
    rw [h]
    rfl
  rw [heq]
  cases hfirst : str2num first 0 65535 with
  | none => exact Or.inl ⟨rfl, rfl⟩
  | some number =>
    obtain ⟨-, hmin, hmax⟩ := str2num_eq_some_iff.mp hfirst
    obtain ⟨number, rfl⟩ := Int.eq_ofNat_of_zero_le hmin
    have hlt : number < 2 ^ 16 := by omega
    exact Or.inr ⟨number, Range.singleton number hlt, rfl, rfl, rfl, congrArg _ (dif_pos hlt)⟩

/-- Two numbers are a range when the first one is not larger. -/
theorem parsePortRange_two {ports first second : String} (h : split ports '-' = [first, second]) :
    ((∀ low high, str2num first 0 65535 = some low → str2num second 0 65535 = some high →
        high < low) ∧ parsePortRange ports 65535 = .ok none) ∨
      ∃ (low high : ℕ) (range : Range 16), str2num first 0 65535 = some (low : ℤ) ∧
        str2num second 0 65535 = some (high : ℤ) ∧ range.lbound = low ∧ range.ubound = high ∧
          parsePortRange ports 65535 = .ok (some range) := by
  have heq : parsePortRange ports 65535 = .ok ((str2num first 0 65535).bind fun lvalue =>
      (str2num second 0 65535).bind fun uvalue =>
        if h : lvalue.toNat ≤ uvalue.toNat ∧ uvalue.toNat < 2 ^ 16 then
          some ⟨lvalue.toNat, uvalue.toNat, h.1, h.2⟩
        else none) := by
    unfold parsePortRange
    rw [h]
    rfl
  -- one of the numbers is bad, or they are in order or not
  rw [heq]
  cases hfirst : str2num first 0 65535 with
  | none => exact Or.inl ⟨by simp, rfl⟩
  | some low =>
    cases hsecond : str2num second 0 65535 with
    | none => exact Or.inl ⟨by simp, rfl⟩
    | some high =>
      obtain ⟨-, hmin, -⟩ := str2num_eq_some_iff.mp hfirst
      obtain ⟨-, hmin', hmax'⟩ := str2num_eq_some_iff.mp hsecond
      obtain ⟨low, rfl⟩ := Int.eq_ofNat_of_zero_le hmin
      obtain ⟨high, rfl⟩ := Int.eq_ofNat_of_zero_le hmin'
      by_cases hle : low ≤ high
      · have hrange : low ≤ high ∧ high < 2 ^ 16 := ⟨hle, by omega⟩
        exact Or.inr ⟨low, high, ⟨low, high, hrange.1, hrange.2⟩, rfl, rfl, rfl, rfl,
          congrArg _ (dif_pos hrange)⟩
      · refine Or.inl ⟨?_, congrArg _ (dif_neg fun hrange => hle hrange.1)⟩
        simp only [Option.some.injEq]
        omega

/-- The ports that are refused. -/
theorem parsePortRange_none_iff {ports : String} :
    parsePortRange ports 65535 = .ok none ↔ ¬LenientPorts ports := by
  unfold LenientPorts
  rcases hsplit : split ports '-' with _ | ⟨first, _ | ⟨second, _ | ⟨third, rest⟩⟩⟩
  · simp [parsePortRange, hsplit]
  · rcases parsePortRange_one hsplit with ⟨hnone, hparse⟩ | ⟨number, range, hnumber, -, -, hparse⟩
    · simp [hparse, hnone]
    · simp [hparse, hnumber]
  · rcases parsePortRange_two hsplit with
      ⟨hlt, hparse⟩ | ⟨low, high, range, hlow, hhigh, hl, hu, hparse⟩
    · rw [hparse]
      refine iff_of_true rfl ?_
      rintro ⟨low, high, hlow, hhigh, hle⟩
      have hgt := hlt low high hlow hhigh
      omega
    · have hle := range.lbound_le
      rw [hl, hu] at hle
      simp [hparse, hlow, hhigh, hle]
  · simp [parsePortRange, hsplit]

theorem splitOn_numeral {ports : List Char} (h : IsNumeral ports) :
    ports.splitOn '-' = [ports] := splitOn_one (notMem_numeral h (by decide))

theorem splitOn_numerals {low high : List Char} (hlow : IsNumeral low) (hhigh : IsNumeral high) :
    (low ++ '-' :: high).splitOn '-' = [low, high] :=
  splitOn_two (notMem_numeral hlow (by decide)) (notMem_numeral hhigh (by decide))

theorem split_numeral {ports : List Char} (h : IsNumeral ports) :
    split (String.ofList ports) '-' = [String.ofList ports] :=
  split_ofList (splitOn_numeral h) (by simpa using trim_numeral h)

theorem split_numerals {low high : List Char} (hlow : IsNumeral low) (hhigh : IsNumeral high) :
    split (String.ofList (low ++ '-' :: high)) '-' = [String.ofList low, String.ofList high] :=
  split_ofList (splitOn_numerals hlow hhigh)
    (by simpa using ⟨trim_numeral hlow, trim_numeral hhigh⟩)

/-- A range of the grammar is read as it is written.  Its numerals are numbers, and in order. -/
theorem parsePortRange_of_portsText {ports : List Char} {range : Range 16}
    (h : PortsText ports range) :
    parsePortRange (String.ofList ports) 65535 = .ok (some range) := by
  obtain ⟨lbound, ubound, hle, hlt⟩ := range
  cases h with
  | port hports hlower hupper =>
    obtain rfl : lbound = ofDigits ports := hlower
    obtain rfl : ubound = ofDigits ports := hupper
    have hnumber := str2num_numeral hports hlt
    -- the number that is read is the one that was written
    rcases parsePortRange_one (split_numeral hports) with
      ⟨hnone, -⟩ | ⟨number, ⟨l, u, _, _⟩, hread, hl, hu, hparse⟩
    · rw [hnumber] at hnone
      cases hnone
    · obtain rfl := Int.ofNat_inj.mp (Option.some.inj (hnumber.symm.trans hread))
      obtain rfl : l = ofDigits ports := hl
      obtain rfl : u = ofDigits ports := hu
      exact hparse
  | @range low high _ hlow hhigh hlower hupper =>
    obtain rfl : lbound = ofDigits low := hlower
    obtain rfl : ubound = ofDigits high := hupper
    have hnumber := str2num_numeral hlow (hle.trans_lt hlt)
    have hnumber' := str2num_numeral hhigh hlt
    rcases parsePortRange_two (split_numerals hlow hhigh) with
      ⟨hgt, -⟩ | ⟨n, n', ⟨l, u, _, _⟩, hread, hread', hl, hu, hparse⟩
    · have hlt' := hgt _ _ hnumber hnumber'
      omega
    · obtain rfl := Int.ofNat_inj.mp (Option.some.inj (hnumber.symm.trans hread))
      obtain rfl := Int.ofNat_inj.mp (Option.some.inj (hnumber'.symm.trans hread'))
      obtain rfl : l = ofDigits low := hl
      obtain rfl : u = ofDigits high := hu
      exact hparse

/-- Ports that are not refused, without a blank part and with digits only, are in the grammar. -/
theorem exists_portsText {ports : List Char} (hlenient : LenientPorts (String.ofList ports))
    (htight : ∀ part ∈ ports.splitOn '-', IsNumeral part) : ∃ range, PortsText ports range := by
  have hports : ['-'].intercalate (ports.splitOn '-') = ports := List.intercalate_splitOn '-'
  have hne := List.splitOn_ne_nil '-' ports
  unfold LenientPorts at hlenient
  rw [split_ofList rfl fun part hpart => trim_numeral (htight part hpart)] at hlenient
  generalize ports.splitOn '-' = parts at hports hne htight hlenient
  rcases parts with _ | ⟨first, _ | ⟨second, _ | ⟨third, rest⟩⟩⟩
  · exact absurd rfl hne
  · obtain ⟨number, hnumber⟩ := hlenient
    have hfirst := htight first (by simp)
    obtain ⟨hlt, -⟩ := of_str2num_numeral hfirst hnumber
    obtain rfl : first = ports := by simpa using hports
    exact ⟨Range.singleton _ hlt, .port hfirst rfl rfl⟩
  · obtain ⟨low, high, hlow, hhigh, hle⟩ := hlenient
    have hfirst := htight first (by simp)
    have hsecond := htight second (by simp)
    obtain ⟨-, rfl⟩ := of_str2num_numeral hfirst hlow
    obtain ⟨hlt, rfl⟩ := of_str2num_numeral hsecond hhigh
    obtain rfl : first ++ '-' :: second = ports := by simpa [List.intercalate] using hports
    exact ⟨⟨_, _, Int.ofNat_le.mp hle, hlt⟩, .range hfirst hsecond rfl rfl⟩
  · exact hlenient.elim

/-! ### The texts -/

theorem notMem_portsText {ports : List Char} {range : Range 16} (h : PortsText ports range) :
    '/' ∉ ports ∧ trim ports ≠ [] ∧ ∀ part ∈ ports.splitOn '-', IsNumeral part := by
  cases h with
  | port hports _ _ =>
    refine ⟨notMem_numeral hports (by decide), trim_numeral hports, ?_⟩
    rw [splitOn_numeral hports]
    simpa using hports
  | range hlow hhigh _ _ =>
    refine ⟨?_, ?_, ?_⟩
    · simp [notMem_numeral hlow, notMem_numeral hhigh]
    · intro hnil
      have hblank := trim_eq_nil_iff.mp hnil '-' (by simp)
      cases hblank
    · rw [splitOn_numerals hlow hhigh]
      simpa using ⟨hlow, hhigh⟩

theorem splitOn_protocol {name : List Char} {pt : ProtocolType}
    (h : protocolType (String.ofList name) = some pt) :
    name.splitOn '/' = [name] ∧ '/' ∉ name ∧ trim name ≠ [] := by
  have hnot := notMem_protocolType h
  rw [String.toList_ofList] at hnot
  exact ⟨splitOn_one hnot.1, hnot⟩

/-- The segments of a text of the grammar. -/
theorem segments_of_serviceText {text : List Char} {pt : ProtocolType} {range : Range 16}
    (h : ServiceText text pt range) : ∃ name, protocolType (String.ofList name) = some pt ∧
      trim name ≠ [] ∧ ((text.splitOn '/' = [name] ∧ range = Range.full 16) ∨
        ∃ ports, text.splitOn '/' = [name, ports] ∧ PortsText ports range) := by
  cases h with
  | protocol hname =>
    obtain ⟨hparts, -, hblank⟩ := splitOn_protocol hname
    exact ⟨_, hname, hblank, Or.inl ⟨hparts, rfl⟩⟩
  | ports hname hports =>
    obtain ⟨-, hslash, hblank⟩ := splitOn_protocol hname
    obtain ⟨hslash', -, -⟩ := notMem_portsText hports
    exact ⟨_, hname, hblank, Or.inr ⟨_, splitOn_two hslash hslash', hports⟩⟩

/-- The texts of the grammar have no blank part. -/
theorem tight_of_serviceText {text : String} {pt : ProtocolType} {range : Range 16}
    (h : ServiceText text.toList pt range) : TightText text := by
  unfold TightText
  obtain ⟨name, -, hblank, ⟨hparts, -⟩ | ⟨ports, hparts, hports⟩⟩ := segments_of_serviceText h
  · simpa [hparts] using hblank
  · obtain ⟨-, hblank', hdigits⟩ := notMem_portsText hports
    rw [hparts]
    exact ⟨by simpa using ⟨hblank, hblank'⟩, by simpa using hdigits⟩

theorem isEmpty_of_split {text : String} {delim : Char} {part : String} {parts : List String}
    (h : split text delim = part :: parts) : text.isEmpty = false := by
  cases hempty : text.isEmpty with
  | false => rfl
  | true =>
    rw [String.isEmpty_iff.mp hempty] at h
    simp [split, trim] at h

/-- **The texts of the grammar are accepted.** -/
theorem parse_of_serviceText {text : String} {pt : ProtocolType} {range : Range 16}
    (h : ServiceText text.toList pt range) : parseProtocolPort text = .ok (pt, range) := by
  obtain ⟨name, hname, hblank, ⟨hparts, rfl⟩ | ⟨ports, hparts, hports⟩⟩ := segments_of_serviceText h
  · have hsplit : split text '/' = [String.ofList name] := by
      rw [← String.ofList_toList (s := text)]
      exact split_ofList hparts (by simpa using hblank)
    unfold parseProtocolPort
    rw [isEmpty_of_split hsplit, hsplit]
    dsimp only
    rw [hname]
    rfl
  · obtain ⟨-, hblank', -⟩ := notMem_portsText hports
    have hsplit : split text '/' = [String.ofList name, String.ofList ports] := by
      rw [← String.ofList_toList (s := text)]
      exact split_ofList hparts (by simpa using ⟨hblank, hblank'⟩)
    unfold parseProtocolPort
    rw [isEmpty_of_split hsplit, hsplit]
    dsimp only
    rw [hname, parsePortRange_of_portsText hports]
    rfl

theorem parsePortRange_error {ports : String} {fault : Fault}
    (h : parsePortRange ports 65535 = .error fault) : fault = .undefined := by
  unfold parsePortRange at h
  split at h
  · exact (Except.error.inj h).symm
  all_goals cases h

/-- The texts that are refused. -/
theorem parse_serviceError_iff {text : String} :
    parseProtocolPort text = .error (.serviceError text) ↔ ¬LenientText text := by
  unfold LenientText parseProtocolPort
  by_cases hempty : text = ""
  · simp [hempty]
  rw [if_neg (by simpa using hempty)]
  rcases split text '/' with _ | ⟨name, _ | ⟨ports, _ | ⟨third, rest⟩⟩⟩
  · simp [hempty]
  · dsimp only
    cases protocolType name <;> simp [hempty]
  · dsimp only
    cases protocolType name with
    | none => simp
    | some pt =>
      have hnone := @parsePortRange_none_iff ports
      rcases hports : parsePortRange ports 65535 with fault | _ | range
      · obtain rfl := parsePortRange_error hports
        simpa [hempty, hports] using hnone
      · simpa [hempty, hports] using hnone
      · simpa [hempty, hports] using hnone
  · simp

/-- A text that is not refused, without a blank part and with digits only, is in the grammar. -/
theorem exists_serviceText {text : String} (hlenient : LenientText text) (htight : TightText text) :
    ∃ pt range, ServiceText text.toList pt range := by
  have htext : ['/'].intercalate (text.toList.splitOn '/') = text.toList :=
    List.intercalate_splitOn '/'
  have hne := List.splitOn_ne_nil '/' text.toList
  obtain ⟨-, hlenient⟩ := hlenient
  obtain ⟨hblank, hdigits⟩ := htight
  rw [← String.ofList_toList (s := text), split_ofList rfl hblank] at hlenient
  generalize text.toList.splitOn '/' = parts at htext hne hblank hdigits hlenient
  rcases parts with _ | ⟨name, _ | ⟨ports, _ | ⟨third, rest⟩⟩⟩
  · exact absurd rfl hne
  · obtain ⟨pt, hname⟩ := Option.ne_none_iff_exists'.mp hlenient
    obtain rfl : name = text.toList := by simpa using htext
    exact ⟨pt, _, .protocol hname⟩
  · obtain ⟨hname, hports⟩ := hlenient
    obtain ⟨pt, hname⟩ := Option.ne_none_iff_exists'.mp hname
    obtain ⟨range, hrange⟩ := exists_portsText hports (hdigits ports (by simp))
    have htext' : name ++ '/' :: ports = text.toList := by simpa [List.intercalate] using htext
    rw [← htext']
    exact ⟨pt, range, .ports hname hrange⟩
  · exact hlenient.elim

/-- **When a text is accepted as the grammar says.**  A text is read as the grammar says, and
refused with the error when it is not in the grammar, exactly when it is refused for its parts that
are not blank, or none of its parts is blank and its ports are written with digits. -/
theorem parseProtocolPort_iff (text : String) :
    ((∀ pt range, parseProtocolPort text = .ok (pt, range) ↔ ServiceText text.toList pt range) ∧
      ∀ fault, parseProtocolPort text = .error fault → fault = .serviceError text) ↔
      (LenientText text → TightText text) := by
  constructor
  · intro hclaim hlenient
    obtain ⟨haccept, hrefuse⟩ := hclaim
    -- a text that is accepted is in the grammar, and those of the grammar are tight
    cases hparse : parseProtocolPort text with
    | error fault =>
      obtain rfl := hrefuse fault hparse
      exact absurd hlenient (parse_serviceError_iff.mp hparse)
    | ok result => exact tight_of_serviceText ((haccept result.1 result.2).mp hparse)
  · intro htight
    by_cases hlenient : LenientText text
    · -- lenient and tight texts are those of the grammar, which are all accepted
      obtain ⟨pt, range, htext⟩ := exists_serviceText hlenient (htight hlenient)
      have hparse := parse_of_serviceText htext
      refine ⟨?_, ?_⟩
      · intro pt' range'
        refine ⟨?_, parse_of_serviceText⟩
        intro haccept
        obtain ⟨rfl, rfl⟩ := Prod.mk.inj (Except.ok.inj (hparse.symm.trans haccept))
        exact htext
      · intro fault hfault
        rw [hparse] at hfault
        cases hfault
    · -- other texts are refused, and the grammar has none of them
      have hparse := parse_serviceError_iff.mpr hlenient
      refine ⟨?_, ?_⟩
      · intro pt range
        refine iff_of_false ?_ ?_
        · rw [hparse]
          intro haccept
          cases haccept
        · intro htext
          rw [parse_of_serviceText htext] at hparse
          cases hparse
      · intro fault hfault
        exact Except.error.inj (hfault.symm.trans hparse)

/-- Two slashes count as one, and a slash alone makes the parser read what is not there. -/
theorem parseProtocolPort_slashes :
    parseProtocolPort "tcp//80" = .ok (.tcp, ⟨80, 80, le_rfl, by decide⟩) ∧
    ¬ServiceText "tcp//80".toList .tcp ⟨80, 80, le_rfl, by decide⟩ ∧
    parseProtocolPort "/" = .error .undefined := by
  refine ⟨by decide, ?_, by decide⟩
  intro htext
  have htight := (tight_of_serviceText htext).1 [] (by decide)
  exact htight rfl

end RulesAnalyzer
