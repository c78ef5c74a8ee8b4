import RulesAnalyzer.AddressBlocks
import RulesAnalyzer.Numbers

/-!
# Printed addresses

A range of addresses is printed as a single address, as an address with a number of bits when
its size is a power of two, as an address with a count when it is short, and as two addresses
otherwise.  The form with the number of bits only looks at the size of the range.

## Main definitions

* `InetNtop`, `ReadsBack` — the library functions that print one address.
* `Range.isPowerOf2`, `Range.addressType` — the tests on the size of a range.
* `Range.toText`, `Ipv4Range.toText`, `Ipv6Range.toText` — the printed text.
* `ReadsAs` — how the parser reads the text of a range.

## Main results

* `isPowerOf2_iff` — the test of the code finds the sizes that are powers of two.
* `printed_readsAs` — **what is read back**: without strict parsing every range, with strict
  parsing those that are not printed with a number of bits, or are the block of their lower bound.
-/

namespace RulesAnalyzer

open Shared

/-- `inet_ntop` for the two families, in host order; nothing when it fails. -/
structure InetNtop where
  encodeIpv4Address : BitVec 32 → Option String
  encodeIpv6Address : BitVec 128 → Option String

/-! ### The number of bits that are set -/

/-- The loop of `bit_count`; a number of `nbits` bits is zero after as many shifts. -/
def bitCountLoop : ℕ → ℕ → ℕ → ℕ
  | 0, _, count => count
  | nbits + 1, value, count =>
    if value = 0 then count
    else bitCountLoop nbits (value >>> 1) (if value &&& 1 = 1 then count + 1 else count)

/-- The number of bits that are set. -/
def bitCount (nbits value : ℕ) : ℕ := bitCountLoop nbits value 0

theorem bitCountLoop_two_pow_sub_one {nbits k : ℕ} (hk : k ≤ nbits) (count : ℕ) :
    bitCountLoop nbits (2 ^ k - 1) count = count + k := by
  induction nbits generalizing k count with
  | zero =>
    obtain rfl := Nat.le_zero.mp hk
    rfl
  | succ nbits ih =>
    cases k with
    | zero => rfl
    | succ k =>
      have hpos := Nat.two_pow_pos k
      have hshift : (2 ^ (k + 1) - 1) >>> 1 = 2 ^ k - 1 := by
        rw [Nat.shiftRight_one]
        omega
      have hodd : (2 ^ (k + 1) - 1) &&& 1 = 1 := by
        rw [Nat.and_one_is_mod]
        omega
      rw [bitCountLoop, if_neg (by omega), hshift, if_pos hodd, ih (Nat.le_of_succ_le_succ hk)]
      omega

theorem bitCount_two_pow_sub_one {nbits k : ℕ} (hk : k ≤ nbits) :
    bitCount nbits (2 ^ k - 1) = k := by
  rw [bitCount, bitCountLoop_two_pow_sub_one hk, Nat.zero_add]

/-! ### The printed text -/

namespace Range

variable {w : ℕ}

/-- The distance between the bounds. -/
def diff (r : Range w) : ℕ := r.ubound - r.lbound

/-- The size is a power of two.  One is not added to the largest distance. -/
def isPowerOf2 (r : Range w) : Bool :=
  if r.diff = 0 then true
  else if r.diff = 2 ^ w - 1 then true
  else (r.diff + 1) &&& r.diff == 0

/-- How an address with the range is written, which is what `IpAddress::at` answers. -/
def addressType (r : Range w) : IPAddressType :=
  if r.isSingleton then .address
  else if r.isPowerOf2 then .subnet
  else .range

/-- The lower bound as an address. -/
def lower (r : Range w) : BitVec w := BitVec.ofNat w r.lbound

/-- The upper bound as an address. -/
def upper (r : Range w) : BitVec w := BitVec.ofNat w r.ubound

/-- The number of bits that is printed. -/
def prefixLength (r : Range w) : ℕ := w - bitCount w r.diff

/-- The text of a range, given how an address is printed and what is raised when that fails. -/
def toText (encodeAddress : BitVec w → Option String) (what : String) (r : Range w) :
    Except Fault String :=
  match encodeAddress r.lower with
  | none => .error (.runtimeError what)
  | some lowAddress =>
    if r.isSingleton then .ok lowAddress
    else if r.isPowerOf2 then .ok (lowAddress ++ "/" ++ toString r.prefixLength)
    else if r.diff < 1024 then .ok (lowAddress ++ "+" ++ toString r.diff)
    else
      match encodeAddress r.upper with
      | none => .error (.runtimeError what)
      | some highAddress => .ok (lowAddress ++ "-" ++ highAddress)

/-- A range of the first addresses as a range of 32 bits. -/
def narrow (r : Range 128) (h : r.ubound < 2 ^ 32) : Range 32 :=
  ⟨r.lbound, r.ubound, r.lbound_le, h⟩

end Range

/-- The text of a range of IPv4 addresses. -/
def Ipv4Range.toText (ntop : InetNtop) (r : Range 32) : Except Fault String :=
  r.toText ntop.encodeIpv4Address "error in encode_ipv4_address"

/-- A range of IPv6 addresses, which may be printed as IPv4 addresses when they fit. -/
structure Ipv6Range where
  range : Range 128
  ipv4Format : Bool
  fits : ipv4Format = true → range.ubound < 2 ^ 32

/-- The text of a range of IPv6 addresses. -/
def Ipv6Range.toText (ntop : InetNtop) (r : Ipv6Range) : Except Fault String :=
  if h : r.ipv4Format = true then Ipv4Range.toText ntop (r.range.narrow (r.fits h))
  else r.range.toText ntop.encodeIpv6Address "error in encode_ipv6_address"

/-! ### The size of a range -/

section

variable {w k : ℕ} {r : Range w}

theorem Range.ubound_eq (r : Range w) : r.ubound = r.lbound + r.diff := by
  have hle := r.lbound_le
  unfold diff
  omega

theorem Range.isSingleton_iff : r.isSingleton = true ↔ r.diff = 0 := by
  have hle := r.lbound_le
  rw [isSingleton, beq_iff_eq]
  unfold diff
  omega

/-- **The test of the code finds the sizes that are powers of two.** -/
theorem isPowerOf2_iff : r.isPowerOf2 = true ↔ ∃ k ≤ w, r.diff + 1 = 2 ^ k := by
  have hand : (r.diff + 1) &&& r.diff = 0 ↔ ∃ k, r.diff + 1 = 2 ^ k :=
    Nat.and_sub_one_eq_zero_iff_isPowerOfTwo (Nat.succ_ne_zero r.diff)
  have hpos := Nat.two_pow_pos w
  have hlt : r.diff + 1 ≤ 2 ^ w := (Nat.sub_le _ _).trans_lt r.ubound_lt
  unfold Range.isPowerOf2
  split
  · next hzero => exact iff_of_true rfl ⟨0, Nat.zero_le w, by rw [hzero, Nat.pow_zero]⟩
  split
  · next hall => exact iff_of_true rfl ⟨w, le_rfl, by omega⟩
  rw [beq_iff_eq, hand]
  constructor
  · intro h
    obtain ⟨k, hk⟩ := h
    rw [hk] at hlt
    exact ⟨k, (Nat.pow_le_pow_iff_right (by decide)).mp hlt, hk⟩
  · intro h
    obtain ⟨k, -, hk⟩ := h
    exact ⟨k, hk⟩

/-- An address is a subnet when its size is a power of two above one. -/
theorem addressType_eq_subnet_iff :
    r.addressType = .subnet ↔ ∃ k, 0 < k ∧ k ≤ w ∧ r.diff + 1 = 2 ^ k := by
  unfold Range.addressType
  by_cases hsingle : r.isSingleton = true
  · rw [if_pos hsingle]
    refine iff_of_false (by simp) ?_
    intro h
    obtain ⟨k, hpos, -, hk⟩ := h
    rw [Range.isSingleton_iff.mp hsingle] at hk
    have htwo := Nat.pow_le_pow_right (show 0 < 2 by decide) hpos
    omega
  · rw [if_neg hsingle]
    rw [Range.isSingleton_iff] at hsingle
    by_cases hpower : r.isPowerOf2 = true
    · rw [if_pos hpower]
      refine iff_of_true rfl ?_
      obtain ⟨k, hle, hk⟩ := isPowerOf2_iff.mp hpower
      refine ⟨k, Nat.pos_of_ne_zero ?_, hle, hk⟩
      rintro rfl
      rw [Nat.pow_zero] at hk
      omega
    · rw [if_neg hpower]
      refine iff_of_false (by simp) ?_
      intro h
      obtain ⟨k, -, hle, hk⟩ := h
      exact hpower (isPowerOf2_iff.mpr ⟨k, hle, hk⟩)

theorem prefixLength_eq (hk : k ≤ w) (h : r.diff + 1 = 2 ^ k) : r.prefixLength = w - k := by
  have hdiff : r.diff = 2 ^ k - 1 := by omega
  rw [Range.prefixLength, hdiff, bitCount_two_pow_sub_one hk]

theorem toNat_lower : r.lower.toNat = r.lbound := by
  rw [Range.lower, BitVec.toNat_ofNat, Nat.mod_eq_of_lt r.lbound_lt]

theorem toNat_upper : r.upper.toNat = r.ubound := by
  rw [Range.upper, BitVec.toNat_ofNat, Nat.mod_eq_of_lt r.ubound_lt]

/-- The complement of the mask reaches from the lower bound to the upper one. -/
theorem lower_add_not (hk : k ≤ w) (h : r.diff + 1 = 2 ^ k) :
    r.lower + ~~~prefixMask w r.prefixLength = r.upper := by
  have hlt := r.ubound_lt
  have hupper := r.ubound_eq
  rw [prefixLength_eq hk h, prefixMask_eq, Nat.sub_sub_self hk]
  apply BitVec.eq_of_toNat_eq
  rw [BitVec.toNat_add, toNat_not_allOnes_shiftLeft hk, toNat_lower, toNat_upper,
    Nat.mod_eq_of_lt (by omega)]
  omega

end

/-! ### Reading the text back -/

/-- The characters of a printed address: hexadecimal digits, points and colons. -/
def isAddressChar (c : Char) : Bool := c.isDigit || "abcdef.:".toList.contains c

/-- A printed address is not empty and has no other characters. -/
def IsAddressText (text : String) : Prop :=
  text ≠ "" ∧ ∀ c ∈ text.toList, isAddressChar c = true

instance (text : String) : Decidable (IsAddressText text) :=
  decidable_of_iff (text ≠ "" ∧ text.toList.all isAddressChar = true) (by simp [IsAddressText])

/-- The address is printed, and the text is read as the same address. -/
def ReadsBack {w : ℕ} (encodeAddress : BitVec w → Option String)
    (decodeAddress : String → Option (BitVec w)) (address : BitVec w) : Prop :=
  ∃ text, encodeAddress address = some text ∧ decodeAddress text = some address ∧
    IsAddressText text

/-- The range is the block of its lower bound for the number of bits that is printed. -/
def Range.IsPrefixBlock {w : ℕ} (r : Range w) : Prop :=
  ∀ x : BitVec w, x.toNat ∈ r ↔
    x &&& prefixMask w r.prefixLength = r.lower &&& prefixMask w r.prefixLength

/-- How the parser reads the text of a range. -/
structure ReadsAs {w : ℕ} (decode : String → Bool → Except Fault (NetworkAddress w)) (r : Range w)
    (text : String) : Prop where
  /-- Without strict parsing, as the range. -/
  lenient : ∃ result, decode text false = .ok result ∧ result.range = r ∧
    result.type = r.addressType
  /-- With strict parsing too, but a range with a number of bits has to be the block. -/
  strict : (r.addressType = .subnet → r.IsPrefixBlock) → ∃ result, decode text true = .ok result ∧
    result.range = r ∧ result.type = r.addressType
  /-- Otherwise the text is refused. -/
  refused : r.addressType = .subnet → ¬r.IsPrefixBlock →
    decode text true = .error (.ipAddressError text "host bits set")

section

variable {w : ℕ} {decodeAddress decodeMask : String → Option (BitVec w)} {r : Range w}
  {low high text : String} {strict : Bool}

theorem IsAddressText.notMem {c : Char} (h : IsAddressText text) (hc : isAddressChar c = false) :
    c ∉ text.toList := by
  intro hmem
  rw [h.2 c hmem] at hc
  cases hc

theorem IsAddressText.trim_ne_nil (h : IsAddressText text) : trim text.toList ≠ [] := by
  intro hnil
  obtain ⟨c, hc⟩ := List.exists_mem_of_ne_nil text.toList (by simpa using h.1)
  have hblank := trim_eq_nil_iff.mp hnil c hc
  rw [isBlank, Bool.or_eq_true, beq_iff_eq, beq_iff_eq] at hblank
  rcases hblank with rfl | rfl
  · exact h.notMem (by decide) hc
  · exact h.notMem (by decide) hc

theorem notMem_delimited {c d : Char} {first second : List Char} (hne : c ≠ d) (hfirst : c ∉ first)
    (hsecond : c ∉ second) : c ∉ first ++ d :: second := by
  simp [hne, hfirst, hsecond]

/-- Two texts with a delimiter between them. -/
theorem split_two {delim : Char} {first second : String}
    (htext : text.toList = first.toList ++ delim :: second.toList)
    (hfirst : delim ∉ first.toList) (hsecond : delim ∉ second.toList)
    (htrim : trim first.toList ≠ []) (htrim' : trim second.toList ≠ []) :
    split text delim = [first, second] := by
  have hsplit := split_ofList (splitOn_two hfirst hsecond) (by simpa using ⟨htrim, htrim'⟩)
  rw [← htext, String.ofList_toList] at hsplit
  simpa using hsplit

/-- The interval of the bounds of a range. -/
theorem range_eq {type : IPAddressType} {hle : r.lower ≤ r.upper} :
    (NetworkAddress.mk type r.lower r.upper hle).range = r := by
  unfold NetworkAddress.range
  simp only [toNat_lower, toNat_upper]

theorem lower_le_upper (r : Range w) : r.lower ≤ r.upper := by
  rw [BitVec.le_def, toNat_lower, toNat_upper]
  exact r.lbound_le

/-- A single address. -/
theorem readsAs_address (hread : decodeAddress low = some r.lower) (hlow : IsAddressText low)
    (hsingle : r.isSingleton = true) :
    ReadsAs (decodeNetworkAddress decodeAddress decodeMask) r low := by
  have htype : r.addressType = .address := if_pos hsingle
  have hupper : r.upper = r.lower := by
    unfold Range.lower Range.upper
    rw [beq_iff_eq.mp hsingle]
  have hdecode : ∀ strict, ∃ result, decodeNetworkAddress decodeAddress decodeMask low strict =
      .ok result ∧ result.range = r ∧ result.type = r.addressType := by
    intro strict
    refine ⟨⟨.address, r.lower, r.lower, BitVec.le_refl _⟩, ?_, ?_, htype.symm⟩
    · rw [decodeNetworkAddress, if_neg (hlow.notMem (by decide)),
        if_neg (hlow.notMem (by decide)), hread]
    · calc
        _ = (NetworkAddress.mk .address r.lower r.upper (lower_le_upper r)).range := by
          simp only [hupper]
        _ = r := range_eq
  exact ⟨hdecode false, fun _ => hdecode true, fun h => by rw [htype] at h; cases h⟩

/-- The test for host bits asks for the block. -/
theorem isPrefixBlock_iff (htype : r.addressType = .subnet) :
    r.IsPrefixBlock ↔ r.lower &&& prefixMask w r.prefixLength = r.lower := by
  obtain ⟨k, -, hle, hk⟩ := addressType_eq_subnet_iff.mp htype
  have hblock : IsBlock ⟨.subnet, r.lower, r.upper, lower_le_upper r⟩ r.lower
      (prefixMask w r.prefixLength) ↔ _ :=
    isBlock_iff_of_bounds rfl (lower_add_not hle hk).symm
  unfold IsBlock at hblock
  rw [range_eq] at hblock
  exact hblock.trans (and_iff_left (contiguous_prefixMask w r.prefixLength))

/-- What the parser does with an address and the number of bits that is printed behind it. -/
theorem decode_subnet (hread : decodeAddress low = some r.lower) (hlow : IsAddressText low)
    (hmask : decodeMask (toString r.prefixLength) = some (prefixMask w r.prefixLength))
    (htype : r.addressType = .subnet)
    (htext : text.toList = low.toList ++ '/' :: (toString r.prefixLength).toList) :
    decodeNetworkAddress decodeAddress decodeMask text strict =
      if strict = true ∧ r.lower &&& prefixMask w r.prefixLength ≠ r.lower then
        .error (.ipAddressError text "host bits set")
      else .ok ⟨.subnet, r.lower, r.upper, lower_le_upper r⟩ := by
  have hnumeral := isNumeral_toString r.prefixLength
  have hsplit := split_two htext (hlow.notMem (by decide)) (notMem_numeral hnumeral (by decide))
    hlow.trim_ne_nil (trim_numeral hnumeral)
  have hslash : '/' ∈ text.toList := by
    rw [htext]
    simp
  obtain ⟨k, hpos, hle, hk⟩ := addressType_eq_subnet_iff.mp htype
  have hlt : r.upper > r.lower := by
    have htwo := Nat.pow_le_pow_right (show 0 < 2 by decide) hpos
    have hupper := r.ubound_eq
    rw [gt_iff_lt, BitVec.lt_def, toNat_lower, toNat_upper]
    omega
  rw [decodeNetworkAddress, if_pos hslash, hsplit]
  simp only [hread, hmask, lower_add_not hle hk]
  by_cases hhost : strict = true ∧ r.lower &&& prefixMask w r.prefixLength ≠ r.lower
  · rw [if_pos hhost, if_pos hhost]
  · rw [if_neg hhost, if_neg hhost, dif_neg (BitVec.not_lt.mpr (lower_le_upper r))]
    simp only [if_pos hlt]

/-- An address with a number of bits. -/
theorem readsAs_subnet (hread : decodeAddress low = some r.lower) (hlow : IsAddressText low)
    (hmask : decodeMask (toString r.prefixLength) = some (prefixMask w r.prefixLength))
    (htype : r.addressType = .subnet)
    (htext : text.toList = low.toList ++ '/' :: (toString r.prefixLength).toList) :
    ReadsAs (decodeNetworkAddress decodeAddress decodeMask) r text where
  lenient := by
    rw [decode_subnet hread hlow hmask htype htext, if_neg (by simp)]
    exact ⟨_, rfl, range_eq, htype.symm⟩
  strict h := by
    have hself := (isPrefixBlock_iff htype).mp (h htype)
    rw [decode_subnet hread hlow hmask htype htext, if_neg (fun hhost => hhost.2 hself)]
    exact ⟨_, rfl, range_eq, htype.symm⟩
  refused _ hblock := by
    rw [isPrefixBlock_iff htype] at hblock
    rw [decode_subnet hread hlow hmask htype htext, if_pos ⟨rfl, hblock⟩]

/-- Two addresses. -/
theorem readsAs_range (hread : decodeAddress low = some r.lower) (hlow : IsAddressText low)
    (hread' : decodeAddress high = some r.upper) (hhigh : IsAddressText high)
    (htype : r.addressType = .range) (htext : text.toList = low.toList ++ '-' :: high.toList) :
    ReadsAs (decodeNetworkAddress decodeAddress decodeMask) r text := by
  have hsplit := split_two htext (hlow.notMem (by decide)) (hhigh.notMem (by decide))
    hlow.trim_ne_nil hhigh.trim_ne_nil
  have hslash : '/' ∉ text.toList := by
    rw [htext]
    exact notMem_delimited (by decide) (hlow.notMem (by decide)) (hhigh.notMem (by decide))
  have hhyphen : '-' ∈ text.toList := by
    rw [htext]
    simp
  have hdecode : ∀ strict, ∃ result, decodeNetworkAddress decodeAddress decodeMask text strict =
      .ok result ∧ result.range = r ∧ result.type = r.addressType := by
    intro strict
    refine ⟨⟨.range, r.lower, r.upper, lower_le_upper r⟩, ?_, range_eq, htype.symm⟩
    rw [decodeNetworkAddress, if_neg hslash, if_pos hhyphen, hsplit]
    simp only [hread, hread']
    exact dif_neg (BitVec.not_lt.mpr (lower_le_upper r))
  exact ⟨hdecode false, fun _ => hdecode true, fun h => by rw [htype] at h; cases h⟩

end

/-! ### The two families -/

/-- What is printed for a range, and how it is read back. -/
structure PrintedText {w : ℕ} (encodeAddress : BitVec w → Option String)
    (decode : String → Bool → Except Fault (NetworkAddress w)) (r : Range w) (text : String) :
    Prop where
  /-- A number of bits is printed for the subnets, -/
  slash_iff : '/' ∈ text.toList ↔ r.addressType = .subnet
  /-- which are the ranges whose size is a power of two above one, -/
  subnet_iff : r.addressType = .subnet ↔ ∃ k, 0 < k ∧ k ≤ w ∧ r.diff + 1 = 2 ^ k
  /-- behind the lower bound. -/
  subnet : r.addressType = .subnet → ∃ lowAddress, encodeAddress r.lower = some lowAddress ∧
    text = lowAddress ++ "/" ++ toString r.prefixLength
  /-- A text without a count is read. -/
  readsAs : '+' ∉ text.toList → ReadsAs decode r text

section

variable {w : ℕ} {encodeAddress : BitVec w → Option String}
  {decodeAddress decodeMask : String → Option (BitVec w)} {r : Range w} {what : String}

theorem toList_delimited {delim : String} (c : Char) (hdelim : delim.toList = [c])
    (first second : String) :
    (first ++ delim ++ second).toList = first.toList ++ c :: second.toList := by
  simp [hdelim]

/-- A text without a number of bits. -/
theorem printedText_of_ne {decode : String → Bool → Except Fault (NetworkAddress w)} {text : String}
    (htype : r.addressType ≠ .subnet) (hslash : '/' ∉ text.toList)
    (hreads : '+' ∉ text.toList → ReadsAs decode r text) :
    PrintedText encodeAddress decode r text where
  slash_iff := iff_of_false hslash htype
  subnet_iff := addressType_eq_subnet_iff
  subnet h := absurd h htype
  readsAs := hreads

/-- A range of one of the families is printed, and read back.  The printer tells the forms apart
by the range and the parser by the delimiters; a count is read by no parser. -/
theorem exists_printedText
    (hmask : ∀ nbits ≤ w, decodeMask (toString nbits) = some (prefixMask w nbits))
    (hlower : ReadsBack encodeAddress decodeAddress r.lower)
    (hupper : ReadsBack encodeAddress decodeAddress r.upper) :
    ∃ text, r.toText encodeAddress what = .ok text ∧
      PrintedText encodeAddress (decodeNetworkAddress decodeAddress decodeMask) r text := by
  obtain ⟨low, hencode, hread, hlow⟩ := hlower
  obtain ⟨high, hencode', hread', hhigh⟩ := hupper
  have hslash : '/' ∉ low.toList := hlow.notMem (by decide)
  have hslash' : '/' ∉ high.toList := hhigh.notMem (by decide)
  unfold Range.toText
  rw [hencode]
  simp only
  -- the branches of the printer: a single address, a block, a count, two bounds
  by_cases hsingle : r.isSingleton = true
  · have htype : r.addressType = .address := if_pos hsingle
    rw [if_pos hsingle]
    -- a single address is read back as it is written
    refine ⟨low, rfl, printedText_of_ne (by simp [htype]) hslash ?_⟩
    exact fun _ => readsAs_address hread hlow hsingle
  by_cases hpower : r.isPowerOf2 = true
  · have htype : r.addressType = .subnet := by
      rw [Range.addressType, if_neg hsingle, if_pos hpower]
    have htext := toList_delimited '/' (rfl : "/".toList = ['/']) low (toString r.prefixLength)
    rw [if_neg hsingle, if_pos hpower]
    refine ⟨_, rfl, iff_of_true (by simp) htype, addressType_eq_subnet_iff,
      fun _ => ⟨low, hencode, rfl⟩, ?_⟩
    exact fun _ => readsAs_subnet hread hlow (hmask _ (Nat.sub_le _ _)) htype htext
  have htype : r.addressType = .range := by
    rw [Range.addressType, if_neg hsingle, if_neg hpower]
  rw [if_neg hsingle, if_neg hpower]
  by_cases hcount : r.diff < 1024
  · -- an address and a count, which no parser reads
    have hdigits := notMem_numeral (isNumeral_toString r.diff) (c := '/') (by decide)
    have htext := toList_delimited '+' (rfl : "+".toList = ['+']) low (toString r.diff)
    rw [if_pos hcount]
    refine ⟨_, rfl, printedText_of_ne (by simp [htype]) ?_ ?_⟩
    · rw [htext]
      exact notMem_delimited (by decide) hslash hdigits
    · intro hplus
      rw [htext] at hplus
      exact absurd (by simp) hplus
  · have htext := toList_delimited '-' (rfl : "-".toList = ['-']) low high
    rw [if_neg hcount, hencode']
    refine ⟨_, rfl, printedText_of_ne (by simp [htype]) ?_ ?_⟩
    · rw [htext]
      exact notMem_delimited (by decide) hslash hslash'
    · exact fun _ => readsAs_range hread hlow hread' hhigh htype htext

end

/-- The number of bits that is printed is read as a mask of IPv4. -/
theorem decodeIpv4Mask_toString (inet : InetPton) {nbits : ℕ} (hle : nbits ≤ 32) :
    decodeIpv4Mask inet (toString nbits) = some (prefixMask 32 nbits) := by
  have hlength : (toString nbits).length ≤ 2 := by
    rw [Nat.toString_eq_repr, Nat.length_repr_le_iff (by decide)]
    omega
  rw [decodeIpv4Mask, if_pos hlength, str2num_toString (by omega) (by decide), Option.map_some,
    Int.toNat_natCast]

/-- The number of bits that is printed is read as a mask of IPv6. -/
theorem decodeIpv6Mask_toString {nbits : ℕ} (hle : nbits ≤ 128) :
    decodeIpv6Mask (toString nbits) = some (prefixMask 128 nbits) := by
  rw [decodeIpv6Mask, str2num_toString (by omega) (by decide), Option.map_some, Int.toNat_natCast]

theorem widen_narrow {r : Range 128} {h : r.ubound < 2 ^ 32} : (r.narrow h).widen = r := rfl

/-- A range of the first addresses is written the same way with 32 bits. -/
theorem addressType_narrow {r : Range 128} {h : r.ubound < 2 ^ 32} :
    (r.narrow h).addressType = r.addressType := by
  have hdiff : (r.narrow h).diff = r.diff := rfl
  have hpower : (r.narrow h).isPowerOf2 = r.isPowerOf2 := by
    rw [Bool.eq_iff_iff, isPowerOf2_iff, isPowerOf2_iff, hdiff]
    constructor
    · intro hnarrow
      obtain ⟨k, hk, hsize⟩ := hnarrow
      exact ⟨k, hk.trans (by decide), hsize⟩
    · intro hwide
      obtain ⟨k, -, hsize⟩ := hwide
      have hlt : r.diff + 1 ≤ 2 ^ 32 := (Nat.sub_le _ _).trans_lt h
      rw [hsize] at hlt
      exact ⟨k, (Nat.pow_le_pow_iff_right (by decide)).mp hlt, hsize⟩
  unfold Range.addressType
  rw [hpower]
  rfl

/-! ### Four decimal numbers -/

/-- The IPv4 addresses as four decimal numbers; no IPv6 address is printed. -/
def InetNtop.dotted : InetNtop where
  encodeIpv4Address address :=
    some (toString (address.toNat / 2 ^ 24) ++ "." ++ toString (address.toNat / 2 ^ 16 % 256) ++
      "." ++ toString (address.toNat / 2 ^ 8 % 256) ++ "." ++ toString (address.toNat % 256))
  encodeIpv6Address _ := none

/-- Four numbers with points between them. -/
theorem split_four (a b c d : ℕ) :
    split (toString a ++ "." ++ toString b ++ "." ++ toString c ++ "." ++ toString d) '.' =
      [toString a, toString b, toString c, toString d] := by
  have hnot : ∀ n : ℕ, '.' ∉ (toString n).toList :=
    fun n => notMem_numeral (isNumeral_toString n) (by decide)
  have htext : toString a ++ "." ++ toString b ++ "." ++ toString c ++ "." ++ toString d =
      String.ofList ((toString a).toList ++ '.' :: ((toString b).toList ++ '.' ::
        ((toString c).toList ++ '.' :: (toString d).toList))) := by
    apply String.toList_injective
    simp
  have hparts : ((toString a).toList ++ '.' :: ((toString b).toList ++ '.' ::
      ((toString c).toList ++ '.' :: (toString d).toList))).splitOn '.' =
      [(toString a).toList, (toString b).toList, (toString c).toList, (toString d).toList] := by
    rw [List.splitOn_append_cons_self_of_not_mem (hnot a),
      List.splitOn_append_cons_self_of_not_mem (hnot b), splitOn_two (hnot c) (hnot d)]
  rw [htext, split_ofList hparts]
  · simp only [List.map_cons, List.map_nil, String.ofList_toList]
  · intro part hpart
    have hnumeral : ∀ n : ℕ, trim (toString n).toList ≠ [] :=
      fun n => trim_numeral (isNumeral_toString n)
    simp only [List.mem_cons, List.not_mem_nil, or_false] at hpart
    rcases hpart with rfl | rfl | rfl | rfl <;> exact hnumeral _

theorem isAddressText_four (a b c d : ℕ) : IsAddressText
    (toString a ++ "." ++ toString b ++ "." ++ toString c ++ "." ++ toString d) := by
  constructor
  · intro h
    have hsplit := split_four a b c d
    rw [h] at hsplit
    exact absurd hsplit (by simp [split, trim])
  · intro x hx
    have hdigits : ∀ n : ℕ, x ∈ (toString n).toList → isAddressChar x = true := by
      intro n hn
      rw [isAddressChar, (isNumeral_toString n).2 x hn, Bool.true_or]
    have hpoint : x ∈ ".".toList → isAddressChar x = true := by
      intro h
      obtain rfl := List.mem_singleton.mp h
      decide
    rw [String.toList_append, String.toList_append, String.toList_append, String.toList_append,
      String.toList_append, String.toList_append] at hx
    simp only [List.mem_append] at hx
    rcases hx with (((((hx | hx) | hx) | hx) | hx) | hx) | hx
    · exact hdigits a hx
    · exact hpoint hx
    · exact hdigits b hx
    · exact hpoint hx
    · exact hdigits c hx
    · exact hpoint hx
    · exact hdigits d hx

/-- Every IPv4 address is printed as four numbers and read back. -/
theorem readsBack_dotted (address : BitVec 32) :
    ReadsBack InetNtop.dotted.encodeIpv4Address InetPton.dotted.decodeIpv4Address address := by
  have hlt := address.isLt
  refine ⟨_, rfl, ?_, isAddressText_four _ _ _ _⟩
  unfold InetPton.dotted
  simp only [split_four, List.map_cons, List.map_nil]
  rw [str2num_toString (by omega) (by decide), str2num_toString (by omega) (by decide),
    str2num_toString (by omega) (by decide), str2num_toString (by omega) (by decide)]
  simp only [Int.toNat_natCast]
  congr 1
  apply BitVec.eq_of_toNat_eq
  rw [BitVec.toNat_ofNat]
  omega

/-- The addresses `2001:db8:2:1::` and `2001:db8:2:1::3` besides those of IPv4. -/
def InetPton.documentation : InetPton where
  decodeIpv4Address := InetPton.dotted.decodeIpv4Address
  decodeIpv6Address text :=
    if text = "2001:db8:2:1::" then some 0x20010db8000200010000000000000000#128
    else if text = "2001:db8:2:1::3" then some 0x20010db8000200010000000000000003#128
    else none

/-- The same addresses, printed. -/
def InetNtop.documentation : InetNtop where
  encodeIpv4Address := InetNtop.dotted.encodeIpv4Address
  encodeIpv6Address address :=
    if address = 0x20010db8000200010000000000000000#128 then some "2001:db8:2:1::"
    else if address = 0x20010db8000200010000000000000003#128 then some "2001:db8:2:1::3"
    else none

/-! ### The two printers -/

/-- **How printed addresses are read back.**  The parser of the family reads every text without a
count as the range.  With strict parsing it refuses the ranges that are printed with a number of
bits but are not the block of their lower bound. -/
theorem printed_readsAs (inet : InetPton) (ntop : InetNtop) :
    (∀ r : Range 32,
      ReadsBack ntop.encodeIpv4Address inet.decodeIpv4Address r.lower →
      ReadsBack ntop.encodeIpv4Address inet.decodeIpv4Address r.upper →
      ∃ text, Ipv4Range.toText ntop r = .ok text ∧
        PrintedText ntop.encodeIpv4Address (decodeIpv4NetworkAddress inet) r text) ∧
    (∀ r : Ipv6Range, r.ipv4Format = false →
      ReadsBack ntop.encodeIpv6Address inet.decodeIpv6Address r.range.lower →
      ReadsBack ntop.encodeIpv6Address inet.decodeIpv6Address r.range.upper →
      ∃ text, r.toText ntop = .ok text ∧
        PrintedText ntop.encodeIpv6Address (decodeIpv6NetworkAddress inet) r.range text) ∧
    ∀ (r : Ipv6Range) (h : r.ipv4Format = true),
      ReadsBack ntop.encodeIpv4Address inet.decodeIpv4Address (r.range.narrow (r.fits h)).lower →
      ReadsBack ntop.encodeIpv4Address inet.decodeIpv4Address (r.range.narrow (r.fits h)).upper →
      ∃ text range, r.toText ntop = .ok text ∧ range.widen = r.range ∧
        range.addressType = r.range.addressType ∧
        PrintedText ntop.encodeIpv4Address (decodeIpv4NetworkAddress inet) range text := by
  refine ⟨?_, ?_, ?_⟩
  · intro r hlower hupper
    -- both families print alike; a mapped address is printed as the IPv4 address that it is
    exact exists_printedText (fun _ => decodeIpv4Mask_toString inet) hlower hupper
  · intro r hformat hlower hupper
    rw [Ipv6Range.toText, dif_neg (by simp [hformat])]
    exact exists_printedText (fun _ => decodeIpv6Mask_toString) hlower hupper
  · intro r hformat hlower hupper
    rw [Ipv6Range.toText, dif_pos hformat]
    obtain ⟨text, htext, hprinted⟩ :=
      exists_printedText (fun _ => decodeIpv4Mask_toString inet) hlower hupper
    exact ⟨text, _, htext, widen_narrow, addressType_narrow, hprinted⟩

theorem printed_readsAs_witness :
    (∃ text, Ipv4Range.toText .documentation ⟨0xc0000201, 0xc0000202, by decide, by decide⟩ =
        .ok text ∧
      PrintedText InetNtop.dotted.encodeIpv4Address (decodeIpv4NetworkAddress .documentation)
        ⟨0xc0000201, 0xc0000202, by decide, by decide⟩ text) ∧
    (∃ text, Ipv6Range.toText .documentation
        ⟨⟨0x20010db8000200010000000000000000, 0x20010db8000200010000000000000003, by decide,
          by decide⟩, false, by simp⟩ = .ok text ∧
      PrintedText InetNtop.documentation.encodeIpv6Address
        (decodeIpv6NetworkAddress .documentation)
        ⟨0x20010db8000200010000000000000000, 0x20010db8000200010000000000000003, by decide,
          by decide⟩ text) ∧
    ∃ text range, Ipv6Range.toText .documentation
        ⟨⟨0x0a000000, 0x0affffff, by decide, by decide⟩, true, by decide⟩ = .ok text ∧
      range.widen = ⟨0x0a000000, 0x0affffff, by decide, by decide⟩ ∧
      range.addressType =
        (⟨0x0a000000, 0x0affffff, by decide, by decide⟩ : Range 128).addressType ∧
      PrintedText InetNtop.dotted.encodeIpv4Address (decodeIpv4NetworkAddress .documentation)
        range text := by
  refine ⟨?_, ?_, ?_⟩
  · exact (printed_readsAs .documentation .documentation).1 _ (readsBack_dotted _)
      (readsBack_dotted _)
  · exact (printed_readsAs .documentation .documentation).2.1 ⟨_, false, by simp⟩ rfl
      ⟨"2001:db8:2:1::", by decide +kernel, by decide +kernel, by decide +kernel⟩
      ⟨"2001:db8:2:1::3", by decide +kernel, by decide +kernel, by decide +kernel⟩
  · exact (printed_readsAs .documentation .documentation).2.2 ⟨_, true, by decide⟩ rfl
      (readsBack_dotted _) (readsBack_dotted _)

/-- A pair of addresses that is not a block is printed with a number of bits, and the strict parser
refuses the text. -/
theorem printed_pair_refused :
    (∀ address, ReadsBack InetNtop.dotted.encodeIpv4Address InetPton.dotted.decodeIpv4Address
      address) ∧
    ∃ r : Range 32, Ipv4Range.toText .dotted r = .ok "192.0.2.1/31" ∧ r.addressType = .subnet ∧
      ¬r.IsPrefixBlock ∧
      ¬∃ result, decodeIpv4NetworkAddress .dotted "192.0.2.1/31" true = .ok result ∧
        result.range = r := by
  refine ⟨readsBack_dotted, ⟨0xc0000201, 0xc0000202, by decide, by decide⟩, by decide +kernel,
    by decide +kernel, ?_, ?_⟩
  · rw [isPrefixBlock_iff (by decide +kernel)]
    decide +kernel
  · intro h
    obtain ⟨result, hresult, -⟩ := h
    have hrefused : decodeIpv4NetworkAddress .dotted "192.0.2.1/31" true =
      .error (.ipAddressError "192.0.2.1/31" "host bits set") := by decide +kernel
    rw [hrefused] at hresult
    cases hresult

end RulesAnalyzer
