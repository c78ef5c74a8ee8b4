import RulesAnalyzer.AddressParser
import RulesAnalyzer.Shared.Blocks

/-!
# The blocks the parser reads

A text with a slash is a number and a mask, and stands for the numbers that agree with the
first one on the mask.  The parser returns the interval from the number itself to the
number plus the complement of the mask.

## Main definitions

* `NetworkAndMask` — the two numbers of a text with a slash.
* `IsBlock` — the numbers of the returned interval are those of the mask.

## Main results

* `decodeNetworkAddress_slash` — what the parser returns for a text with a slash.
* `isBlock_of_strict` — strict parsing of an IPv6 text returns the block.
* `isBlock_iff` — **when the interval is the block**: the number has no host bits, and the mask
  is ones followed by zeros.  A number of bits always is.
-/

namespace RulesAnalyzer

open Shared

section

variable {w : ℕ}

/-- The text is a number and a mask, with a slash between them. -/
def NetworkAndMask (decodeAddress decodeMask : String → Option (BitVec w)) (addr : String)
    (network mask : BitVec w) : Prop :=
  ∃ first second, split addr '/' = [first, second] ∧ decodeAddress first = some network ∧
    decodeMask second = some mask

/-- The numbers of the interval are those that agree with the network on the mask. -/
def IsBlock (result : NetworkAddress w) (network mask : BitVec w) : Prop :=
  ∀ x : BitVec w, x.toNat ∈ result.range ↔ x &&& mask = network &&& mask

variable {decodeAddress decodeMask : String → Option (BitVec w)} {addr : String} {strict : Bool}
  {result : NetworkAddress w} {network mask : BitVec w}

/-- A text has at most one number and one mask. -/
theorem NetworkAndMask.unique {network' mask' : BitVec w}
    (h : NetworkAndMask decodeAddress decodeMask addr network mask)
    (h' : NetworkAndMask decodeAddress decodeMask addr network' mask') :
    network = network' ∧ mask = mask' := by
  obtain ⟨first, second, hsplit, hfirst, hsecond⟩ := h
  obtain ⟨first', second', hsplit', hfirst', hsecond'⟩ := h'
  rw [hsplit, List.cons.injEq, List.cons.injEq] at hsplit'
  obtain ⟨rfl, rfl, -⟩ := hsplit'
  exact ⟨Option.some.inj (hfirst.symm.trans hfirst'), Option.some.inj (hsecond.symm.trans hsecond')⟩

/-- What the parser returns for a text with a slash. -/
theorem decodeNetworkAddress_slash (hslash : '/' ∈ addr.toList)
    (h : decodeNetworkAddress decodeAddress decodeMask addr strict = .ok result) :
    ∃ network mask, NetworkAndMask decodeAddress decodeMask addr network mask ∧
      (strict = true → network &&& mask = network) ∧
      result.lower = network ∧ result.upper = network + ~~~mask := by
  rw [decodeNetworkAddress, if_pos hslash] at h
  split at h
  · next first second hsplit =>
    split at h
    · next network mask hfirst hsecond =>
      split at h
      · cases h
      · next hstrict =>
        simp only at h
        split at h
        · cases h
        · obtain rfl := Except.ok.inj h
          refine ⟨network, mask, ⟨first, second, hsplit, hfirst, hsecond⟩, ?_, rfl, rfl⟩
          intro htrue
          by_contra hne
          exact hstrict ⟨htrue, hne⟩
    · cases h
  · cases h

/-- The interval is the block when the number has no host bits and the mask is contiguous. -/
theorem isBlock_iff_of_bounds (hlower : result.lower = network)
    (hupper : result.upper = network + ~~~mask) :
    IsBlock result network mask ↔ network &&& mask = network ∧ Contiguous mask := by
  rw [← forall_and_eq_and_iff, ← hupper, ← hlower]
  exact Iff.rfl

end

/-! ### Numbers of bits -/

/-- The mask of a number of bits, as a shift to the left. -/
theorem prefixMask_eq (w nbits : ℕ) : prefixMask w nbits = BitVec.allOnes w <<< (w - nbits) := by
  apply BitVec.eq_of_getLsbD_eq
  intro i hi
  rw [getLsbD_allOnes_shiftLeft, prefixMask]
  split
  · rw [BitVec.getLsbD_not, BitVec.getLsbD_ushiftRight, BitVec.getLsbD_allOnes, ← decide_not,
      ← Bool.decide_and, ← Bool.decide_and, decide_eq_decide]
    omega
  · rw [BitVec.getLsbD_allOnes, ← Bool.decide_and, decide_eq_decide]
    omega

theorem contiguous_prefixMask (w nbits : ℕ) : Contiguous (prefixMask w nbits) :=
  ⟨w - nbits, Nat.sub_le w nbits, prefixMask_eq w nbits⟩

theorem contiguous_of_decodeIpv6Mask {text : String} {mask : BitVec 128}
    (h : decodeIpv6Mask text = some mask) : Contiguous mask := by
  obtain ⟨nbits, -, rfl⟩ := Option.map_eq_some_iff.mp h
  exact contiguous_prefixMask 128 nbits.toNat

/-! ### The two parsers -/

/-- With strict parsing, an IPv6 text with a slash always stands for its block. -/
theorem isBlock_of_strict {inet : InetPton} {addr : String} {result : NetworkAddress 128}
    (hslash : '/' ∈ addr.toList) (h : decodeIpv6NetworkAddress inet addr true = .ok result) :
    ∃ network mask, NetworkAndMask inet.decodeIpv6Address decodeIpv6Mask addr network mask ∧
      IsBlock result network mask := by
  obtain ⟨network, mask, hwritten, hstrict, hlower, hupper⟩ := decodeNetworkAddress_slash hslash h
  refine ⟨network, mask, hwritten, ?_⟩
  rw [isBlock_iff_of_bounds hlower hupper]
  obtain ⟨first, second, -, -, hsecond⟩ := hwritten
  exact ⟨hstrict rfl, contiguous_of_decodeIpv6Mask hsecond⟩

/-- **When the parser returns the block of the mask.**  The number has no bits outside of the mask,
and the mask is ones followed by zeros; the masks of IPv6 texts always are. -/
theorem isBlock_iff (inet : InetPton) (addr : String) (strict : Bool)
    (hslash : '/' ∈ addr.toList) :
    (∀ result, decodeIpv4NetworkAddress inet addr strict = .ok result →
      ∃ network mask,
        NetworkAndMask inet.decodeIpv4Address (decodeIpv4Mask inet) addr network mask ∧
        (IsBlock result network mask ↔ network &&& mask = network ∧ Contiguous mask)) ∧
    (∀ result, decodeIpv6NetworkAddress inet addr strict = .ok result →
      ∃ network mask, NetworkAndMask inet.decodeIpv6Address decodeIpv6Mask addr network mask ∧
        (IsBlock result network mask ↔ network &&& mask = network)) := by
  constructor
  · intro result h
    obtain ⟨network, mask, hwritten, -, hlower, hupper⟩ := decodeNetworkAddress_slash hslash h
    exact ⟨network, mask, hwritten, isBlock_iff_of_bounds hlower hupper⟩
  · intro result h
    obtain ⟨network, mask, hwritten, -, hlower, hupper⟩ := decodeNetworkAddress_slash hslash h
    refine ⟨network, mask, hwritten, ?_⟩
    rw [isBlock_iff_of_bounds hlower hupper]
    obtain ⟨first, second, -, -, hsecond⟩ := hwritten
    exact and_iff_left (contiguous_of_decodeIpv6Mask hsecond)

theorem isBlock_iff_witness :
    (decodeIpv4NetworkAddress .dotted "10.0.0.0/8" true).isOk = true ∧
      ∀ result, decodeIpv4NetworkAddress .dotted "10.0.0.0/8" true = .ok result →
        ∃ network mask, NetworkAndMask InetPton.dotted.decodeIpv4Address (decodeIpv4Mask .dotted)
          "10.0.0.0/8" network mask ∧
          (IsBlock result network mask ↔ network &&& mask = network ∧ Contiguous mask) :=
  ⟨by decide +kernel, (isBlock_iff .dotted "10.0.0.0/8" true (by decide)).1⟩

/-- Without strict parsing, host bits move the interval.  With strict parsing, a mask with a hole
still stands for numbers that are not consecutive. -/
theorem subnet_not_isBlock :
    (∃ result, decodeIpv4NetworkAddress .dotted "10.0.0.1/8" false = .ok result ∧
      ¬∃ network mask, NetworkAndMask InetPton.dotted.decodeIpv4Address (decodeIpv4Mask .dotted)
        "10.0.0.1/8" network mask ∧ IsBlock result network mask) ∧
    ∃ result, decodeIpv4NetworkAddress .dotted "10.0.0.0/255.0.255.0" true = .ok result ∧
      ¬∃ network mask, NetworkAndMask InetPton.dotted.decodeIpv4Address (decodeIpv4Mask .dotted)
        "10.0.0.0/255.0.255.0" network mask ∧ IsBlock result network mask := by
  constructor
  · refine ⟨⟨.subnet, 0x0a000001#32, 0x0b000000#32, by decide⟩, by decide +kernel, ?_⟩
    intro h
    obtain ⟨network, mask, hwritten, hblock⟩ := h
    have hread : NetworkAndMask InetPton.dotted.decodeIpv4Address (decodeIpv4Mask .dotted)
        "10.0.0.1/8" 0x0a000001#32 0xff000000#32 :=
      ⟨"10.0.0.1", "8", by decide +kernel, by decide +kernel, by decide +kernel⟩
    obtain ⟨rfl, rfl⟩ := hwritten.unique hread
    -- 10.0.0.0 is in the block, but below the interval
    have hmem := (hblock 0x0a000000#32).mpr (by decide)
    exact absurd hmem.1 (by decide)
  · refine ⟨⟨.subnet, 0x0a000000#32, 0x0aff00ff#32, by decide⟩, by decide +kernel, ?_⟩
    intro h
    obtain ⟨network, mask, hwritten, hblock⟩ := h
    have hread : NetworkAndMask InetPton.dotted.decodeIpv4Address (decodeIpv4Mask .dotted)
        "10.0.0.0/255.0.255.0" 0x0a000000#32 0xff00ff00#32 :=
      ⟨"10.0.0.0", "255.0.255.0", by decide +kernel, by decide +kernel, by decide +kernel⟩
    obtain ⟨rfl, rfl⟩ := hwritten.unique hread
    -- 10.0.1.0 is in the interval, but differs on the mask
    have hmem := (hblock 0x0a000100#32).mp ⟨by decide, by decide⟩
    exact absurd hmem (by decide)

end RulesAnalyzer
