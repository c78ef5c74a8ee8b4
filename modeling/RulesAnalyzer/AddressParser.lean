import RulesAnalyzer.Endpoint
import RulesAnalyzer.Strutil
import Mathlib.Data.BitVec

/-!
# The parser of addresses

An address is written as a single address, as a block with a mask or a number of
bits, or as a range.  The address itself is read by the system library.

## Main definitions

* `InetPton` — the library functions that read one address.
* `decodeIpv4NetworkAddress`, `decodeIpv6NetworkAddress` — the two parsers.
* `isIpAddress`, `getIpAddressType` — the test for an address, and how it is written.
* `IpAddress.create` — the address of a text.

## Main results

* `isIpAddress_of_getIpAddressType` — what has a type passes the test.
* `IpAddress.create_of_isIpAddress` — what passes the test is read without an error.
* `IpAddress.create_eq_ok` — the range of an address only depends on its text.
-/

namespace RulesAnalyzer

/-- `inet_pton` for the two families, in host order. -/
structure InetPton where
  decodeIpv4Address : String → Option (BitVec 32)
  decodeIpv6Address : String → Option (BitVec 128)

/-- The kinds of text that stand for addresses: a single address, a network with a mask, and a range
of two addresses. -/
inductive IPAddressType
  | address
  | subnet
  | range
  deriving DecidableEq, Repr

/-- The bounds of a parsed address. -/
structure NetworkAddress (w : ℕ) where
  type : IPAddressType
  lower : BitVec w
  upper : BitVec w
  lower_le : lower ≤ upper
  deriving DecidableEq

/-- The addresses between the bounds. -/
def NetworkAddress.range {w : ℕ} (a : NetworkAddress w) : Range w :=
  ⟨a.lower.toNat, a.upper.toNat, a.lower_le, a.upper.isLt⟩

/-- The parser of a family, given how it reads an address and what follows a slash. -/
def decodeNetworkAddress {w : ℕ} (decodeAddress decodeMask : String → Option (BitVec w))
    (addr : String) (strict : Bool) : Except Fault (NetworkAddress w) :=
  if '/' ∈ addr.toList then
    match split addr '/' with
    | [first, second] =>
      match decodeAddress first, decodeMask second with
      | some network, some mask =>
        if strict ∧ network &&& mask ≠ network then
          .error (.ipAddressError addr "host bits set")
        else
          let upper := network + ~~~mask
          if h : upper < network then .error (.ipAddressError addr "invalid address")
          else
            .ok ⟨if upper > network then .subnet else .address, network, upper, BitVec.not_lt.mp h⟩
      | _, _ => .error (.ipAddressError addr "invalid format")
    | _ => .error (.ipAddressError addr "format error, multiple /")
  else if '-' ∈ addr.toList then
    match split addr '-' with
    | [first, second] =>
      match decodeAddress first, decodeAddress second with
      | some lower, some upper =>
        if h : lower > upper then .error (.ipAddressError addr "invalid range")
        else .ok ⟨.range, lower, upper, BitVec.not_lt.mp h⟩
      | _, _ => .error (.ipAddressError addr "invalid format")
    | _ => .error (.ipAddressError addr "format error, multiple -")
  else
    match decodeAddress addr with
    | some lower => .ok ⟨.address, lower, lower, BitVec.le_refl lower⟩
    | none => .error (.ipAddressError addr "invalid format")

/-- The mask with the given number of leading ones. -/
def prefixMask (w nbits : ℕ) : BitVec w :=
  if nbits < w then ~~~(BitVec.allOnes w >>> nbits) else BitVec.allOnes w

section Parsers

variable (inet : InetPton)

/-- What follows the slash of an IPv4 block: a number of bits, or a mask. -/
def decodeIpv4Mask (text : String) : Option (BitVec 32) :=
  if text.length ≤ 2 then (str2num text 0 32).map fun nbits => prefixMask 32 nbits.toNat
  else inet.decodeIpv4Address text

/-- What follows the slash of an IPv6 block: a number of bits. -/
def decodeIpv6Mask (text : String) : Option (BitVec 128) :=
  (str2num text 0 128).map fun nbits => prefixMask 128 nbits.toNat

/-- The parser of IPv4 addresses. -/
def decodeIpv4NetworkAddress (addr : String) (strict : Bool) : Except Fault (NetworkAddress 32) :=
  decodeNetworkAddress inet.decodeIpv4Address (decodeIpv4Mask inet) addr strict

/-- The parser of IPv6 addresses. -/
def decodeIpv6NetworkAddress (addr : String) (strict : Bool) : Except Fault (NetworkAddress 128) :=
  decodeNetworkAddress inet.decodeIpv6Address decodeIpv6Mask addr strict

/-- The text is an IPv4 address. -/
def isIpv4NetworkAddress (addr : String) (strict : Bool) : Bool :=
  (decodeIpv4NetworkAddress inet addr strict).isOk

/-- The text is an IPv6 address. -/
def isIpv6NetworkAddress (addr : String) (strict : Bool) : Bool :=
  (decodeIpv6NetworkAddress inet addr strict).isOk

/-- The text is an address of the model.  Without strict parsing, the IPv6 model takes IPv4
addresses too. -/
def isIpAddress (addr : String) (ipModel : IPAddressModel) (strict : Bool) : Bool :=
  match ipModel with
  | .ip4Model => isIpv4NetworkAddress inet addr strict
  | .ip6Model =>
    if strict then isIpv6NetworkAddress inet addr strict
    else isIpv6NetworkAddress inet addr strict || isIpv4NetworkAddress inet addr strict
  | .ip64Model => isIpv6NetworkAddress inet addr strict || isIpv4NetworkAddress inet addr strict

/-- How a text of one of the families is written, IPv6 first. -/
def getEitherType (addr : String) (strict : Bool) : Except Fault IPAddressType :=
  if isIpv6NetworkAddress inet addr strict then
    (decodeIpv6NetworkAddress inet addr strict).map NetworkAddress.type
  else (decodeIpv4NetworkAddress inet addr strict).map NetworkAddress.type

/-- How an address of the model is written. -/
def getIpAddressType (addr : String) (ipModel : IPAddressModel) (strict : Bool) :
    Except Fault IPAddressType :=
  match ipModel with
  | .ip4Model => (decodeIpv4NetworkAddress inet addr strict).map NetworkAddress.type
  | .ip6Model =>
    if strict then (decodeIpv6NetworkAddress inet addr strict).map NetworkAddress.type
    else getEitherType inet addr strict
  | .ip64Model => getEitherType inet addr strict

/-- An IPv4 range as a range of 128 bits. -/
def Range.widen (range : Range 32) : Range 128 :=
  ⟨range.lbound, range.ubound, range.lbound_le, range.ubound_lt.trans (by decide)⟩

/-- The range of a text. -/
def decodeRange (addr : String) (ipModel : IPAddressModel) (strict : Bool) :
    Except Fault IpRange :=
  match ipModel with
  | .ip4Model =>
    (decodeIpv4NetworkAddress inet addr strict).map fun range => .ip4 range.range
  | .ip6Model =>
    if strict then (decodeIpv6NetworkAddress inet addr strict).map fun range => .ip6 range.range
    else
      match decodeIpv6NetworkAddress inet addr strict with
      | .ok range => .ok (.ip6 range.range)
      | .error _ => (decodeIpv4NetworkAddress inet addr strict).map
          fun range => .ip6 range.range.widen
  | .ip64Model =>
    match decodeIpv6NetworkAddress inet addr strict with
    | .ok range => .ok (.ip6 range.range)
    | .error _ => (decodeIpv4NetworkAddress inet addr strict).map fun range => .ip4 range.range

/-- The address of a text, under a name. -/
def IpAddress.create {side : Side} (name addr : String) (ipModel : IPAddressModel)
    (strict : Bool) : Except Fault (IpAddress side) :=
  (decodeRange inet addr ipModel strict).map fun range => ⟨name, range⟩

variable {inet} {addr : String} {ipModel : IPAddressModel} {strict : Bool}

/-- The range of an address only depends on its text. -/
theorem IpAddress.create_eq_ok {side : Side} {name : String} {address : IpAddress side} :
    create inet name addr ipModel strict = .ok address ↔
      address.name = name ∧ decodeRange inet addr ipModel strict = .ok address.range := by
  rw [create]
  cases decodeRange inet addr ipModel strict with
  | error e => exact iff_of_false nofun (fun h => nomatch h.2)
  | ok range =>
    obtain ⟨name', range'⟩ := address
    rw [Except.map, Except.ok.injEq, IpAddress.mk.injEq, Except.ok.injEq, eq_comm (a := name)]

theorem exists_of_isOk {ε α : Type} {r : Except ε α} (h : r.isOk = true) : ∃ a, r = .ok a := by
  cases r with
  | ok a => exact ⟨a, rfl⟩
  | error e => cases h

theorem isOk_of_map_eq_ok {ε α β : Type} {f : α → β} {r : Except ε α} {b : β}
    (h : r.map f = .ok b) : r.isOk = true := by
  cases r with
  | ok a => rfl
  | error e => cases h

theorem isOk_of_getEitherType {type : IPAddressType}
    (h : getEitherType inet addr strict = .ok type) :
    (isIpv6NetworkAddress inet addr strict || isIpv4NetworkAddress inet addr strict) = true := by
  unfold getEitherType at h
  split at h
  · next h6 => rw [h6, Bool.true_or]
  · rw [isIpv4NetworkAddress, isOk_of_map_eq_ok h, Bool.or_true]

/-- **What has a type passes the test for an address.** -/
theorem isIpAddress_of_getIpAddressType {type : IPAddressType}
    (h : getIpAddressType inet addr ipModel strict = .ok type) :
    isIpAddress inet addr ipModel strict = true := by
  unfold getIpAddressType at h
  unfold isIpAddress
  cases ipModel with
  | ip4Model => exact isOk_of_map_eq_ok h
  | ip6Model =>
    cases strict with
    | true => exact isOk_of_map_eq_ok h
    | false => exact isOk_of_getEitherType h
  | ip64Model => exact isOk_of_getEitherType h

/-- The parser for IPv6 texts first, then the other one. -/
theorem exists_decode_or {f : NetworkAddress 128 → IpRange} {g : NetworkAddress 32 → IpRange}
    (h : isIpv6NetworkAddress inet addr strict || isIpv4NetworkAddress inet addr strict) :
    ∃ range, (match decodeIpv6NetworkAddress inet addr strict with
      | .ok range => .ok (f range)
      | .error _ => (decodeIpv4NetworkAddress inet addr strict).map g) =
        (.ok range : Except Fault IpRange) := by
  rw [Bool.or_eq_true] at h
  cases h6 : decodeIpv6NetworkAddress inet addr strict with
  | ok range => exact ⟨f range, rfl⟩
  | error e =>
    rw [isIpv6NetworkAddress, h6] at h
    obtain ⟨range, h4⟩ := exists_of_isOk (h.resolve_left Bool.false_ne_true)
    exact ⟨g range, by rw [h4, Except.map]⟩

theorem exists_decodeRange (h : isIpAddress inet addr ipModel strict = true) :
    ∃ range, decodeRange inet addr ipModel strict = .ok range := by
  unfold isIpAddress at h
  unfold decodeRange
  cases ipModel with
  | ip4Model =>
    obtain ⟨range, h4⟩ := exists_of_isOk h
    exact ⟨.ip4 range.range, by rw [h4, Except.map]⟩
  | ip6Model =>
    cases strict with
    | true =>
      obtain ⟨range, h6⟩ := exists_of_isOk h
      exact ⟨.ip6 range.range, by rw [if_pos rfl, h6, Except.map]⟩
    | false => exact exists_decode_or h
  | ip64Model => exact exists_decode_or h

/-- **What passes the test for an address is read without an error.** -/
theorem IpAddress.create_of_isIpAddress {side : Side} (name : String)
    (h : isIpAddress inet addr ipModel strict = true) :
    ∃ address : IpAddress side, create inet name addr ipModel strict = .ok address := by
  obtain ⟨range, hrange⟩ := exists_decodeRange h
  exact ⟨⟨name, range⟩, create_eq_ok.mpr ⟨rfl, hrange⟩⟩

end Parsers

/-- The IPv4 addresses of four decimal numbers; no text is an IPv6 address. -/
def InetPton.dotted : InetPton where
  decodeIpv4Address text :=
    match (split text '.').map fun part => str2num part 0 255 with
    | [some a, some b, some c, some d] =>
      some (BitVec.ofNat 32 (((a.toNat * 256 + b.toNat) * 256 + c.toNat) * 256 + d.toNat))
    | _ => none
  decodeIpv6Address _ := none

example : isIpAddress .dotted "10.0.0.0/8" .ip4Model true = true := by decide +kernel

end RulesAnalyzer
