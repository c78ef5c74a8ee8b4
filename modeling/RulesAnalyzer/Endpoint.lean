import RulesAnalyzer.Group

/-!
# Zones and addresses

A packet has a source and a destination, each with a zone and an address.  Source
and destination zones (addresses) are different classes in the code, with the same
members and different domains; here a class has the side as a parameter.

## Main definitions

* `Side` — source or destination, with its three domains.
* `Zone`, `IpAddress` — the zones and addresses of a side.
* `anyZoneGroup`, `any4AddressGroup`, … — the groups that hold everything.
* `Zone.recast`, `IpAddress.recast` — the same zone or address on the other side.

## Main results

* `mem_makeBdd_zone`, `mem_makeBdd_ipAddress` — the packets of a zone and of an address.
-/

namespace RulesAnalyzer

open Diagram

/-- Model of IP addresses: IPv4, IPv6, or both combined. -/
inductive IPAddressModel
  | ip4Model
  | ip6Model
  | ip64Model
  deriving DecidableEq, Repr

/-! ### The two sides of a packet -/

/-- The source or the destination of a packet. -/
inductive Side
  | src
  | dst
  deriving DecidableEq, Repr

namespace Side

/-- The domain of the zone. -/
def zone : Side → DomainType
  | src => .srcZone
  | dst => .dstZone

/-- The domain of the IPv4 address. -/
def address4 : Side → DomainType
  | src => .srcAddress4
  | dst => .dstAddress4

/-- The domain of the IPv6 address. -/
def address6 : Side → DomainType
  | src => .srcAddress6
  | dst => .dstAddress6

theorem nbits_zone (side : Side) : 8 = side.zone.nbits := by cases side <;> rfl

theorem nbits_address4 (side : Side) : 32 = side.address4.nbits := by cases side <;> rfl

theorem nbits_address6 (side : Side) : 128 = side.address6.nbits := by cases side <;> rfl

end Side

/-! ### Zones -/

/-- A zone. -/
structure Zone (side : Side) where
  /-- The name of the zone. -/
  name : String
  /-- The zone numbers. -/
  range : Range 8
  deriving DecidableEq

/-- A source zone. -/
abbrev SrcZone := Zone .src

/-- A destination zone. -/
abbrev DstZone := Zone .dst

namespace Zone

variable {side : Side}

/-- The model value of a zone. -/
def value (zone : Zone side) : Mvalue := ⟨side.zone, zone.range.cast side.nbits_zone⟩

/-- The diagram of a zone. -/
def makeBdd (zone : Zone side) : ModelBdd := zone.value.makeBdd

/-- The zone that stands for all zones. -/
def any : Zone side := ⟨"any", Range.full 8⟩

/-- A zone with the range of a zone of either side. -/
def recast {side' : Side} (name : String) (zone : Zone side') : Zone side := ⟨name, zone.range⟩

end Zone

instance {side : Side} : Mnode (Zone side) := ⟨Zone.makeBdd⟩

/-- A packet is in a zone when its zone number is in the range. -/
theorem mem_makeBdd_zone {side : Side} {zone : Zone side} {pk : Packet} :
    pk ∈ zone.makeBdd ↔ pk.value side.zone ∈ zone.range := mem_makeBdd_mvalue

theorem makeBdd_zone_any {side : Side} : (Zone.any : Zone side).makeBdd = bddTrue := by
  cases side <;> exact makeBdd_full _ _ rfl

theorem supported_zone {side : Side} (zone : Zone side) :
    Supported {side.zone} zone.makeBdd := supported_mvalue rfl

/-- A group of source zones. -/
abbrev SrcZoneGroup := Group SrcZone

/-- A group of destination zones. -/
abbrev DstZoneGroup := Group DstZone

/-- A zone group that only holds the any zone. -/
def anyZoneGroup (side : Side) (name : String) : Group (Zone side) :=
  .any name [Zone.any] ⟨Zone.any, List.mem_singleton_self _, makeBdd_zone_any⟩

/-- `SrcAnyZoneGroup`. -/
def srcAnyZoneGroup : SrcZoneGroup := anyZoneGroup .src "$src-any-zone-group"

/-- `DstAnyZoneGroup`. -/
def dstAnyZoneGroup : DstZoneGroup := anyZoneGroup .dst "$dst-any-zone-group"

/-! ### Addresses -/

/-- A range of IPv4 addresses or of IPv6 addresses. -/
inductive IpRange
  | ip4 (range : Range 32)
  | ip6 (range : Range 128)
  deriving DecidableEq

/-- The model an address range belongs to when the two families are not combined. -/
def IpRange.model : IpRange → IPAddressModel
  | ip4 _ => .ip4Model
  | ip6 _ => .ip6Model

/-- There is a second IPv4 address. -/
theorem one_lt_ip4 : 1 < 2 ^ 32 := by decide

/-- An address, a subnet or a range of addresses. -/
structure IpAddress (side : Side) where
  /-- The name of the address. -/
  name : String
  /-- The addresses. -/
  range : IpRange
  deriving DecidableEq

/-- A source address. -/
abbrev SrcAddress := IpAddress .src

/-- A destination address. -/
abbrev DstAddress := IpAddress .dst

namespace IpAddress

variable {side : Side}

/-- The model value of an address.  The number of bits of the range selects the domain. -/
def value (address : IpAddress side) : Mvalue :=
  match address.range with
  | .ip4 range => ⟨side.address4, range.cast side.nbits_address4⟩
  | .ip6 range => ⟨side.address6, range.cast side.nbits_address6⟩

/-- The diagram of an address. -/
def makeBdd (address : IpAddress side) : ModelBdd := address.value.makeBdd

/-- The address that stands for all IPv4 addresses. -/
def any4 (ipModel : IPAddressModel) : IpAddress side :=
  ⟨if ipModel = .ip64Model then "any4" else "any", .ip4 (Range.full 32)⟩

/-- The address that stands for all IPv6 addresses. -/
def any6 (ipModel : IPAddressModel) : IpAddress side :=
  ⟨if ipModel = .ip64Model then "any6" else "any", .ip6 (Range.full 128)⟩

/-- An address with the range of an address of either side. -/
def recast {side' : Side} (name : String) (address : IpAddress side') : IpAddress side :=
  ⟨name, address.range⟩

/-- The address of the packet, in the family of the range, lies in the range. -/
def Holds (address : IpAddress side) (pk : Packet) : Prop :=
  match address.range with
  | .ip4 range => pk.value side.address4 ∈ range
  | .ip6 range => pk.value side.address6 ∈ range

end IpAddress

instance {side : Side} : Mnode (IpAddress side) := ⟨IpAddress.makeBdd⟩

theorem mem_makeBdd_ipAddress {side : Side} {address : IpAddress side} {pk : Packet} :
    pk ∈ address.makeBdd ↔ address.Holds pk := by
  obtain ⟨name, range⟩ := address
  rw [IpAddress.makeBdd, mem_makeBdd_mvalue]
  cases range with
  | ip4 range => exact Iff.rfl
  | ip6 range => exact Iff.rfl

theorem makeBdd_any4 {side : Side} (ipModel : IPAddressModel) :
    (IpAddress.any4 ipModel : IpAddress side).makeBdd = bddTrue := by
  cases side <;> exact makeBdd_full _ _ rfl

theorem makeBdd_any6 {side : Side} (ipModel : IPAddressModel) :
    (IpAddress.any6 ipModel : IpAddress side).makeBdd = bddTrue := by
  cases side <;> exact makeBdd_full _ _ rfl

theorem supported_ipAddress {side : Side} (address : IpAddress side) :
    Supported {side.address4, side.address6} address.makeBdd := by
  obtain ⟨name, range⟩ := address
  cases range with
  | ip4 range => exact supported_mvalue (Or.inl rfl)
  | ip6 range => exact supported_mvalue (Or.inr rfl)

/-- A group of source addresses. -/
abbrev SrcAddressGroup := Group SrcAddress

/-- A group of destination addresses. -/
abbrev DstAddressGroup := Group DstAddress

/-- An address group that only holds the any address of IPv4. -/
def any4AddressGroup (side : Side) (name : String) : Group (IpAddress side) :=
  .any name [IpAddress.any4 .ip4Model] ⟨_, List.mem_singleton_self _, makeBdd_any4 _⟩

/-- An address group that only holds the any address of IPv6. -/
def any6AddressGroup (side : Side) (name : String) : Group (IpAddress side) :=
  .any name [IpAddress.any6 .ip6Model] ⟨_, List.mem_singleton_self _, makeBdd_any6 _⟩

/-- An address group that holds the any addresses of both families. -/
def any64AddressGroup (side : Side) (name : String) : Group (IpAddress side) :=
  .any name [IpAddress.any4 .ip64Model, IpAddress.any6 .ip64Model]
    ⟨_, List.mem_cons_self, makeBdd_any4 _⟩

/-- The source address group that holds everything, in each model. -/
def srcAnyAddressGroup : IPAddressModel → SrcAddressGroup
  | .ip4Model => any4AddressGroup .src "$src-any4-group"
  | .ip6Model => any6AddressGroup .src "$src-any6-group"
  | .ip64Model => any64AddressGroup .src "$src-any64-group"

/-- The destination address group that holds everything, in each model. -/
def dstAnyAddressGroup : IPAddressModel → DstAddressGroup
  | .ip4Model => any4AddressGroup .dst "$dst-any4-group"
  | .ip6Model => any6AddressGroup .dst "$dst-any6-group"
  | .ip64Model => any64AddressGroup .dst "$dst-any64-group"

end RulesAnalyzer
