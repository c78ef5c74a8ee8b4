import RulesAnalyzer.Group

/-!
# Services

A service is a protocol together with a range of ports (of ICMP types).  Each
protocol has its own port domain, so a packet carries a port for every protocol
and a service looks at the one of its own protocol.

## Main definitions

* `Protocol`, `Ports`, `Service` — the nodes, each with an any object that overrides the
  diagram.
* `ServiceGroup` — a group of services, which may be marked as the default services of
  applications.
* `Service.Matches` — the packets a service is for.

## Main results

* `mem_makeBdd_service` — a service holds the packets it matches.
-/

namespace RulesAnalyzer

open Diagram

/-! ### Protocols and ports -/

/-- A protocol. -/
inductive Protocol
  | any
  | tcp
  | udp
  | icmp
  deriving DecidableEq, Repr

namespace Protocol

/-- The range of protocol numbers. -/
def range : Protocol → Range 2
  | any => Range.full 2
  | tcp => Range.singleton 1 (by decide)
  | udp => Range.singleton 0 (by decide)
  | icmp => Range.singleton 2 (by decide)

/-- The diagram of a protocol.  `AnyProtocol` overrides it. -/
def makeBdd : Protocol → ModelBdd
  | any => bddTrue
  | protocol => Mvalue.makeBdd ⟨.protocol, protocol.range⟩

end Protocol

theorem mem_makeBdd_protocol {protocol : Protocol} {pk : Packet} :
    pk ∈ protocol.makeBdd ↔ pk.value .protocol ∈ protocol.range := by
  cases protocol with
  | any =>
    simp only [Protocol.makeBdd, mem_bddTrue, Protocol.range, Range.mem_full, true_iff]
    exact pk.value_lt .protocol
  | tcp => exact mem_makeBdd_mvalue
  | udp => exact mem_makeBdd_mvalue
  | icmp => exact mem_makeBdd_mvalue

/-- Ports, or ICMP types. -/
inductive Ports
  | any
  | tcp (range : Range 16)
  | udp (range : Range 16)
  | icmp (range : Range 16)
  deriving DecidableEq

/-- The diagram of a port range.  `AnyPorts` overrides it. -/
def Ports.makeBdd : Ports → ModelBdd
  | any => bddTrue
  | tcp range => Mvalue.makeBdd ⟨.dstTcpPort, range⟩
  | udp range => Mvalue.makeBdd ⟨.dstUdpPort, range⟩
  | icmp range => Mvalue.makeBdd ⟨.icmpType, range⟩

/-! ### Services -/

/-- A service. -/
inductive Service
  /-- `ServiceAny`. -/
  | any
  /-- `TcpService`. -/
  | tcp (name : String) (range : Range 16)
  /-- `UdpService`. -/
  | udp (name : String) (range : Range 16)
  /-- `IcmpService`. -/
  | icmp (name : String) (range : Range 16)
  deriving DecidableEq

namespace Service

/-- The protocol. -/
def protocol : Service → Protocol
  | any => .any
  | tcp _ _ => .tcp
  | udp _ _ => .udp
  | icmp _ _ => .icmp

/-- The ports. -/
def ports : Service → Ports
  | any => .any
  | tcp _ range => .tcp range
  | udp _ range => .udp range
  | icmp _ range => .icmp range

/-- The diagram of a service.  `ServiceAny` overrides it. -/
def makeBdd : Service → ModelBdd
  | any => bddTrue
  | service => bddAnd service.protocol.makeBdd service.ports.makeBdd

/-- The packet has the protocol of the service, and a port in its range. -/
def Matches (pk : Packet) : Service → Prop
  | any => True
  | tcp _ range => pk.value .protocol = 1 ∧ pk.value .dstTcpPort ∈ range
  | udp _ range => pk.value .protocol = 0 ∧ pk.value .dstUdpPort ∈ range
  | icmp _ range => pk.value .protocol = 2 ∧ pk.value .icmpType ∈ range

/-- The domains a service looks at. -/
def domains : Set DomainType := {.protocol, .dstTcpPort, .dstUdpPort, .icmpType}

end Service

instance : Mnode Service := ⟨Service.makeBdd⟩

/-- **A service holds the packets it matches.** -/
theorem mem_makeBdd_service {service : Service} {pk : Packet} :
    pk ∈ service.makeBdd ↔ service.Matches pk := by
  cases service with
  | any => simp [Service.makeBdd, Service.Matches]
  | tcp name range =>
    refine mem_bddAnd.trans (and_congr ?_ mem_makeBdd_mvalue)
    exact mem_makeBdd_protocol.trans Range.mem_singleton
  | udp name range =>
    refine mem_bddAnd.trans (and_congr ?_ mem_makeBdd_mvalue)
    exact mem_makeBdd_protocol.trans Range.mem_singleton
  | icmp name range =>
    refine mem_bddAnd.trans (and_congr ?_ mem_makeBdd_mvalue)
    exact mem_makeBdd_protocol.trans Range.mem_singleton

theorem supported_service (service : Service) : Supported Service.domains service.makeBdd := by
  intro pk pk' hv
  rw [mem_makeBdd_service, mem_makeBdd_service]
  have hp := hv .protocol (by simp [Service.domains])
  cases service with
  | any => rfl
  | tcp name range =>
    rw [Service.Matches, Service.Matches, hp, hv .dstTcpPort (by simp [Service.domains])]
  | udp name range =>
    rw [Service.Matches, Service.Matches, hp, hv .dstUdpPort (by simp [Service.domains])]
  | icmp name range =>
    rw [Service.Matches, Service.Matches, hp, hv .icmpType (by simp [Service.domains])]

/-! ### Service groups -/

/-- A group of services. -/
structure ServiceGroup where
  /-- The members. -/
  group : Group Service
  /-- The group contains the default services of applications. -/
  isAppServices : Bool
  deriving DecidableEq

namespace ServiceGroup

/-- The unique services. -/
def items (services : ServiceGroup) : List Service := services.group.items

/-- The diagram of a service group. -/
def makeBdd (services : ServiceGroup) : ModelBdd := services.group.makeBdd

/-- Adds a service. -/
def addMember (services : ServiceGroup) (service : Service) : ServiceGroup :=
  { services with group := services.group.addMember service }

/-- A copy of the group.  The class of the default services does not override `clone`: the
copy of such a group is a plain service group. -/
def clone (services : ServiceGroup) : ServiceGroup := ⟨services.group.clone, false⟩

/-- `AnyServiceGroup`. -/
def any : ServiceGroup :=
  ⟨.any "$any-svc-group" [Service.any] ⟨_, List.mem_singleton_self _, rfl⟩, false⟩

@[simp] theorem makeBdd_clone (services : ServiceGroup) :
    services.clone.makeBdd = services.makeBdd := by rw [makeBdd, makeBdd, clone, Group.clone_eq]

end ServiceGroup

instance : Mnode ServiceGroup := ⟨ServiceGroup.makeBdd⟩

theorem mem_makeBdd_serviceGroup {services : ServiceGroup} {pk : Packet} :
    pk ∈ services.makeBdd ↔ ∃ service ∈ services.items, service.Matches pk := by
  rw [ServiceGroup.makeBdd, mem_makeBdd_group]
  exact exists_congr fun service => and_congr_right fun _ => mem_makeBdd_service

theorem supported_serviceGroup (services : ServiceGroup) :
    Supported Service.domains services.makeBdd :=
  supported_group fun service _ => supported_service service

end RulesAnalyzer
