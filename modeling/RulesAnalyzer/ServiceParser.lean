import RulesAnalyzer.Service
import RulesAnalyzer.Strutil

/-!
# The parser of services

A service is written as a protocol, possibly followed by a slash and a port or a
range of ports.

## Main definitions

* `parsePortRange`, `parseProtocolPort`, `isProtocolPort` — the parser and the test for a service.
* `Service.create` — the service of a text, under a name.

## Main results

* `Service.create_of_isProtocolPort` — what passes the test is read without an error.
* `Service.create_matches` — the packets of a service only depend on its text.
-/

namespace RulesAnalyzer

open Diagram

/-- The protocols that the text of a service may start with. -/
inductive ProtocolType
  | tcp
  | udp
  | icmp
  deriving DecidableEq, Repr

/-- The ports of a text, no larger than the maximum; `none` when it has another format.  A
text without any port makes the code read the first element of an empty list. -/
def parsePortRange (range : String) (maxValue : ℕ) : Except Fault (Option (Range 16)) :=
  match split range '-' with
  | [] => .error .undefined
  | [first] => .ok <| (str2num first 0 maxValue).bind fun lvalue =>
      if h : lvalue.toNat < 2 ^ 16 then some (Range.singleton lvalue.toNat h) else none
  | [first, second] => .ok <| (str2num first 0 maxValue).bind fun lvalue =>
      (str2num second 0 maxValue).bind fun uvalue =>
        if h : lvalue.toNat ≤ uvalue.toNat ∧ uvalue.toNat < 2 ^ 16 then
          some ⟨lvalue.toNat, uvalue.toNat, h.1, h.2⟩
        else none
  | _ => .ok none

/-- The protocol of a name. -/
def protocolType (name : String) : Option ProtocolType :=
  if iequal name "tcp" then some .tcp
  else if iequal name "udp" then some .udp
  else if iequal name "icmp" then some .icmp
  else none

/-- The protocol and the ports of a text. -/
def parseProtocolPort (protoPort : String) : Except Fault (ProtocolType × Range 16) :=
  if protoPort.isEmpty then .error (.serviceError protoPort)
  else
    match split protoPort '/' with
    | [] => .error .undefined
    | [name] =>
      match protocolType name with
      | some pt => .ok (pt, Range.full 16)
      | none => .error (.serviceError protoPort)
    | [name, ports] =>
      match protocolType name with
      | some pt =>
        match parsePortRange ports 65535 with
        | .ok (some range) => .ok (pt, range)
        | .ok none => .error (.serviceError protoPort)
        | .error fault => .error fault
      | none => .error (.serviceError protoPort)
    | _ => .error (.serviceError protoPort)

/-- The text is a service. -/
def isProtocolPort (protoPort : String) : Except Fault Bool :=
  match parseProtocolPort protoPort with
  | .ok _ => .ok true
  | .error (.serviceError _) => .ok false
  | .error fault => .error fault

namespace Service

/-- The service with the given protocol and ports. -/
def ofProtocol (name : String) : ProtocolType → Range 16 → Service
  | .tcp => tcp name
  | .udp => udp name
  | .icmp => icmp name

/-- The service of a text, under a name. -/
def create (name protoPort : String) : Except Fault Service :=
  (parseProtocolPort protoPort).map fun range => ofProtocol name range.1 range.2

/-- The packets of a service do not depend on its name. -/
theorem ofProtocol_matches (name name' : String) (pt : ProtocolType) (range : Range 16)
    (pk : Packet) :
    (ofProtocol name pt range).Matches pk ↔ (ofProtocol name' pt range).Matches pk := by
  cases pt <;> exact Iff.rfl

theorem create_eq_ok {name protoPort : String} {service : Service} :
    create name protoPort = .ok service ↔
      ∃ range, parseProtocolPort protoPort = .ok range ∧
        ofProtocol name range.1 range.2 = service := by
  rw [create]
  cases parseProtocolPort protoPort with
  | error e => exact iff_of_false nofun (fun ⟨_, h, _⟩ => nomatch h)
  | ok range =>
    rw [Except.map, Except.ok.injEq]
    exact ⟨fun h => ⟨range, rfl, h⟩, fun ⟨_, h, hs⟩ => Except.ok.inj h ▸ hs⟩

/-- **What passes the test for a service is read without an error.** -/
theorem create_of_isProtocolPort (name : String) {protoPort : String}
    (h : isProtocolPort protoPort = .ok true) : ∃ service, create name protoPort = .ok service := by
  unfold isProtocolPort at h
  rcases hparse : parseProtocolPort protoPort with fault | range
  · rw [hparse] at h
    cases fault <;> cases h
  · exact ⟨_, create_eq_ok.mpr ⟨range, hparse, rfl⟩⟩

/-- **The packets of a service only depend on its text.** -/
theorem create_matches {name name' protoPort : String} {service service' : Service}
    (h : create name protoPort = .ok service) (h' : create name' protoPort = .ok service')
    (pk : Packet) : service.Matches pk ↔ service'.Matches pk := by
  obtain ⟨range, hparse, rfl⟩ := create_eq_ok.mp h
  obtain ⟨range', hparse', rfl⟩ := create_eq_ok.mp h'
  obtain rfl := Except.ok.inj (hparse.symm.trans hparse')
  exact ofProtocol_matches ..

end Service

example : Service.create "web" "tcp/80-81" = .ok (.tcp "web" ⟨80, 81, by decide, by decide⟩) := by
  decide

end RulesAnalyzer
