import RulesAnalyzer.Diagram.Bvec
import Mathlib.Data.Set.Basic

/-!
# The model variables and the packets

A packet is described by thirteen numbers, one for each domain: zones,
addresses of both families, protocol, ports, application, user, url.  The
analyzer encodes them in one block of Boolean variables, domain after domain in
the order of the `Domains` constructor, and a packet is an assignment of these
variables.

## Main definitions

* `DomainType`, `DomainType.nbits` — the domains and their widths.
* `getVar` — the vector of variables of a domain.
* `Packet`, `Packet.value` — packets, and their value in a domain.
* `Packet.ofValues` — the packet with given values.
* `Supported` — a diagram that only reads some of the domains.

## Main results

* `Packet.ext_value`, `Packet.value_ofValues` — packets are exactly the choices of
  a value below `2 ^ nbits` in each domain.
-/

namespace RulesAnalyzer

open Diagram

/-! ### Domains -/

/-- The domains, in the order of their numbers. -/
inductive DomainType
  | srcZone
  | srcAddress4
  | srcAddress6
  | dstZone
  | dstAddress4
  | dstAddress6
  | protocol
  | dstTcpPort
  | dstUdpPort
  | icmpType
  | application
  | user
  | url
  deriving DecidableEq, Repr

/-- The number of a domain. -/
def DomainType.index : DomainType → ℕ
  | srcZone => 0
  | srcAddress4 => 1
  | srcAddress6 => 2
  | dstZone => 3
  | dstAddress4 => 4
  | dstAddress6 => 5
  | protocol => 6
  | dstTcpPort => 7
  | dstUdpPort => 8
  | icmpType => 9
  | application => 10
  | user => 11
  | url => 12

/-- The number of bits of a value of the domain. -/
def DomainType.nbits : DomainType → ℕ
  | srcZone | dstZone => 8
  | srcAddress4 | dstAddress4 => 32
  | srcAddress6 | dstAddress6 => 128
  | protocol => 2
  | dstTcpPort | dstUdpPort | icmpType => 16
  | application => 10
  | user | url => 11

theorem DomainType.nbits_pos (dt : DomainType) : 0 < dt.nbits := by cases dt <;> decide

/-- The domains in the order in which the `Domains` constructor creates them. -/
def domains : List DomainType :=
  [.srcZone, .srcAddress4, .srcAddress6, .dstZone, .dstAddress4, .dstAddress6, .protocol,
    .dstTcpPort, .dstUdpPort, .icmpType, .application, .user, .url]

/-- The number of Boolean variables `Domains::init_bdd` allocates. -/
def nvars : ℕ := (domains.map DomainType.nbits).sum

/-- The diagrams of the model. -/
abbrev ModelBdd := Bdd (Fin nvars)

/-- The second loop of `Domains::init_bdd`: one vector of variables for each domain. -/
def initVars (offset : ℕ) : List DomainType → List (Bvec (Fin nvars))
  | [] => []
  | dt :: dts => bvecVar dt.nbits offset 1 :: initVars (offset + dt.nbits) dts

/-- The vector of variables of a domain. -/
def getVar (dt : DomainType) : Bvec (Fin nvars) := (initVars 0 domains).getD dt.index []

/-- The number of the first variable of a domain. -/
def DomainType.offset (dt : DomainType) : ℕ := ((domains.take dt.index).map nbits).sum

theorem getVar_eq (dt : DomainType) : getVar dt = bvecVar dt.nbits dt.offset 1 := by
  cases dt <;> rfl

@[simp] theorem length_getVar (dt : DomainType) : (getVar dt).length = dt.nbits := by
  rw [getVar_eq, Bvec.length_bvecVar]

theorem DomainType.offset_add_nbits_le (dt : DomainType) : dt.offset + dt.nbits ≤ nvars := by
  cases dt <;> decide

/-- The domain a variable belongs to. -/
def domainOf (v : Fin nvars) : DomainType :=
  (domains.find? fun dt => (v : ℕ) < dt.offset + dt.nbits).getD .url

/-- A variable lies in the block of its domain. -/
theorem domainOf_spec : ∀ v : Fin nvars,
    (domainOf v).offset ≤ v ∧ v < (domainOf v).offset + (domainOf v).nbits := by
  decide +kernel

/-- The blocks of two domains do not meet. -/
theorem domainOf_eq (dt : DomainType) : ∀ i : Fin dt.nbits,
    domainOf ⟨dt.offset + i, by have := dt.offset_add_nbits_le; omega⟩ = dt := by
  cases dt <;> decide +kernel

/-! ### Packets -/

/-- A packet: an assignment of the model variables. -/
abbrev Packet := Fin nvars → Bool

namespace Packet

/-- The value of a packet in a domain. -/
def value (pk : Packet) (dt : DomainType) : ℕ := Bvec.value pk (getVar dt)

theorem value_lt (pk : Packet) (dt : DomainType) : pk.value dt < 2 ^ dt.nbits := by
  rw [value, ← length_getVar dt]
  exact Bvec.value_lt (getVar dt)

theorem value_eq_iff {pk pk' : Packet} {dt : DomainType} : pk.value dt = pk'.value dt ↔
    ∀ i (hi : i < dt.nbits),
      pk ⟨dt.offset + i, by have := dt.offset_add_nbits_le; omega⟩ =
        pk' ⟨dt.offset + i, by have := dt.offset_add_nbits_le; omega⟩ := by
  rw [value, value, getVar_eq]
  exact Bvec.value_bvecVar_eq_iff dt.offset_add_nbits_le

/-- A packet is determined by its values. -/
theorem ext_value {pk pk' : Packet} (h : ∀ dt, pk.value dt = pk'.value dt) : pk = pk' := by
  funext v
  obtain ⟨hle, hlt⟩ := domainOf_spec v
  have hbit := value_eq_iff.mp (h (domainOf v)) (v - (domainOf v).offset) (by omega)
  have hv : (domainOf v).offset + (v - (domainOf v).offset) = (v : ℕ) := by omega
  simpa only [hv] using hbit

/-- The packet with the values `f`, each taken modulo the size of its domain. -/
def ofValues (f : DomainType → ℕ) : Packet :=
  fun v => (f (domainOf v)).testBit (v - (domainOf v).offset)

theorem value_ofValues_mod (f : DomainType → ℕ) (dt : DomainType) :
    (ofValues f).value dt = f dt % 2 ^ dt.nbits := by
  rw [value, getVar_eq]
  refine Bvec.value_bvecVar dt.offset_add_nbits_le fun i hi => ?_
  simp only [ofValues, domainOf_eq dt ⟨i, hi⟩]
  congr 1
  omega

theorem value_ofValues {f : DomainType → ℕ} {dt : DomainType} (h : f dt < 2 ^ dt.nbits) :
    (ofValues f).value dt = f dt := by
  rw [value_ofValues_mod, Nat.mod_eq_of_lt h]

/-- The packet with the values of `pk` in the domains of `S` and those of `pk'` elsewhere. -/
def mix (S : DomainType → Bool) (pk pk' : Packet) : Packet :=
  ofValues fun dt => if S dt then pk.value dt else pk'.value dt

@[simp] theorem value_mix (S : DomainType → Bool) (pk pk' : Packet) (dt : DomainType) :
    (mix S pk pk').value dt = if S dt then pk.value dt else pk'.value dt := by
  refine value_ofValues ?_
  show (if S dt then pk.value dt else pk'.value dt) < 2 ^ dt.nbits
  split <;> exact value_lt _ dt

end Packet

/-! ### Diagrams that read some of the domains -/

/-- `a` only reads the values of the domains in `S`. -/
def Supported (S : Set DomainType) (a : ModelBdd) : Prop :=
  ∀ pk pk' : Packet, (∀ dt ∈ S, pk.value dt = pk'.value dt) → (pk ∈ a ↔ pk' ∈ a)

variable {S T : Set DomainType} {a b : ModelBdd}

theorem Supported.mono (h : Supported S a) (hST : S ⊆ T) : Supported T a :=
  fun pk pk' hv => h pk pk' fun dt hdt => hv dt (hST hdt)

theorem supported_bddTrue : Supported S bddTrue := fun _ _ _ => by simp

theorem Supported.bddNot (h : Supported S a) : Supported S (bddNot a) :=
  fun pk pk' hv => by rw [mem_bddNot, mem_bddNot, h pk pk' hv]

theorem Supported.bddAnd (ha : Supported S a) (hb : Supported S b) : Supported S (bddAnd a b) :=
  fun pk pk' hv => by rw [mem_bddAnd, mem_bddAnd, ha pk pk' hv, hb pk pk' hv]

theorem Supported.bddOr (ha : Supported S a) (hb : Supported S b) : Supported S (bddOr a b) :=
  fun pk pk' hv => by rw [mem_bddOr, mem_bddOr, ha pk pk' hv, hb pk pk' hv]

end RulesAnalyzer
