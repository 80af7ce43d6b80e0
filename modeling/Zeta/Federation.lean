import Zeta.Relay
import Zeta.EventSystem

/-!
# Relays that send to each other

Any number of relays, each listening at an address of its own, and the datagrams
between them.  Datagrams may be delivered in any order, each once; one that goes
to an address where no relay listens (a client's) leaves the system when it is
delivered.  The relays' maps of peers are whatever they are: nothing is assumed
about who registered where, so every federation graph is covered.
-/

namespace Zeta

/-- Where the relays listen. -/
structure Federation (κ : Type) where
  addr : κ → SocketAddr
  relayAt : SocketAddr → Option κ
  relayAt_eq_some_iff : ∀ a r, relayAt a = some r ↔ addr r = a

namespace Federation
variable {κ : Type} (F : Federation κ)

/-- Finitely many relays at distinct addresses. -/
def ofInjective {n : Nat} (addr : Fin n → SocketAddr) (h : Function.Injective addr) :
    Federation (Fin n) where
  addr := addr
  relayAt a := (List.finRange n).find? (fun r => addr r = a)
  relayAt_eq_some_iff := by
    intro a r
    constructor
    · intro hr
      simpa using List.find?_some hr
    · intro ha
      cases hf : (List.finRange n).find? (fun r => addr r = a) with
      | none => simpa [ha] using List.find?_eq_none.mp hf r (List.mem_finRange r)
      | some r' =>
        have hr' : addr r' = a := by simpa using List.find?_some hf
        rw [h (hr'.trans ha.symm)]

@[simp] theorem relayAt_addr (r : κ) : F.relayAt (F.addr r) = some r :=
  (F.relayAt_eq_some_iff _ r).mpr rfl

theorem addr_injective : Function.Injective F.addr := by
  intro r r' h
  have hr := F.relayAt_addr r
  rw [h, relayAt_addr] at hr
  exact (Option.some.inj hr).symm

end Federation

/-- The relays and the datagrams on their way. -/
structure FedState (κ : Type) where
  relays : κ → RelayState
  inFlight : Multiset Datagram

namespace Federation
variable {κ : Type} (P : Platform) (F : Federation κ)

/-- What the relay that `d` goes to, if any, sends when it receives it. -/
def emitted (relays : κ → RelayState) (d : Datagram) : List Datagram :=
  match F.relayAt d.dst with
  | none => []
  | some r => packets (F.addr r) (handleMessage P d.msg d.src (relays r)).sends

variable {P F} in
theorem emitted_of_none {relays : κ → RelayState} {d : Datagram} (h : F.relayAt d.dst = none) :
    F.emitted P relays d = [] := by
  simp [emitted, h]

variable {P F} in
theorem emitted_of_eq {relays : κ → RelayState} {d : Datagram} {r : κ}
    (h : F.relayAt d.dst = some r) :
    F.emitted P relays d = packets (F.addr r) (handleMessage P d.msg d.src (relays r)).sends := by
  simp [emitted, h]

variable [DecidableEq κ]

/-- The relays after `d` is delivered. -/
def relaysAfter (relays : κ → RelayState) (d : Datagram) : κ → RelayState :=
  match F.relayAt d.dst with
  | none => relays
  | some r => Function.update relays r (handleMessage P d.msg d.src (relays r)).state

variable {P F} in
theorem relaysAfter_of_eq {relays : κ → RelayState} {d : Datagram} {r : κ}
    (h : F.relayAt d.dst = some r) :
    F.relaysAfter P relays d r = (handleMessage P d.msg d.src (relays r)).state := by
  simp [relaysAfter, h]

variable {P F} in
/-- A delivery leaves the other relays alone. -/
theorem relaysAfter_of_ne {relays : κ → RelayState} {d : Datagram} {r : κ}
    (h : F.relayAt d.dst ≠ some r) : F.relaysAfter P relays d r = relays r := by
  unfold relaysAfter
  cases hr : F.relayAt d.dst with
  | none => rfl
  | some r' =>
    have hne : r ≠ r' := by
      rintro rfl
      exact h hr
    exact Function.update_of_ne hne _ _

/-- `d` is delivered: it is on its way no more, and what it made a relay send is. -/
def deliver (s : FedState κ) (d : Datagram) : FedState κ where
  relays := F.relaysAfter P s.relays d
  inFlight := s.inFlight.erase d + F.emitted P s.relays d

/-- Deliveries, as an event system. -/
def system : EventSystem (FedState κ) Datagram where
  Enabled s d := d ∈ s.inFlight
  next := F.deliver P

/-- The number of datagrams the relays send when `d` is delivered. -/
def sentOn (s : FedState κ) (d : Datagram) : ℕ := (F.emitted P s.relays d).length

/-- **The flood from `s` ends**: whatever the order of delivery, nothing is on its
way any more after finitely many deliveries, in which the relays sent finitely
many datagrams. -/
def FloodEnds (s : FedState κ) : Prop :=
  ∃ N, ∀ ds, (F.system P).Always (fun _ _ => True) s ds →
    ds.length ≤ N ∧ (F.system P).sumAlong (F.sentOn P) s ds ≤ N

end Federation
end Zeta
