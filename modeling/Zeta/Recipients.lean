import Zeta.NetworkSteps
import Zeta.SamplePlatform

/-!
# Who credits a payment

A client credits a payment whose destination is one of its three identifiers, and
nothing else decides it: not the relays, which may deliver the payment to anybody, nor
the payer.  A payment whose destination names at most one client is credited by at
most one client (`credited_by_one`); nothing in the program makes names unique.
-/

namespace Zeta
namespace Network

variable {P : Platform} {ι κ : Type} [DecidableEq ι] [DecidableEq κ] {net : Network P ι κ}
  {w : World ι κ} {e : WorldEvent ι κ}

/-- Whoever credited a payment is named by its destination. -/
structure Addressed (net : Network P ι κ) (w : World ι κ) : Prop where
  saved : FilesSaved P w
  isMe : ∀ i p, (i, p) ∈ w.credited → (net.client i).IsMe p.dstId

theorem addressed_step (h : Addressed net w) : Addressed net (net.next w e) := by
  refine ⟨filesSaved_next h.saved, ?_⟩
  intro i p hmem
  rcases next_money net e h.saved with
    ⟨j, q, hd⟩ | ⟨j, now, d, q, -, -, hc⟩ | hquiet
  · rw [hd.credited] at hmem
    exact h.isMe i p hmem
  · rw [hc.credited] at hmem
    rcases List.mem_append.mp hmem with hold | hnew
    · exact h.isMe i p hold
    · obtain ⟨rfl, rfl⟩ := Prod.mk.inj (List.mem_singleton.mp hnew)
      exact hc.accepts.1
  · rw [hquiet.credited] at hmem
    exact h.isMe i p hmem

/-- **A payment is credited by at most one client** if its destination is an identifier
of at most one, whatever happens in the network. -/
theorem credited_by_one (net : Network P ι κ) (b : Boot ι κ) (es : List (WorldEvent ι κ))
    (p : Payment) (hrun : net.system.Always (fun _ _ => True) (net.start b) es)
    (hname : ∀ i j, (net.client i).IsMe p.dstId → (net.client j).IsMe p.dstId → i = j) :
    ∀ i j, (i, p) ∈ (net.system.run (net.start b) es).credited →
      (j, p) ∈ (net.system.run (net.start b) es).credited → i = j := by
  have hend : Addressed net (net.system.run (net.start b) es) :=
    EventSystem.invariant_run (fun _ _ hI _ _ => addressed_step hI) hrun
      ⟨filesSaved_start b, fun _ _ hx => absurd hx List.not_mem_nil⟩
  intro i j hi hj
  exact hname i j (hend.isMe i p hi) (hend.isMe j p hj)

/-- In a run between alice and bob, bob alone credits alice's payment. -/
theorem fiveForBob_credited_by_one :
    let w := aliceAndBob.system.run (aliceAndBob.start aliceAndBobBoot) paymentRun
    (1, fiveForBob) ∈ w.credited ∧
      ∀ i j, (i, fiveForBob) ∈ w.credited → (j, fiveForBob) ∈ w.credited → i = j :=
  ⟨by decide +kernel, credited_by_one aliceAndBob aliceAndBobBoot paymentRun fiveForBob
    (by decide +kernel) (by decide +kernel)⟩

/-! ## Two clients of one name -/

/-- Alice, and two clients started with the name "bob". -/
inductive Person
  | alice
  | bob
  | robert
  deriving DecidableEq

/-- The relays the two bobs use. -/
inductive Hub
  | first
  | second
  deriving DecidableEq

def Hub.addr : Hub → SocketAddr
  | .first => .v4 0x0A000001 12345
  | .second => .v4 0x0A000002 12345

def Person.addr : Person → SocketAddr
  | .alice => .v4 1 40000
  | .bob => .v4 2 40000
  | .robert => .v4 3 40000

/-- Each bob is at a relay of his own, alice at both. -/
def twoBobs : Network samplePlatform Person Hub where
  client
    | .alice => { alice with relayAddrs := [Hub.first.addr, Hub.second.addr] }
    | .bob => bob
    | .robert =>
      { bob with
        signingKey := (3 : UInt8)
        myBtc := "1Robert"
        relayAddrs := [Hub.second.addr] }
  relay r := { sampleRelay with addr := r.addr }

/-- They are started; alice has five satoshis. -/
def twoBobsBoot : Boot Person Hub where
  addr := Person.addr
  localAddr _ := .v4 0 40000
  file
    | .alice => saveWallet plainJson { balance := 5, address := "1Alice" }
    | .bob => none
    | .robert => none
  relays _ := relayStartup

/-- Both bobs register, alice pays "bob", and her payment reaches both. -/
def twoBobsRun : List (WorldEvent Person Hub) :=
  let registration (person : Person) (relay : Hub) (btc : String) : Datagram :=
    ⟨person.addr, relay.addr,
      .register ⟨.v4 0 40000, "bob", relay.addr, "relay", 0, some btc⟩⟩
  let atRelay (relay : Hub) : Datagram := ⟨Person.alice.addr, relay.addr, .payment fiveForBob⟩
  let atClient (relay : Hub) (person : Person) : Datagram :=
    ⟨relay.addr, person.addr, .payment fiveForBob⟩
  [.register .bob 0, .relayRecv .first (registration .bob .first "1Bob"),
    .register .robert 0, .relayRecv .second (registration .robert .second "1Robert"),
    .pay .alice 0 7 "bob 5",
    .relayRecv .first (atRelay .first), .relayRecv .second (atRelay .second),
    .clientRecv .bob 0 (atClient .first .bob),
    .clientRecv .robert 0 (atClient .second .robert)]

/-- **One payment is credited by two clients** that were started with the same name. -/
theorem payment_credited_by_two_bobs :
    let w := twoBobs.system.run (twoBobs.start twoBobsBoot) twoBobsRun
    twoBobs.system.Always (fun _ _ => True) (twoBobs.start twoBobsBoot) twoBobsRun ∧
    w.debited = [(.alice, fiveForBob)] ∧
    w.credited = [(.bob, fiveForBob), (.robert, fiveForBob)] ∧
    (w.clients .bob).balance = 5 ∧ (w.clients .robert).balance = 5 := by
  decide +kernel

end Network
end Zeta
