import Zeta.NetworkSteps
import Zeta.SamplePlatform
import Mathlib.Data.Fintype.Basic

/-!
# Money from outside

A payment carries no signature, and neither the relays nor the recipient ask who sent
it.  What a client credits is covered by an earlier debit exactly as far as outsiders
refrain from injecting payments that are not: in every run in which each injected
payment to a client repeats an amount and a payment id that some client has debited,
every increase of a balance is covered (`increases_covered`).
-/

namespace Zeta
namespace Network

variable {P : Platform} {ι κ : Type} [DecidableEq ι] [DecidableEq κ] {net : Network P ι κ}
  {w : World ι κ} {e : WorldEvent ι κ}

/-- Some client has debited this amount under this payment id. -/
def Covered (w : World ι κ) (p : Payment) : Prop :=
  ∃ x ∈ w.debited, x.2.amount = p.amount ∧ x.2.paymentId = p.paymentId

instance (w : World ι κ) (p : Payment) : Decidable (Covered w p) :=
  inferInstanceAs (Decidable (∃ x ∈ w.debited, _))

/-- The message is no payment to one of the clients, or a covered one. -/
def CoveredMessage (net : Network P ι κ) (w : World ι κ) : Message → Prop
  | .payment p => (∃ i, (net.client i).IsMe p.dstId) → Covered w p
  | _ => True

instance [Fintype ι] (w : World ι κ) : (msg : Message) → Decidable (CoveredMessage net w msg)
  | .payment p => inferInstanceAs (Decidable ((∃ i, (net.client i).IsMe p.dstId) → Covered w p))
  | .classic _ | .paymentAck _ | .register _ | .connect _ | .askForAddr _ | .peerInfo _ _ =>
    isTrue trivial

/-- What outsiders inject is covered. -/
def InjectsCovered (net : Network P ι κ) (w : World ι κ) : WorldEvent ι κ → Prop
  | .inject d => CoveredMessage net w d.msg
  | _ => True

instance [Fintype ι] (w : World ι κ) : (e : WorldEvent ι κ) → Decidable (InjectsCovered net w e)
  | .inject d => inferInstanceAs (Decidable (CoveredMessage net w d.msg))
  | .pay _ _ _ _ | .say _ _ _ _ | .register _ _ | .clientRecv _ _ _ | .relayRecv _ _
  | .console _ _ _ _ | .federate _ _ | .repeer _ _ | .restart _ _ _ => isTrue trivial

/-- Whatever balance the step increases, it does so by the amount of a payment that is
delivered to the client and that some client has debited before. -/
def CoversIncrease (net : Network P ι κ) (w : World ι κ) (e : WorldEvent ι κ) : Prop :=
  ∀ i n, 0 < n → ((net.next w e).clients i).balance = (w.clients i).balance + n →
    ∃ now d p, e = .clientRecv i now d ∧ d.msg = .payment p ∧ p.amount.toNat = n ∧ Covered w p

/-- All payments on their way to a client are covered. -/
structure AllCovered (net : Network P ι κ) (w : World ι κ) : Prop where
  saved : FilesSaved P w
  sent : ∀ d ∈ w.sent, CoveredMessage net w d.msg

/-- A covered payment stays covered. -/
theorem coveredMessage_next (hfiles : FilesSaved P w) {msg : Message}
    (h : CoveredMessage net w msg) : CoveredMessage net (net.next w e) msg := by
  cases msg with
  | payment p =>
    intro hme
    obtain ⟨x, hx, hp⟩ := h hme
    exact ⟨x, (debited_prefix_next hfiles).subset hx, hp⟩
  | classic _ | paymentAck _ | register _ | connect _ | askForAddr _ | peerInfo _ _ => trivial

/-- **What is on its way stays covered**, as long as outsiders inject covered payments. -/
theorem allCovered_step (h : AllCovered net w) (hen : net.Enabled w e)
    (hok : InjectsCovered net w e) : AllCovered net (net.next w e) := by
  refine ⟨filesSaved_next h.saved, ?_⟩
  intro d hd
  rcases sent_origin hen hd with hold | rfl | horigin
  · exact coveredMessage_next h.saved (h.sent d hold)
  · exact coveredMessage_next h.saved hok
  · generalize d.msg = msg at horigin
    cases horigin with
    | paid hpaid => exact fun _ => ⟨_, hpaid, rfl, rfl⟩
    | relayed hold hmsg => exact hmsg ▸ coveredMessage_next h.saved (h.sent _ hold)
    | acknowledged _ | written _ | forwarded _ _ | registered | answered => trivial

/-- A credit that increases the balance increases it by the amount. -/
theorem amount_of_increase {b : Build} {v v' : Wallet} {amount : UInt64} {n : ℕ} (hn : 0 < n)
    (hc : credit b v amount = some v') (hinc : v'.balance.toNat = v.balance.toNat + n) :
    amount.toNat = n := by
  have hb := credit_balance hc
  have h1 := v.balance.toNat_lt
  have h2 := amount.toNat_lt
  omega

/-- Where everything on its way is covered, so is every increase. -/
theorem coversIncrease_of_allCovered (h : AllCovered net w) (hen : net.Enabled w e) :
    CoversIncrease net w e := by
  intro i n hn hinc
  rcases next_money net e h.saved with
    ⟨j, q, hd⟩ | ⟨j, now, d, q, rfl, hq, hc⟩ | hquiet
  · -- The payer's balance falls, and the others stay as they are.
    by_cases hij : i = j
    · subst hij
      have hfall := hd.balance
      omega
    · rw [ClientState.balance, hd.wallets i hij, ClientState.balance] at hinc
      omega
  · by_cases hij : i = j
    · subst hij
      have hcovered : CoveredMessage net w (.payment q) := hq ▸ h.sent d hen.1
      exact ⟨now, d, q, rfl, hq, amount_of_increase hn hc.credit hinc,
        hcovered ⟨i, hc.accepts.1⟩⟩
    · rw [ClientState.balance, hc.wallets i hij, ClientState.balance] at hinc
      omega
  · rw [ClientState.balance, hquiet.wallets i, ClientState.balance] at hinc
    omega

/-- **No balance grows without a debit**, in any run in which outsiders inject no payment
to a client but such as repeat the amount and the id of an earlier debit. -/
theorem increases_covered (net : Network P ι κ) (b : Boot ι κ) (es : List (WorldEvent ι κ))
    (hrun : net.system.Always (InjectsCovered net) (net.start b) es) :
    net.system.Always (CoversIncrease net) (net.start b) es :=
  EventSystem.always_of_invariant (fun _ _ hI hen hok => allCovered_step hI hen hok)
    (fun _ _ hI hen _ => coversIncrease_of_allCovered hI hen) hrun
    ⟨filesSaved_start b, fun _ hd => absurd hd List.not_mem_nil⟩

/-- Alice pays bob, and an outsider hands him one more copy of her payment. -/
theorem replay_covered :
    let copy : Datagram := ⟨.v4 3 3, .v4 2 40000, .payment fiveForBob⟩
    aliceAndBob.system.Always (CoversIncrease aliceAndBob) (aliceAndBob.start aliceAndBobBoot)
      (paymentRun ++ [.inject copy, .clientRecv 1 0 copy]) :=
  increases_covered aliceAndBob aliceAndBobBoot _ (by decide +kernel)

/-! ## A payment out of nothing -/

/-- **Money is minted.**  A datagram from nowhere gives bob a thousand satoshis that
nobody has debited. -/
theorem money_minted :
    let minted : Payment := { srcId := "mallory", dstId := "bob", amount := 1000, paymentId := 9 }
    let d : Datagram := ⟨.v4 3 3, .v4 2 40000, .payment minted⟩
    let es : List (WorldEvent (Fin 2) (Fin 1)) := [.inject d, .clientRecv 1 0 d]
    let w := aliceAndBob.system.run (aliceAndBob.start aliceAndBobBoot) es
    aliceAndBob.system.Always (fun _ _ => True) (aliceAndBob.start aliceAndBobBoot) es ∧
    w.debited = [] ∧ (w.clients 1).balance = 1000 ∧
    ¬ aliceAndBob.system.Always (CoversIncrease aliceAndBob)
      (aliceAndBob.start aliceAndBobBoot) es := by
  refine ⟨by decide +kernel, by decide +kernel, by decide +kernel, fun h => ?_⟩
  obtain ⟨now, d, p, -, -, -, x, hx, -⟩ := h.2.2.2.1 1 1000 (by decide) (by decide +kernel)
  cases hx

end Network
end Zeta
