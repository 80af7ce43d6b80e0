import Zeta.Hops
import Zeta.Conservation

/-!
# What an acknowledgement proves

The payer keeps no list of the payments it waits for: any `PaymentAck` that names it and
has a fresh id is pushed to its feed as a confirmation.  Between honest nodes the
network keeps that list instead.  Every payment on its way was debited by the client it
names as its source, and every acknowledgement on its way belongs to a payment that the
client it names has credited (`Confirmed`).
-/

namespace Zeta
namespace Network

variable {P : Platform} {ι κ : Type} {net : Network P ι κ} {w w' : World ι κ}
  {e : WorldEvent ι κ}

/-- A client shows a confirmation only if the acknowledgement names it. -/
theorem isMe_of_acknowledged {ctx : ClientContext P.ed} {now : UInt64} {a : PaymentAck}
    {s : ClientState} (h : (recvLoop P ctx now (.paymentAck a) s).exit = .acknowledged) :
    ctx.IsMe a.toId := by
  by_contra hme
  cases hrun : s.receiving with
  | false =>
    rw [recvLoop_stopped hrun] at h
    cases h
  | true =>
    rw [recvLoop_receiving hrun, handleMsg, handlePaymentAck_notForMe hme] at h
    cases h

/-- **The invariant**: what a message on its way, or a credit, stands for. -/
structure Confirmed (net : Network P ι κ) (w : World ι κ) : Prop where
  saved : FilesSaved P w
  srcId : ∀ i p, (i, p) ∈ w.debited → p.srcId = (net.client i).peerId
  payments : ∀ d ∈ w.sent, ∀ p, d.msg = .payment p → ∃ i, (i, p) ∈ w.debited
  credits : ∀ k p, (k, p) ∈ w.credited → ∃ i, (i, p) ∈ w.debited
  acks : ∀ d ∈ w.sent, ∀ a, d.msg = .paymentAck a →
    ∃ k p, (k, p) ∈ w.credited ∧ a = p.ack (net.client k).peerId

theorem confirmed_start (b : Boot ι κ) : Confirmed net (net.start b) where
  saved := filesSaved_start b
  srcId := fun _ _ h => absurd h List.not_mem_nil
  payments := fun _ h => absurd h List.not_mem_nil
  credits := fun _ _ h => absurd h List.not_mem_nil
  acks := fun _ h => absurd h List.not_mem_nil

/-- Client `j` shows a confirmation only for a payment that it debited and that the client
the acknowledgement names has credited. -/
def AckSound (net : Network P ι κ) (w : World ι κ) : WorldEvent ι κ → Prop
  | .clientRecv j now d =>
    ∀ a, d.msg = .paymentAck a →
      (recvLoop P (net.client j) now d.msg (w.clients j)).exit = .acknowledged →
      ∃ k p, p.paymentId = a.paymentId ∧ (j, p) ∈ w.debited ∧
        (net.client k).peerId = a.fromId ∧ (k, p) ∈ w.credited
  | _ => True

section Steps
variable [DecidableEq ι] [DecidableEq κ]

/-- **What is entered is what happens to the wallets**: the step enters a debit and takes its
amount off that client's balance, or enters a credit and adds its amount to that client's wallet,
or enters nothing; and it changes no other wallet. -/
def Booked (net : Network P ι κ) (w : World ι κ) (e : WorldEvent ι κ) : Prop :=
  (∃ i p, Debits net w (net.next w e) i p) ∨ (∃ i p, Credits net w (net.next w e) i p) ∨
    Quiet w (net.next w e)

theorem booked_next (hfiles : FilesSaved P w) : Booked net w e := by
  rcases next_money net e hfiles with
    ⟨i, p, hd⟩ | ⟨i, now, d, p, -, -, hc⟩ | hquiet
  · exact Or.inl ⟨i, p, hd⟩
  · exact Or.inr (Or.inl ⟨i, p, hc⟩)
  · exact Or.inr (Or.inr hquiet)

/-- What is credited stays credited. -/
theorem credited_prefix_next (hfiles : FilesSaved P w) :
    w.credited <+: (net.next w e).credited := by
  rcases next_money net e hfiles with
    ⟨i, p, hd⟩ | ⟨i, now, d, p, -, -, hc⟩ | hquiet
  · rw [hd.credited]
  · rw [hc.credited]
    exact List.prefix_append _ _
  · rw [hquiet.credited]

theorem srcId_next (h : Confirmed net w) {i : ι} {p : Payment}
    (hp : (i, p) ∈ (net.next w e).debited) : p.srcId = (net.client i).peerId := by
  rcases next_money net e h.saved with
    ⟨j, q, hd⟩ | ⟨j, now, d, q, -, -, hc⟩ | hquiet
  · rw [hd.debited] at hp
    rcases List.mem_append.mp hp with hold | hnew
    · exact h.srcId i p hold
    · obtain ⟨rfl, rfl⟩ := Prod.mk.inj (List.mem_singleton.mp hnew)
      exact hd.srcId
  · rw [hc.debited] at hp
    exact h.srcId i p hp
  · rw [hquiet.debited] at hp
    exact h.srcId i p hp

/-- What is credited was delivered, so it was on its way and debited before. -/
theorem credits_next (h : Confirmed net w) (hen : net.Enabled w e) {k : ι} {p : Payment}
    (hp : (k, p) ∈ (net.next w e).credited) : ∃ i, (i, p) ∈ (net.next w e).debited := by
  suffices hbefore : ∃ i, (i, p) ∈ w.debited by
    obtain ⟨i, hi⟩ := hbefore
    exact ⟨i, (debited_prefix_next h.saved).subset hi⟩
  rcases next_money net e h.saved with
    ⟨j, q, hd⟩ | ⟨j, now, d, q, rfl, hq, hc⟩ | hquiet
  · rw [hd.credited] at hp
    exact h.credits k p hp
  · rw [hc.credited] at hp
    rcases List.mem_append.mp hp with hold | hnew
    · exact h.credits k p hold
    · obtain ⟨rfl, rfl⟩ := Prod.mk.inj (List.mem_singleton.mp hnew)
      exact h.payments d hen.1 p hq
  · rw [hquiet.credited] at hp
    exact h.credits k p hp

theorem payments_next (h : Confirmed net w) (hen : net.Enabled w e) (hok : NoOutsiders w e)
    {d : Datagram} (hd : d ∈ (net.next w e).sent) {p : Payment} (hp : d.msg = .payment p) :
    ∃ i, (i, p) ∈ (net.next w e).debited := by
  have hkeep : ∀ d₀ ∈ w.sent, d₀.msg = .payment p → ∃ i, (i, p) ∈ (net.next w e).debited := by
    intro d₀ hd₀ hp₀
    obtain ⟨i, hi⟩ := h.payments d₀ hd₀ p hp₀
    exact ⟨i, (debited_prefix_next h.saved).subset hi⟩
  rcases sent_origin hen hd with hold | rfl | horigin
  · exact hkeep d hold hp
  · cases hok
  · rw [hp] at horigin
    cases horigin with
    | paid hpaid => exact ⟨_, hpaid⟩
    | relayed hold hmsg => exact hkeep _ hold hmsg

theorem acks_next (h : Confirmed net w) (hen : net.Enabled w e) (hok : NoOutsiders w e)
    {d : Datagram} (hd : d ∈ (net.next w e).sent) {a : PaymentAck} (ha : d.msg = .paymentAck a) :
    ∃ k p, (k, p) ∈ (net.next w e).credited ∧ a = p.ack (net.client k).peerId := by
  have hkeep : ∀ d₀ ∈ w.sent, d₀.msg = .paymentAck a →
      ∃ k p, (k, p) ∈ (net.next w e).credited ∧ a = p.ack (net.client k).peerId := by
    intro d₀ hd₀ ha₀
    obtain ⟨k, p, hp, heq⟩ := h.acks d₀ hd₀ a ha₀
    exact ⟨k, p, (credited_prefix_next h.saved).subset hp, heq⟩
  rcases sent_origin hen hd with hold | rfl | horigin
  · exact hkeep d hold ha
  · cases hok
  · rw [ha] at horigin
    cases horigin with
    | acknowledged hcredited => exact ⟨_, _, hcredited, rfl⟩
    | relayed hold hmsg => exact hkeep _ hold hmsg

/-- **The invariant is preserved** by every step of honest nodes, restarts included. -/
theorem confirmed_next (h : Confirmed net w) (hen : net.Enabled w e) (hok : NoOutsiders w e) :
    Confirmed net (net.next w e) where
  saved := filesSaved_next h.saved
  srcId := fun _ _ hp => srcId_next h hp
  payments := fun _ hd _ hp => payments_next h hen hok hd hp
  credits := fun _ _ hp => credits_next h hen hp
  acks := fun _ hd _ ha => acks_next h hen hok hd ha

omit [DecidableEq ι] [DecidableEq κ] in
/-- A confirmation is for the client that debited the payment, as no other client has its
name. -/
theorem ackSound_of_confirmed
    (hnames : ∀ i j id, (net.client i).IsMe id → (net.client j).IsMe id → i = j)
    (h : Confirmed net w) (hen : net.Enabled w e) : AckSound net w e := by
  cases e with
  | clientRecv j now d =>
    intro a ha hexit
    obtain ⟨k, p, hcredited, rfl⟩ := h.acks d hen.1 a ha
    obtain ⟨i, hdebited⟩ := h.credits k p hcredited
    have hme : (net.client j).IsMe p.srcId := by
      rw [ha] at hexit
      exact isMe_of_acknowledged hexit
    have hsrc : (net.client i).IsMe p.srcId := by
      rw [h.srcId i p hdebited]
      exact (net.client i).isMe_peerId
    obtain rfl := hnames i j p.srcId hsrc hme
    exact ⟨k, p, rfl, hdebited, rfl, hcredited⟩
  | pay _ _ _ _ | say _ _ _ _ | register _ _ | relayRecv _ _ | console _ _ _ _ | federate _ _
  | repeer _ _ | restart _ _ _ | inject _ => trivial

/-- **Acknowledgements are sound.**  In every run of honest nodes whose clients share no
identifier, whatever is lost, repeated, delayed or reordered and whoever restarts, a
client that confirms a payment has debited it, and the client that the acknowledgement
comes from has credited it, with the same amount.  Debited and credited is what was taken off
and added to the balances at the steps before. -/
theorem ack_sound (net : Network P ι κ) (b : Boot ι κ) (es : List (WorldEvent ι κ))
    (hnames : ∀ i j id, (net.client i).IsMe id → (net.client j).IsMe id → i = j)
    (hrun : net.system.Always NoOutsiders (net.start b) es) :
    net.system.Always (fun w e => AckSound net w e ∧ Booked net w e) (net.start b) es :=
  EventSystem.always_of_invariant (fun _ _ h hen hok => confirmed_next h hen hok)
    (fun _ _ h hen _ => ⟨ackSound_of_confirmed hnames h hen, booked_next h.saved⟩) hrun
    (confirmed_start b)

end Steps

/-- When alice sees the confirmation she has debited the five satoshis and bob has them. -/
theorem ackRun_sound :
    aliceAndBob.system.Always (fun w e => AckSound aliceAndBob w e ∧ Booked aliceAndBob w e)
      (aliceAndBob.start aliceAndBobBoot) ackRun :=
  ack_sound aliceAndBob aliceAndBobBoot ackRun aliceAndBob_names (by decide +kernel)

/-- The run does end with a confirmation. -/
example :
    let w := aliceAndBob.system.run (aliceAndBob.start aliceAndBobBoot) ackRun
    (w.clients 0).app.messages.map ChatMessage.msgType = ["payment_sent", "payment_ack"] := by
  decide +kernel

end Network
end Zeta
