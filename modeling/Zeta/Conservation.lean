import Zeta.NetworkSteps
import Zeta.Ledger
import Zeta.Escrow
import Zeta.SamplePlatform

/-!
# Money among honest nodes

While nobody forges datagrams, no client is restarted and no cache forgets an id, the
network is a money-in-escrow system: its balances, and the payments debited and not yet
credited, move as those of an `Escrow` do (`ledger_refines`).  So the money is
conserved, and no credit overflows if all of it fits a `u64` (`sats_conserved`).
-/

namespace Zeta

/-- The payments debited, as often as they were. -/
def World.debits {ι κ : Type} (w : World ι κ) : Multiset Payment := w.debited.map Prod.snd

/-- The payments credited, as often as they were. -/
def World.credits {ι κ : Type} (w : World ι κ) : Multiset Payment := w.credited.map Prod.snd

/-- The network as an escrow: the balances, and the payments debited but not credited. -/
def World.ledger {ι κ : Type} (w : World ι κ) : Escrow ι Payment where
  balance i := (w.clients i).balance
  pending := w.debits - w.credits

/-- The amount of a payment, as a number. -/
def Payment.sats (p : Payment) : ℕ := p.amount.toNat

namespace Network

variable {P : Platform} {ι κ : Type} {net : Network P ι κ} {w w' : World ι κ}
  {e : WorldEvent ι κ} {i : ι} {p : Payment}

/-- Nobody forges a datagram, restarts a client, or makes a client's cache forget an id. -/
def Honest (net : Network P ι κ) (w : World ι κ) : WorldEvent ι κ → Prop
  | .inject _ | .restart _ _ _ => False
  | .clientRecv i _ d =>
    (w.clients i).receiving = true → evictedBy (net.client i) d.msg (w.clients i) = none
  | _ => True

instance (w : World ι κ) : (e : WorldEvent ι κ) → Decidable (Honest net w e)
  | .inject _ | .restart _ _ _ => isFalse id
  | .clientRecv i _ d =>
    inferInstanceAs (Decidable ((w.clients i).receiving = true →
      evictedBy (net.client i) d.msg (w.clients i) = none))
  | .pay _ _ _ _ | .say _ _ _ _ | .register _ _ | .relayRecv _ _ | .console _ _ _ _
  | .federate _ _ | .repeer _ _ => isTrue trivial

/-- The step credits nothing that takes a balance to `2^64`. -/
def NoCreditOverflow (net : Network P ι κ) (w : World ι κ) : WorldEvent ι κ → Prop
  | .clientRecv i now d => NoOverflow (net.client i) (w.clients i) (.recv now d.msg)
  | _ => True

/-- **The invariant**: what is on its way was debited, what was credited is cached by the
client it names, and nothing is credited more often than it was debited. -/
structure Kept (net : Network P ι κ) (w : World ι κ) : Prop where
  saved : FilesSaved P w
  sent : ∀ d ∈ w.sent, ∀ p, d.msg = .payment p → p ∈ w.debits
  cached : ∀ i p, (i, p) ∈ w.credited → (net.client i).IsMe p.dstId ∧
    paymentKey p.paymentId ∈ (w.clients i).seen.set
  credits_le : w.credits ≤ w.debits

theorem kept_start (b : Boot ι κ) : Kept net (net.start b) := by
  refine ⟨filesSaved_start b, ?_, ?_, ?_⟩
  · intro d hd
    exact absurd hd List.not_mem_nil
  · intro i p hx
    exact absurd hx List.not_mem_nil
  · simp [World.credits, World.debits, start]

/-! ## The books -/

theorem Debits.debits (h : Debits net w w' i p) : w'.debits = p ::ₘ w.debits := by
  rw [World.debits, h.debited, List.map_append, ← Multiset.coe_add, add_comm]
  rfl

theorem Credits.credits (h : Credits net w w' i p) : w'.credits = p ::ₘ w.credits := by
  rw [World.credits, h.credited, List.map_append, ← Multiset.coe_add, add_comm]
  rfl

theorem Quiet.ledger (h : Quiet w w') : w'.ledger = w.ledger := by
  simp only [World.ledger, World.debits, World.credits, h.debited, h.credited, Escrow.mk.injEq,
    and_true]
  funext j
  rw [ClientState.balance, h.wallets j, ClientState.balance]

/-- A pending payment fits the balance of whoever receives it, if all the money fits a
`u64`. -/
theorem fits_of_mem_pending [Fintype ι] (hpending : p ∈ w.ledger.pending)
    (htotal : Escrow.total Payment.sats w.ledger < 2 ^ 64) (i : ι) :
    (w.clients i).balance + p.sats < 2 ^ 64 :=
  Nat.lt_of_le_of_lt (Escrow.balance_add_amount_le Payment.sats hpending i) htotal

section Accounts
variable [DecidableEq ι]

/-- A debit moves money into escrow. -/
theorem Debits.ledger (h : Debits net w w' i p) (hle : w.credits ≤ w.debits) :
    (Escrow.system Payment.sats).Enabled w.ledger (.pay i p) ∧
      w'.ledger = (Escrow.system Payment.sats).next w.ledger (.pay i p) := by
  have hbalance : (w'.clients i).balance + p.sats = (w.clients i).balance := h.balance
  refine ⟨by simp only [Escrow.system, World.ledger]; omega, ?_⟩
  have hcredits : w'.credits = w.credits := by rw [World.credits, h.credited, World.credits]
  simp only [World.ledger, Escrow.system, Escrow.mk.injEq]
  constructor
  · funext j
    by_cases hj : j = i
    · subst hj
      rw [Function.update_self]
      omega
    · rw [Function.update_of_ne hj, ClientState.balance, h.wallets j hj, ClientState.balance]
  · rw [h.debits, hcredits, Multiset.cons_sub_of_le p hle]

/-- A credit that does not overflow moves money out of escrow. -/
theorem Credits.ledger (h : Credits net w w' i p) (hpending : p ∈ w.ledger.pending)
    (hfits : (w.clients i).balance + p.sats < 2 ^ 64) :
    (Escrow.system Payment.sats).Enabled w.ledger (.credit i p) ∧
      w'.ledger = (Escrow.system Payment.sats).next w.ledger (.credit i p) := by
  refine ⟨hpending, ?_⟩
  have hbalance : (w'.clients i).balance = (w.clients i).balance + p.sats := by
    rw [ClientState.balance, credit_balance h.credit]
    exact Nat.mod_eq_of_lt hfits
  have hdebits : w'.debits = w.debits := by rw [World.debits, h.debited, World.debits]
  simp only [World.ledger, Escrow.system, Escrow.mk.injEq]
  constructor
  · funext j
    by_cases hj : j = i
    · subst hj
      rw [Function.update_self, hbalance]
    · rw [Function.update_of_ne hj, ClientState.balance, h.wallets j hj, ClientState.balance]
  · rw [h.credits, hdebits, ← Multiset.sub_singleton, tsub_tsub, add_comm, Multiset.singleton_add]

end Accounts

/-! ## What is pending -/

section Names
variable (hnames : ∀ i j id, (net.client i).IsMe id → (net.client j).IsMe id → i = j)
include hnames

/-- A payment that a client accepts has not been credited by anybody. -/
theorem not_mem_credits (h : Kept net w) (hacc : Accepts (net.client i) (w.clients i) p) :
    p ∉ w.credits := by
  intro hmem
  obtain ⟨⟨j, q⟩, hx, rfl⟩ := List.mem_map.mp (Multiset.mem_coe.mp hmem)
  -- Whoever credited it has it cached, and nobody but `i` is called by that name.
  obtain ⟨hme, hcached⟩ := h.cached j q hx
  obtain rfl := hnames i j q.dstId hacc.1 hme
  exact hacc.2 hcached

/-- A payment that is delivered and accepted is pending. -/
theorem mem_pending (h : Kept net w) {d : Datagram} (hd : d ∈ w.sent) (hp : d.msg = .payment p)
    (hacc : Accepts (net.client i) (w.clients i) p) : p ∈ w.ledger.pending := by
  have hdebited : p ∈ w.debits := h.sent d hd p hp
  have hnot : w.credits.count p = 0 :=
    Multiset.count_eq_zero.mpr (not_mem_credits hnames h hacc)
  rw [World.ledger, ← Multiset.count_pos, Multiset.count_sub, hnot, Nat.sub_zero,
    Multiset.count_pos]
  exact hdebited

/-- No credit overflows while all the money fits a `u64`. -/
theorem noCreditOverflow_of_kept [Fintype ι] (h : Kept net w) (hen : net.Enabled w e)
    (htotal : Escrow.total Payment.sats w.ledger < 2 ^ 64) : NoCreditOverflow net w e := by
  cases e with
  | clientRecv i now d =>
    rw [NoCreditOverflow]
    cases hp : d.msg with
    | payment p =>
      intro _ hacc
      exact fits_of_mem_pending (mem_pending hnames h hen.1 hp hacc) htotal i
    | classic _ | paymentAck _ | register _ | connect _ | askForAddr _ | peerInfo _ _ => trivial
  | inject _ | restart _ _ _ | pay _ _ _ _ | say _ _ _ _ | register _ _ | relayRecv _ _
  | console _ _ _ _ | federate _ _ | repeer _ _ => trivial

end Names

/-! ## Steps -/

section Steps
variable [DecidableEq ι] [DecidableEq κ]

/-- A cached id stays cached while all are honest. -/
theorem mem_seen_next (hok : Honest net w e) {i : ι} {k : UInt64}
    (h : k ∈ (w.clients i).seen.set) : k ∈ ((net.next w e).clients i).seen.set := by
  have hupdate : ∀ j (s : ClientState), (k ∈ (w.clients j).seen.set → k ∈ s.seen.set) →
      k ∈ (Function.update w.clients j s i).seen.set := by
    intro j s hs
    have hall := (Function.forall_update_iff w.clients
      (fun x (s : ClientState) => k ∈ (w.clients x).seen.set → k ∈ s.seen.set)).mpr
      ⟨hs, fun _ _ => id⟩
    exact hall i h
  cases e with
  | inject _ | restart _ _ _ => cases hok
  | relayRecv _ _ | console _ _ _ _ | federate _ _ | repeer _ _ => exact h
  | register j now => exact hupdate j _ id
  | say j now msgId text => exact hupdate j _ id
  | pay j now paymentId args => exact hupdate j _ (fun hk => by rwa [doPay_seen])
  | clientRecv j now d =>
    apply hupdate j
    intro hk
    cases hrun : (w.clients j).receiving with
    | false =>
      rw [recvLoop_stopped hrun]
      exact hk
    | true =>
      rw [recvLoop_receiving hrun]
      rcases mem_seen_handleMsg P (net.client j) now d.msg hk with
        hstay | hevicted
      · exact hstay
      · rw [hok hrun] at hevicted
        cases hevicted

/-- Every payment on its way was debited, while nobody forges one. -/
theorem sent_next (h : Kept net w) (hen : net.Enabled w e) (hok : Honest net w e) :
    ∀ d ∈ (net.next w e).sent, ∀ p, d.msg = .payment p → p ∈ (net.next w e).debits := by
  intro d hd p hp
  have hle : w.debits ≤ (net.next w e).debits :=
    Multiset.coe_le.mpr ((debited_prefix_next h.saved).sublist.map Prod.snd).subperm
  rcases sent_origin hen hd with hold | rfl | horigin
  · exact Multiset.mem_of_le hle (h.sent d hold p hp)
  · cases hok
  · rw [hp] at horigin
    cases horigin with
    | paid hpaid => exact Multiset.mem_coe.mpr (List.mem_map_of_mem hpaid)
    | relayed hold hmsg => exact Multiset.mem_of_le hle (h.sent _ hold p hmsg)

section Names
variable (hnames : ∀ i j id, (net.client i).IsMe id → (net.client j).IsMe id → i = j)
include hnames

/-- **The invariant is preserved.** -/
theorem kept_step (h : Kept net w) (hen : net.Enabled w e) (hok : Honest net w e) :
    Kept net (net.next w e) := by
  have hsaved : FilesSaved P (net.next w e) := filesSaved_next h.saved
  have hsent := sent_next h hen hok
  have hkeep : ∀ i p, (i, p) ∈ w.credited → (net.client i).IsMe p.dstId ∧
      paymentKey p.paymentId ∈ ((net.next w e).clients i).seen.set := by
    intro i p hx
    obtain ⟨hme, hcached⟩ := h.cached i p hx
    exact ⟨hme, mem_seen_next hok hcached⟩
  rcases next_money net e h.saved with
    ⟨i, p, hd⟩ | ⟨i, now, d, p, rfl, hp, hc⟩ | hquiet
  · refine ⟨hsaved, hsent, ?_, ?_⟩
    · rw [hd.credited]
      exact hkeep
    · rw [World.credits, hd.credited, hd.debits]
      exact h.credits_le.trans (Multiset.le_cons_self _ _)
  · have hpending := mem_pending hnames h hen.1 hp hc.accepts
    refine ⟨hsaved, hsent, ?_, ?_⟩
    · intro j q hx
      rw [hc.credited] at hx
      rcases List.mem_append.mp hx with hold | hnew
      · exact hkeep j q hold
      · obtain ⟨rfl, rfl⟩ := Prod.mk.inj (List.mem_singleton.mp hnew)
        exact ⟨hc.accepts.1, hc.cached⟩
    · -- The payment credited was pending: debited once more often than credited.
      rw [hc.credits, World.debits, hc.debited, ← Multiset.singleton_add, add_comm]
      calc w.credits + {p} ≤ w.credits + (w.debits - w.credits) :=
            add_le_add le_rfl (Multiset.singleton_le.mpr hpending)
        _ = w.debits := add_tsub_cancel_of_le h.credits_le
  · refine ⟨hsaved, hsent, ?_, ?_⟩
    · rw [hquiet.credited]
      exact hkeep
    · rw [World.credits, World.debits, hquiet.credited, hquiet.debited]
      exact h.credits_le

/-- Seen from the books, a step is a move of the escrow, or nothing. -/
theorem ledger_step [Fintype ι] (h : Kept net w) (hen : net.Enabled w e)
    (htotal : Escrow.total Payment.sats w.ledger < 2 ^ 64) :
    (net.next w e).ledger = w.ledger ∨
      ∃ m, (Escrow.system Payment.sats).Enabled w.ledger m ∧
        (net.next w e).ledger = (Escrow.system Payment.sats).next w.ledger m := by
  rcases next_money net e h.saved with
    ⟨i, p, hd⟩ | ⟨i, now, d, p, rfl, hp, hc⟩ | hquiet
  · exact Or.inr ⟨_, hd.ledger h.credits_le⟩
  · have hpending := mem_pending hnames h hen.1 hp hc.accepts
    exact Or.inr ⟨_, hc.ledger hpending (fits_of_mem_pending hpending htotal i)⟩
  · exact Or.inl hquiet.ledger

/-- **Honest nodes refine an escrow** whose money, `T`, fits a `u64`. -/
theorem ledger_refines [Fintype ι] {T : ℕ} (hT : T < 2 ^ 64) :
    EventSystem.Refines net.system (Escrow.system Payment.sats) World.ledger
      (fun w => Kept net w ∧ Escrow.total Payment.sats w.ledger = T) (Honest net) where
  step := by
    rintro w e ⟨hkept, htotal⟩ hen -
    exact ledger_step hnames hkept hen (htotal ▸ hT)
  invariant := by
    rintro w e ⟨hkept, htotal⟩ hen hok
    refine ⟨kept_step hnames hkept hen hok, ?_⟩
    show Escrow.total Payment.sats (net.next w e).ledger = T
    rcases ledger_step hnames hkept hen (htotal ▸ hT) with hstay | ⟨m, hm, hstep⟩
    · rw [hstay, htotal]
    · rw [hstep, Escrow.total_next hm, htotal]

end Names

/-! ## Runs -/

/-- Every run among honest nodes is, seen from the books, a run of the escrow. -/
theorem exists_escrow_run [Fintype ι] (b : Boot ι κ) {es : List (WorldEvent ι κ)}
    (hnames : ∀ i j id, (net.client i).IsMe id → (net.client j).IsMe id → i = j)
    (htotal : Escrow.total Payment.sats (net.start b).ledger < 2 ^ 64)
    (hrun : net.system.Always (Honest net) (net.start b) es) :
    ∃ ms, (Escrow.system Payment.sats).Always (fun _ _ => True) (net.start b).ledger ms ∧
      (Escrow.system Payment.sats).run (net.start b).ledger ms =
        (net.system.run (net.start b) es).ledger :=
  (ledger_refines hnames htotal).exists_run ⟨kept_start b, rfl⟩ hrun

/-- The invariant at the end of a run, and the books. -/
theorem kept_run [Fintype ι] (b : Boot ι κ) {es : List (WorldEvent ι κ)}
    (hnames : ∀ i j id, (net.client i).IsMe id → (net.client j).IsMe id → i = j)
    (htotal : ∑ i, ((net.start b).clients i).balance < 2 ^ 64)
    (hrun : net.system.Always (Honest net) (net.start b) es) :
    let w := net.system.run (net.start b) es
    Kept net w ∧ Escrow.total Payment.sats w.ledger = ∑ i, ((net.start b).clients i).balance :=
  EventSystem.invariant_run (ledger_refines hnames htotal).invariant hrun
    ⟨kept_start b, by simp [Escrow.total, World.ledger, World.debits, World.credits, start]⟩

/-- **Satoshis are conserved among honest nodes.**  In every run of clients that share no
identifier and start with a total that fits a `u64`, the balances and the payments
debited but not credited always add up to that total, and no credit overflows. -/
theorem sats_conserved [Fintype ι] (net : Network P ι κ) (b : Boot ι κ)
    (es : List (WorldEvent ι κ))
    (hnames : ∀ i j id, (net.client i).IsMe id → (net.client j).IsMe id → i = j)
    (htotal : ∑ i, ((net.start b).clients i).balance < 2 ^ 64)
    (hrun : net.system.Always (Honest net) (net.start b) es) :
    let w := net.system.run (net.start b) es
    ∑ i, (w.clients i).balance + ((w.debits - w.credits).map Payment.sats).sum =
        ∑ i, ((net.start b).clients i).balance ∧
      w.credits ≤ w.debits ∧
      net.system.Always (NoCreditOverflow net) (net.start b) es := by
  intro w
  have hempty : (net.start b).ledger.pending = 0 := rfl
  have hstart : Escrow.total Payment.sats (net.start b).ledger =
      ∑ i, ((net.start b).clients i).balance := by
    rw [Escrow.total, hempty, Multiset.map_zero, Multiset.sum_zero, Nat.add_zero]
    rfl
  rw [← hstart] at htotal
  obtain ⟨ms, hms, hbooks⟩ := exists_escrow_run b hnames htotal hrun
  have hrefines := ledger_refines hnames htotal
  refine ⟨?_, ?_, ?_⟩
  · show Escrow.total Payment.sats w.ledger = _
    calc Escrow.total Payment.sats w.ledger
        = Escrow.total Payment.sats (net.start b).ledger := by
          rw [← hbooks, Escrow.total_run hms]
      _ = ∑ i, ((net.start b).clients i).balance := hstart
  · exact (EventSystem.invariant_run hrefines.invariant hrun ⟨kept_start b, rfl⟩).1.credits_le
  · exact EventSystem.always_of_invariant hrefines.invariant
      (fun w e hI hen _ => noCreditOverflow_of_kept hnames hI.1 hen (hI.2 ▸ htotal)) hrun
      ⟨kept_start b, rfl⟩

end Steps

/-! ## A run between alice and bob -/

/-- Alice's payment moves her five satoshis to bob, who has them once. -/
theorem paymentRun_conserved :
    let start := aliceAndBob.start aliceAndBobBoot
    let w := aliceAndBob.system.run start paymentRun
    ∑ i, (w.clients i).balance + ((w.debits - w.credits).map Payment.sats).sum =
        ∑ i, (start.clients i).balance ∧
      w.credits ≤ w.debits ∧
      aliceAndBob.system.Always (NoCreditOverflow aliceAndBob) start paymentRun :=
  sats_conserved aliceAndBob aliceAndBobBoot paymentRun aliceAndBob_names (by decide +kernel)
    (by decide +kernel)

end Network
end Zeta
