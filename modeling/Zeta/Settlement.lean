import Zeta.Acks
import Zeta.Routing

/-!
# Every payment settles

The program never sends a payment twice and keeps no list of the payments it waits for,
so whether a payment arrives is up to the network.  Among honest nodes it does arrive if
the network loses nothing and the relays know the clients: once every datagram has been
delivered, whatever was repeated, delayed or reordered on the way, every payment debited
has been credited once, and its payer has been shown one confirmation (`payments_settle`).

The ids have to be different.  A payment whose key, or whose acknowledgement's key, is
cached under another id of the same value is dropped as a duplicate.
-/

namespace Zeta

variable {P : Platform} {ι κ : Type}

/-- The keys under which a payment and its acknowledgement are cached. -/
def Payment.keys (p : Payment) : List UInt64 := [paymentKey p.paymentId, ackKey p.paymentId]

/-- The id of a text. -/
def Message.textId : Message → Option UInt64
  | .classic m => some m.msgId
  | _ => none

/-- The payment that an acknowledgement is for. -/
def Message.ackId : Message → Option UInt64
  | .paymentAck a => some a.paymentId
  | _ => none

/-- The keys of the payments debited so far. -/
def World.paymentKeys (w : World ι κ) : List UInt64 := w.debited.flatMap (fun x => x.2.keys)

/-- The ids of the texts sent so far. -/
def World.textIds (w : World ι κ) : List UInt64 := w.sent.filterMap (fun d => d.msg.textId)

/-- The key is neither that of a payment or an acknowledgement nor the id of a text. -/
def World.Fresh (w : World ι κ) (k : UInt64) : Prop := k ∉ w.paymentKeys ∧ k ∉ w.textIds

instance (w : World ι κ) (k : UInt64) : Decidable (w.Fresh k) :=
  inferInstanceAs (Decidable (_ ∧ _))

/-- With this map a relay passes on what is for `id` to `addr` at least: the address is found
under that name, or no address is and this one is not the sender's. -/
def LeadsTo (peers : PeersMap) (sender : SocketAddr) (id : String) (addr : SocketAddr) : Prop :=
  findPeer peers id = some addr ∨
    (findPeer peers id = none ∧ addr ∈ broadcastTo peers sender)

instance (peers : PeersMap) (sender : SocketAddr) (id : String) (addr : SocketAddr) :
    Decidable (LeadsTo peers sender id addr) :=
  inferInstanceAs (Decidable (_ ∨ _))

namespace Network

/-- The event hands `d` to relay `r`. -/
def HandsToRelay (r : κ) (d : Datagram) : WorldEvent ι κ → Prop
  | .relayRecv r' d' => r' = r ∧ d' = d
  | _ => False

/-- The event hands `d` to client `i`. -/
def HandsToClient (i : ι) (d : Datagram) : WorldEvent ι κ → Prop
  | .clientRecv i' _ d' => i' = i ∧ d' = d
  | _ => False

/-- Every datagram sent was handed, once or more, to every node at its destination. -/
structure NothingLost (net : Network P ι κ) (w : World ι κ) (es : List (WorldEvent ι κ)) :
    Prop where
  toRelays : ∀ d ∈ w.sent, ∀ r, d.dst = (net.relay r).addr → ∃ e ∈ es, HandsToRelay r d e
  toClients : ∀ d ∈ w.sent, ∀ i, d.dst = w.addr i → ∃ e ∈ es, HandsToClient i d e

/-- What is assumed of a step, besides honesty: a payment is for somebody, the ids drawn
are new, and a relay that receives a payment or an acknowledgement knows whom it is for. -/
def Orderly (net : Network P ι κ) (w : World ι κ) : WorldEvent ι κ → Prop
  | .pay i now paymentId args =>
    (∀ p ∈ (doPay P (net.client i) now paymentId args (w.clients i)).exit.payments,
      ∃ j, (net.client j).IsMe p.dstId) ∧
    w.Fresh (paymentKey paymentId) ∧ w.Fresh (ackKey paymentId)
  | .say _ _ msgId _ | .console _ _ msgId _ => msgId ∉ w.paymentKeys
  | .relayRecv r d =>
    ∀ id ∈ d.msg.routeId, ∀ j, (net.client j).IsMe id →
      LeadsTo (w.relays r).peers d.src id (w.addr j)
  | _ => True

section Decidable
variable [DecidableEq ι] [DecidableEq κ] [Fintype ι] [Fintype κ]

instance (r : κ) (d : Datagram) : (e : WorldEvent ι κ) → Decidable (HandsToRelay r d e)
  | .relayRecv _ _ => inferInstanceAs (Decidable (_ ∧ _))
  | .pay _ _ _ _ | .say _ _ _ _ | .register _ _ | .clientRecv _ _ _ | .console _ _ _ _
  | .federate _ _ | .repeer _ _ | .restart _ _ _ | .inject _ => isFalse id

instance (i : ι) (d : Datagram) : (e : WorldEvent ι κ) → Decidable (HandsToClient i d e)
  | .clientRecv _ _ _ => inferInstanceAs (Decidable (_ ∧ _))
  | .pay _ _ _ _ | .say _ _ _ _ | .register _ _ | .relayRecv _ _ | .console _ _ _ _
  | .federate _ _ | .repeer _ _ | .restart _ _ _ | .inject _ => isFalse id

instance (net : Network P ι κ) (w : World ι κ) (es : List (WorldEvent ι κ)) :
    Decidable (NothingLost net w es) :=
  decidable_of_iff ((∀ d ∈ w.sent, ∀ r, d.dst = (net.relay r).addr →
      ∃ e ∈ es, HandsToRelay r d e) ∧
    ∀ d ∈ w.sent, ∀ i, d.dst = w.addr i → ∃ e ∈ es, HandsToClient i d e)
    ⟨fun h => ⟨h.1, h.2⟩, fun h => ⟨h.toRelays, h.toClients⟩⟩

instance (net : Network P ι κ) (w : World ι κ) : (e : WorldEvent ι κ) →
    Decidable (Orderly net w e)
  | .pay _ _ _ _ => inferInstanceAs (Decidable ((∀ p ∈ _, _) ∧ _ ∧ _))
  | .say _ _ _ _ | .console _ _ _ _ => inferInstanceAs (Decidable (¬ _))
  | .relayRecv _ _ => inferInstanceAs (Decidable (∀ id ∈ _, _))
  | .register _ _ | .clientRecv _ _ _ | .federate _ _ | .repeer _ _ | .restart _ _ _
  | .inject _ => isTrue trivial

end Decidable

/-- Client `i` is shown the confirmation of a payment. -/
def ShownTo (net : Network P ι κ) (i : ι) (paymentId : UInt64) (w : World ι κ) :
    WorldEvent ι κ → Prop
  | .clientRecv j now d =>
    j = i ∧ d.msg.ackId = some paymentId ∧
      (recvLoop P (net.client j) now d.msg (w.clients j)).exit = .acknowledged
  | _ => False

instance (net : Network P ι κ) [DecidableEq ι] (i : ι) (paymentId : UInt64) (w : World ι κ) :
    (e : WorldEvent ι κ) → Decidable (ShownTo net i paymentId w e)
  | .clientRecv _ _ _ => inferInstanceAs (Decidable (_ ∧ _ ∧ _))
  | .pay _ _ _ _ | .say _ _ _ _ | .register _ _ | .relayRecv _ _ | .console _ _ _ _
  | .federate _ _ | .repeer _ _ | .restart _ _ _ | .inject _ => isFalse id

/-- Counts the confirmations of a payment that client `i` is shown. -/
def confirmations (net : Network P ι κ) [DecidableEq ι] (i : ι) (paymentId : UInt64)
    (w : World ι κ) (e : WorldEvent ι κ) : ℕ :=
  if ShownTo net i paymentId w e then 1 else 0

/-- Client `i` has debited a payment with this id. -/
def Owns (w : World ι κ) (i : ι) (paymentId : UInt64) : Prop :=
  ∃ x ∈ w.debited, x.1 = i ∧ x.2.paymentId = paymentId

instance [DecidableEq ι] (w : World ι κ) (i : ι) (paymentId : UInt64) :
    Decidable (Owns w i paymentId) :=
  inferInstanceAs (Decidable (∃ x ∈ w.debited, _))

/-- The confirmations that client `i` has been shown, read off the payments it debited and
its cache. -/
def confirmed (i : ι) (paymentId : UInt64) (w : World ι κ) [DecidableEq ι] : ℕ :=
  if Owns w i paymentId ∧ ackKey paymentId ∈ (w.clients i).seen.set then 1 else 0

/-- What a cached key stands for: a text, a payment that the client credited, or the
acknowledgement of a payment that it debited. -/
def CachedFor (w : World ι κ) (i : ι) (k : UInt64) : Prop :=
  k ∈ w.textIds ∨ (∃ p, (i, p) ∈ w.credited ∧ k = paymentKey p.paymentId) ∨
    ∃ p, (i, p) ∈ w.debited ∧ k = ackKey p.paymentId

/-- **The invariant.**  All the money there is comes to `T`. -/
structure Settling [Fintype ι] (net : Network P ι κ) (T : ℕ) (w : World ι κ) : Prop where
  kept : Kept net w
  total : Escrow.total Payment.sats w.ledger = T
  confirmed : Confirmed net w
  receiving : ∀ i, (w.clients i).receiving = true
  keys : w.paymentKeys.Nodup
  texts : ∀ k ∈ w.textIds, k ∉ w.paymentKeys
  cached : ∀ i, ∀ k ∈ (w.clients i).seen.set, CachedFor w i k
  named : ∀ i p, (i, p) ∈ w.debited → ∃ j, (net.client j).IsMe p.dstId
  launched : ∀ i p, (i, p) ∈ w.debited → ∀ addr ∈ (net.client i).relayAddrs,
    ∃ d ∈ w.sent, d.msg = .payment p ∧ d.dst = addr
  answered : ∀ j p, (j, p) ∈ w.credited → ∀ addr ∈ (net.client j).relayAddrs,
    ∃ d ∈ w.sent, d.msg = .paymentAck (p.ack (net.client j).peerId) ∧ d.dst = addr

variable {net : Network P ι κ} {w : World ι κ} {e : WorldEvent ι κ} {d : Datagram}
  {i j : ι} {p q : Payment} {k : UInt64}

/-! ## Keys -/

theorem paymentKey_ne_ackKey (id : UInt64) : paymentKey id ≠ ackKey id := by
  intro h
  have hmask : (0xFFFF_FFFF_0000_0000 : UInt64) = 0xFFFF_0000_FFFF_0000 :=
    (UInt64.xor_right_inj id).mp h
  cases hmask

/-- The keys of a payment are new when it is made. -/
theorem fresh_of_mem_keys {now : UInt64} {args : String}
    (hok : Orderly net w (.pay i now p.paymentId args)) (hk : k ∈ p.keys) : w.Fresh k := by
  rcases List.mem_pair.mp hk with rfl | rfl
  · exact hok.2.1
  · exact hok.2.2

theorem mem_paymentKeys (h : (i, p) ∈ w.debited) (hk : k ∈ p.keys) : k ∈ w.paymentKeys :=
  List.mem_flatMap.mpr ⟨(i, p), h, hk⟩

theorem mem_textIds {m : Classic} (hd : d ∈ w.sent) (hm : d.msg = .classic m) :
    m.msgId ∈ w.textIds :=
  List.mem_filterMap.mpr ⟨d, hd, by rw [hm, Message.textId]⟩

theorem exists_of_mem_textIds (h : k ∈ w.textIds) :
    ∃ d ∈ w.sent, ∃ m, d.msg = .classic m ∧ m.msgId = k := by
  obtain ⟨d, hd, hk⟩ := List.mem_filterMap.mp h
  refine ⟨d, hd, ?_⟩
  cases hmsg : d.msg with
  | classic m =>
    rw [hmsg] at hk
    exact ⟨m, rfl, Option.some.inj hk⟩
  | payment _ | paymentAck _ | register _ | connect _ | askForAddr _ | peerInfo _ _ =>
    rw [hmsg] at hk
    cases hk

/-- Payments with a key in common are one. -/
theorem eq_of_mem_keys (hkeys : w.paymentKeys.Nodup) (hp : (i, p) ∈ w.debited)
    (hq : (j, q) ∈ w.debited) (hkp : k ∈ p.keys) (hkq : k ∈ q.keys) : i = j ∧ p = q := by
  have hsymm : Std.Symm (Function.onFun List.Disjoint fun x : ι × Payment => x.2.keys) :=
    ⟨fun _ _ h => h.symm⟩
  by_contra hne
  have hne' : (i, p) ≠ (j, q) := fun heq => hne (Prod.mk.inj heq)
  exact (List.nodup_flatMap.mp hkeys).2.forall hp hq hne' hkp hkq

/-- Every payment was debited once. -/
theorem nodup_debits (hkeys : w.paymentKeys.Nodup) : w.debits.Nodup := by
  rw [World.debits, Multiset.coe_nodup]
  refine List.pairwise_map.mpr ((List.nodup_flatMap.mp hkeys).2.imp ?_)
  intro x y hdisjoint heq
  exact hdisjoint List.mem_cons_self (heq ▸ List.mem_cons_self)

theorem paymentKeys_append {w' : World ι κ} (h : w'.debited = w.debited ++ [(i, p)]) :
    w'.paymentKeys = w.paymentKeys ++ p.keys := by
  rw [World.paymentKeys, h, List.flatMap_append, List.flatMap_singleton]
  rfl

theorem paymentKeys_congr {w' : World ι κ} (h : w'.debited = w.debited) :
    w'.paymentKeys = w.paymentKeys := by
  rw [World.paymentKeys, h, World.paymentKeys]

/-! ## What a step does -/

theorem noOutsiders_of_honest (hok : Honest net w e) : NoOutsiders w e := by
  cases e with
  | inject _ => cases hok
  | pay _ _ _ _ | say _ _ _ _ | register _ _ | clientRecv _ _ _ | relayRecv _ _
  | console _ _ _ _ | federate _ _ | repeer _ _ | restart _ _ _ => trivial

section Steps
variable [DecidableEq ι] [DecidableEq κ]

theorem mem_sent_next (hd : d ∈ w.sent) : d ∈ (net.next w e).sent := by
  rw [sent_eq_append_emits]
  exact List.mem_append_left _ hd

theorem addr_of_honest (hok : Honest net w e) : (net.next w e).addr = w.addr := by
  cases e with
  | restart _ _ _ => cases hok
  | pay _ _ _ _ | say _ _ _ _ | register _ _ | clientRecv _ _ _ | relayRecv _ _
  | console _ _ _ _ | federate _ _ | repeer _ _ | inject _ => rfl

/-- A payment is debited by a `do_pay`. -/
theorem debited_next (net : Network P ι κ) (w : World ι κ) (e : WorldEvent ι κ) :
    (∃ i now args p, e = .pay i now p.paymentId args ∧
      PaidBy (net.client i) p.paymentId (w.clients i)
        (doPay P (net.client i) now p.paymentId args (w.clients i)) p ∧
      (net.next w e).debited = w.debited ++ [(i, p)]) ∨
    (net.next w e).debited = w.debited := by
  cases e with
  | pay i now paymentId args =>
    rcases doPay_cases P (net.client i) now paymentId args (w.clients i) with
      ⟨p, hp⟩ | ⟨hexit, -, -⟩
    · obtain rfl := hp.paymentId
      refine Or.inl ⟨i, now, args, p, rfl, hp, ?_⟩
      simp [next, hp.exit, PayExit.payments]
    · right
      simp [next, World.setClient, PayExit.payments_eq_nil hexit]
  | say _ _ _ _ | register _ _ | clientRecv _ _ _ | relayRecv _ _ | console _ _ _ _
  | federate _ _ | repeer _ _ | restart _ _ _ | inject _ => exact Or.inr rfl

/-- A payment is credited by a `handle_msg`. -/
theorem credited_next (net : Network P ι κ) (w : World ι κ) (e : WorldEvent ι κ) :
    (∃ j now d p wal, e = .clientRecv j now d ∧ d.msg = .payment p ∧
      (w.clients j).receiving = true ∧
      CreditedBy (net.client j) (w.clients j)
        (handleMsg P (net.client j) now (.payment p) (w.clients j)) p wal ∧
      (net.next w e).credited = w.credited ++ [(j, p)]) ∨
    (net.next w e).credited = w.credited := by
  cases e with
  | clientRecv j now d =>
    cases hrun : (w.clients j).receiving with
    | false =>
      right
      simp [next, World.setClient, recvLoop_stopped hrun, ClientExit.payments]
    | true =>
      rcases handleMsg_cases P (net.client j) now d.msg (w.clients j) with
        ⟨p, wal, hp, hc⟩ | ⟨hexit, -, -, -⟩
      · rw [hp] at hc
        refine Or.inl ⟨j, now, d, p, wal, rfl, hp, hrun, hc, ?_⟩
        simp [next, recvLoop_receiving hrun, hp, hc.exit, ClientExit.payments]
      · right
        simp [next, World.setClient, recvLoop_receiving hrun, ClientExit.payments_eq_nil hexit]
  | pay _ _ _ _ | say _ _ _ _ | register _ _ | relayRecv _ _ | console _ _ _ _
  | federate _ _ | repeer _ _ | restart _ _ _ | inject _ => exact Or.inr rfl

/-- A key enters a cache with a message that presents it. -/
theorem seen_next (hok : Honest net w e) (hk : k ∈ ((net.next w e).clients i).seen.set) :
    k ∈ (w.clients i).seen.set ∨
    ∃ now d, e = .clientRecv i now d ∧ dedupKey (net.client i) d.msg = some k := by
  have hother : ∀ j (s : ClientState), s.seen = (w.clients j).seen →
      k ∈ (Function.update w.clients j s i).seen.set → k ∈ (w.clients i).seen.set := by
    intro j s hs hk
    by_cases hij : i = j
    · subst hij
      rwa [Function.update_self, hs] at hk
    · rwa [Function.update_of_ne hij] at hk
  cases e with
  | restart _ _ _ | inject _ => cases hok
  | relayRecv _ _ | console _ _ _ _ | federate _ _ | repeer _ _ => exact Or.inl hk
  | register j now => exact Or.inl (hother j _ rfl hk)
  | say j now msgId text => exact Or.inl (hother j _ (sendMsg_seen now msgId text) hk)
  | pay j now paymentId args => exact Or.inl (hother j _ (doPay_seen now paymentId args) hk)
  | clientRecv j now d =>
    cases hrun : (w.clients j).receiving with
    | false => exact Or.inl (hother j _ (by rw [recvLoop_stopped hrun]) hk)
    | true =>
      cases hkey : dedupKey (net.client j) d.msg with
      | none =>
        refine Or.inl (hother j _ ?_ hk)
        rw [recvLoop_receiving hrun, handleMsg_seen, hkey]
      | some k' =>
        by_cases hij : i = j
        · subst hij
          have hstep : ((net.next w (.clientRecv i now d)).clients i).seen =
              ((w.clients i).seen.isNew k').2 := by
            simp only [next, World.setClient, Function.update_self, recvLoop_receiving hrun,
              handleMsg_seen, hkey]
          rw [hstep] at hk
          by_cases hkk : k = k'
          · subst hkk
            exact Or.inr ⟨now, d, rfl, hkey⟩
          · exact Or.inl (SeenIds.mem_of_mem_isNew hk hkk)
        · left
          simpa only [next, World.setClient, Function.update_of_ne hij] using hk

/-- A text is sent under a new id, or was sent before. -/
theorem textIds_next (hen : net.Enabled w e) (hok : Honest net w e)
    (hk : k ∈ (net.next w e).textIds) :
    k ∈ w.textIds ∨ (∃ i now text, e = .say i now k text) ∨
      ∃ r now line, e = .console r now k line := by
  obtain ⟨d, hd, m, hm, rfl⟩ := exists_of_mem_textIds hk
  by_cases hold : d ∈ w.sent
  · exact Or.inl (mem_textIds hold hm)
  · rcases new_classic hen hd hold hm with
      ⟨i, now, msgId, text, rfl, hsay⟩ | ⟨r, now, msgId, line, rfl, hline⟩ |
        ⟨r, d₀, m₀, -, hd₀, hm₀, hrelay⟩ | rfl
    · have hmsg := hm.symm.trans (msg_of_sendToRelays hsay)
      obtain rfl := Message.classic.inj hmsg
      exact Or.inr (Or.inl ⟨i, now, text, rfl⟩)
    · have hmsg := hm.symm.trans (mem_broadcast (mem_packets hline)).2.2
      obtain rfl := Message.classic.inj hmsg
      exact Or.inr (Or.inr ⟨r, now, line, rfl⟩)
    · rcases relayClassic_cases P m₀ d₀.src (w.relays r) with ⟨-, -, -, -, hsends⟩ | ⟨-, hsends⟩
      · rw [hsends] at hrelay
        have hmsg := hm.symm.trans (mem_broadcast (mem_packets hrelay)).2.2
        obtain rfl := Message.classic.inj hmsg
        exact Or.inl (mem_textIds (m := m₀) hd₀ hm₀)
      · rw [hsends] at hrelay
        cases hrelay
    · cases hok

/-! ## A payment delivered -/

section Names
variable [Fintype ι] {T : ℕ} {now : UInt64}
  (hnames : ∀ i j id, (net.client i).IsMe id → (net.client j).IsMe id → i = j)
include hnames

omit [DecidableEq ι] [DecidableEq κ] in
/-- An accepted payment is credited: all the money fits a `u64`. -/
theorem creditedBy_of_settling (now : UInt64) (hT : T < 2 ^ 64) (h : Settling net T w)
    (hd : d ∈ w.sent) (hp : d.msg = .payment p) (hacc : Accepts (net.client j) (w.clients j) p) :
    ∃ wal, CreditedBy (net.client j) (w.clients j)
      (handleMsg P (net.client j) now (.payment p) (w.clients j)) p wal := by
  have hpending := mem_pending hnames h.kept hd hp hacc
  have hfits := fits_of_mem_pending hpending (h.total ▸ hT) j
  exact ⟨_, creditedBy_of_accepts P now hacc (credit_of_lt hfits)⟩

/-- **A payment that is handed to the client it names is credited**, now or before. -/
theorem credited_of_handed (hT : T < 2 ^ 64) (h : Settling net T w) (hd : d ∈ w.sent)
    (hp : d.msg = .payment p) (hme : (net.client j).IsMe p.dstId) :
    (j, p) ∈ (net.next w (.clientRecv j now d)).credited := by
  have hkeep : w.credited ⊆ (net.next w (.clientRecv j now d)).credited :=
    (credited_prefix_next h.kept.saved).subset
  by_cases hnew : paymentKey p.paymentId ∈ (w.clients j).seen.set
  · -- Its key is cached, and nothing else has that key.
    obtain ⟨i, hi⟩ := h.confirmed.payments d hd p hp
    have hkey : paymentKey p.paymentId ∈ p.keys := List.mem_cons_self
    rcases h.cached j _ hnew with htext | ⟨q, hq, heq⟩ | ⟨q, hq, heq⟩
    · exact absurd (mem_paymentKeys hi hkey) (h.texts _ htext)
    · obtain ⟨i', hi'⟩ := h.confirmed.credits j q hq
      obtain ⟨-, rfl⟩ := eq_of_mem_keys h.keys hi hi' hkey (heq ▸ List.mem_cons_self)
      exact hkeep hq
    · obtain ⟨-, rfl⟩ := eq_of_mem_keys h.keys hi hq hkey
        (heq ▸ List.mem_cons_of_mem _ List.mem_cons_self)
      exact absurd heq (paymentKey_ne_ackKey _)
  · obtain ⟨wal, hc⟩ := creditedBy_of_settling hnames now hT h hd hp ⟨hme, hnew⟩
    simp [next, recvLoop_receiving (h.receiving j), hp, hc.exit, ClientExit.payments]

omit [DecidableEq ι] [DecidableEq κ] [Fintype ι] in
/-- An acknowledgement that names a client is of a payment that it debited. -/
theorem debited_of_ack {a : PaymentAck} (h : Confirmed net w) (hd : d ∈ w.sent)
    (ha : d.msg = .paymentAck a) (hme : (net.client i).IsMe a.toId) :
    ∃ p, (i, p) ∈ w.debited ∧ a.paymentId = p.paymentId := by
  obtain ⟨k, p, hcredited, rfl⟩ := h.acks d hd a ha
  obtain ⟨i', hi'⟩ := h.credits k p hcredited
  have hsrc : (net.client i').IsMe p.srcId := by
    rw [h.srcId i' p hi']
    exact (net.client i').isMe_peerId
  obtain rfl := hnames i i' p.srcId hme hsrc
  exact ⟨p, hi', rfl⟩

/-! ## The invariant is preserved -/

theorem receiving_next (hT : T < 2 ^ 64) (h : Settling net T w) (hen : net.Enabled w e)
    (hok : Honest net w e) : ∀ i, ((net.next w e).clients i).receiving = true := by
  have hupdate : ∀ j (s : ClientState), s.receiving = true →
      ∀ i, (Function.update w.clients j s i).receiving = true := fun j s hs =>
    (Function.forall_update_iff w.clients (fun _ (s : ClientState) => s.receiving = true)).mpr
      ⟨hs, fun i _ => h.receiving i⟩
  cases e with
  | restart _ _ _ | inject _ => cases hok
  | relayRecv _ _ | console _ _ _ _ | federate _ _ | repeer _ _ => exact h.receiving
  | register j now => exact hupdate j _ (h.receiving j)
  | say j now msgId text => exact hupdate j _ (h.receiving j)
  | pay j now paymentId args =>
    exact hupdate j _ ((doPay_receiving now paymentId args).trans (h.receiving j))
  | clientRecv j now d =>
    apply hupdate j
    rw [recvLoop_receiving (h.receiving j)]
    by_cases hacc : ∃ p, d.msg = .payment p ∧ Accepts (net.client j) (w.clients j) p
    · obtain ⟨p, hp, hacc⟩ := hacc
      obtain ⟨wal, hc⟩ := creditedBy_of_settling hnames now hT h hen.1 hp hacc
      rw [hp, hc.receiving]
      exact h.receiving j
    · obtain ⟨-, -, -, hreceiving, -⟩ := handleMsg_of_not_accepts P (net.client j) now
        (fun p hp hacc' => hacc ⟨p, hp, hacc'⟩)
      rw [hreceiving]
      exact h.receiving j

omit hnames in
/-- A `do_pay` takes keys that are new. -/
theorem keys_next (h : Settling net T w) (hok : Orderly net w e) :
    (net.next w e).paymentKeys.Nodup := by
  rcases debited_next net w e with ⟨i, now, args, p, rfl, -, hdebited⟩ | hsame
  · rw [paymentKeys_append hdebited]
    refine List.nodup_append.mpr ⟨h.keys, ?_, ?_⟩
    · refine List.nodup_cons.mpr ⟨?_, List.nodup_singleton _⟩
      rw [List.mem_singleton]
      exact paymentKey_ne_ackKey _
    · rintro k hk _ hkp rfl
      exact (fresh_of_mem_keys hok hkp).1 hk
  · rw [paymentKeys_congr hsame]
    exact h.keys

omit hnames in
/-- No text has the key of a payment. -/
theorem texts_next (h : Settling net T w) (hen : net.Enabled w e) (hhonest : Honest net w e)
    (hok : Orderly net w e) : ∀ k ∈ (net.next w e).textIds, k ∉ (net.next w e).paymentKeys := by
  intro k hk
  rcases textIds_next hen hhonest hk with hold | ⟨i, now, text, rfl⟩ | ⟨r, now, line, rfl⟩
  · rcases debited_next net w e with ⟨i, now, args, p, rfl, -, hdebited⟩ | hsame
    · rw [paymentKeys_append hdebited]
      intro hmem
      rcases List.mem_append.mp hmem with hkeys | hnew
      · exact h.texts k hold hkeys
      · exact (fresh_of_mem_keys hok hnew).2 hold
    · rw [paymentKeys_congr hsame]
      exact h.texts k hold
  · exact hok
  · exact hok

omit [Fintype ι] hnames in
theorem CachedFor.next (h : CachedFor w i k) (hsaved : FilesSaved P w) :
    CachedFor (net.next w e) i k := by
  rcases h with htext | ⟨p, hp, heq⟩ | ⟨p, hp, heq⟩
  · obtain ⟨d, hd, m, hm, rfl⟩ := exists_of_mem_textIds htext
    exact Or.inl (mem_textIds (mem_sent_next hd) hm)
  · exact Or.inr (Or.inl ⟨p, (credited_prefix_next hsaved).subset hp, heq⟩)
  · exact Or.inr (Or.inr ⟨p, (debited_prefix_next hsaved).subset hp, heq⟩)

theorem cached_next (hT : T < 2 ^ 64) (h : Settling net T w) (hen : net.Enabled w e)
    (hok : Honest net w e) :
    ∀ i, ∀ k ∈ ((net.next w e).clients i).seen.set, CachedFor (net.next w e) i k := by
  intro i k hk
  rcases seen_next hok hk with hold | ⟨now, d, rfl, hkey⟩
  · exact (h.cached i k hold).next h.kept.saved
  · rcases dedupKey_cases hkey with ⟨m, hm, rfl⟩ | ⟨p, hp, hme, rfl⟩ | ⟨a, ha, hme, rfl⟩
    · exact Or.inl (mem_textIds (mem_sent_next hen.1) hm)
    · exact Or.inr (Or.inl ⟨p, credited_of_handed hnames hT h hen.1 hp hme, rfl⟩)
    · obtain ⟨p, hp, heq⟩ := debited_of_ack hnames h.confirmed hen.1 ha hme
      exact Or.inr (Or.inr ⟨p, (debited_prefix_next h.kept.saved).subset hp, by rw [heq]⟩)

omit hnames in
theorem named_next (h : Settling net T w) (hok : Orderly net w e) :
    ∀ i p, (i, p) ∈ (net.next w e).debited → ∃ j, (net.client j).IsMe p.dstId := by
  intro i p hp
  rcases debited_next net w e with ⟨i', now, args, q, rfl, hq, hdebited⟩ | hsame
  · rw [hdebited] at hp
    rcases List.mem_append.mp hp with hold | hnew
    · exact h.named i p hold
    · obtain ⟨rfl, rfl⟩ := Prod.mk.inj (List.mem_singleton.mp hnew)
      exact hok.1 p (by rw [hq.exit]; exact List.mem_singleton_self p)
  · rw [hsame] at hp
    exact h.named i p hp

omit [Fintype ι] [DecidableEq ι] [DecidableEq κ] hnames in
/-- What is sent to all relays is sent to each. -/
theorem mem_packets_sendToRelays {src addr : SocketAddr} {msg : Message}
    {relays : List SocketAddr} (h : addr ∈ relays) :
    (⟨src, addr, msg⟩ : Datagram) ∈ packets src (sendToRelays msg relays) :=
  List.mem_map.mpr ⟨(addr, msg), List.mem_map_of_mem h, rfl⟩

omit hnames in
theorem launched_next (h : Settling net T w) :
    ∀ i p, (i, p) ∈ (net.next w e).debited → ∀ addr ∈ (net.client i).relayAddrs,
      ∃ d ∈ (net.next w e).sent, d.msg = .payment p ∧ d.dst = addr := by
  intro i p hp addr haddr
  have hkeep : (i, p) ∈ w.debited →
      ∃ d ∈ (net.next w e).sent, d.msg = .payment p ∧ d.dst = addr := by
    intro hold
    obtain ⟨d, hd, hmsg⟩ := h.launched i p hold addr haddr
    exact ⟨d, mem_sent_next hd, hmsg⟩
  rcases debited_next net w e with ⟨i', now, args, q, rfl, hq, hdebited⟩ | hsame
  · rw [hdebited] at hp
    rcases List.mem_append.mp hp with hold | hnew
    · exact hkeep hold
    · obtain ⟨rfl, rfl⟩ := Prod.mk.inj (List.mem_singleton.mp hnew)
      refine ⟨⟨w.addr i, addr, .payment p⟩, ?_, rfl, rfl⟩
      rw [sent_eq_append_emits, emits, hq.sends]
      exact List.mem_append_right _ (mem_packets_sendToRelays haddr)
  · rw [hsame] at hp
    exact hkeep hp

omit hnames in
theorem answered_next (h : Settling net T w) :
    ∀ j p, (j, p) ∈ (net.next w e).credited → ∀ addr ∈ (net.client j).relayAddrs,
      ∃ d ∈ (net.next w e).sent,
        d.msg = .paymentAck (p.ack (net.client j).peerId) ∧ d.dst = addr := by
  intro j p hp addr haddr
  have hkeep : (j, p) ∈ w.credited → ∃ d ∈ (net.next w e).sent,
      d.msg = .paymentAck (p.ack (net.client j).peerId) ∧ d.dst = addr := by
    intro hold
    obtain ⟨d, hd, hmsg⟩ := h.answered j p hold addr haddr
    exact ⟨d, mem_sent_next hd, hmsg⟩
  rcases credited_next net w e with ⟨j', now, d, q, wal, rfl, hq, hrun, hc, hcredited⟩ | hsame
  · rw [hcredited] at hp
    rcases List.mem_append.mp hp with hold | hnew
    · exact hkeep hold
    · obtain ⟨rfl, rfl⟩ := Prod.mk.inj (List.mem_singleton.mp hnew)
      refine ⟨⟨w.addr j, addr, .paymentAck (p.ack (net.client j).peerId)⟩, ?_, rfl, rfl⟩
      rw [sent_eq_append_emits, emits, recvLoop_receiving hrun, hq, hc.sends]
      exact List.mem_append_right _ (mem_packets_sendToRelays haddr)
  · rw [hsame] at hp
    exact hkeep hp

/-- **The invariant is preserved.** -/
theorem settling_next (hT : T < 2 ^ 64) (h : Settling net T w) (hen : net.Enabled w e)
    (hok : Honest net w e ∧ Orderly net w e) : Settling net T (net.next w e) where
  kept := kept_step hnames h.kept hen hok.1
  total := ((ledger_refines hnames hT).invariant w e ⟨h.kept, h.total⟩ hen hok.1).2
  confirmed := confirmed_next h.confirmed hen (noOutsiders_of_honest hok.1)
  receiving := receiving_next hnames hT h hen hok.1
  keys := keys_next h hok.2
  texts := texts_next h hen hok.1 hok.2
  cached := cached_next hnames hT h hen hok.1
  named := named_next h hok.2
  launched := launched_next h
  answered := answered_next h

/-! ## Confirmations -/

omit [Fintype ι] hnames in
/-- A confirmation is shown for an acknowledgement that was not cached, and is then. -/
theorem ShownTo.cached {paymentId : UInt64} (h : ShownTo net i paymentId w e) :
    ackKey paymentId ∉ (w.clients i).seen.set ∧
      ackKey paymentId ∈ ((net.next w e).clients i).seen.set ∧
      ∃ now d a, e = .clientRecv i now d ∧ d.msg = .paymentAck a ∧ a.paymentId = paymentId ∧
        (net.client i).IsMe a.toId := by
  cases e with
  | clientRecv j now d =>
    obtain ⟨rfl, hid, hexit⟩ := h
    cases hmsg : d.msg with
    | paymentAck a =>
      rw [hmsg] at hid hexit
      obtain rfl := Option.some.inj hid
      have hme := isMe_of_acknowledged hexit
      have hkey : dedupKey (net.client j) (.paymentAck a) = some (ackKey a.paymentId) :=
        if_pos hme
      cases hrun : (w.clients j).receiving with
      | false =>
        rw [recvLoop_stopped hrun] at hexit
        cases hexit
      | true =>
        rw [recvLoop_receiving hrun] at hexit
        refine ⟨?_, ?_, now, d, a, rfl, hmsg, rfl, hme⟩
        · intro hold
          rw [handleMsg_of_mem hkey hold] at hexit
          cases hexit
        · simp only [next, World.setClient, Function.update_self, recvLoop_receiving hrun,
            hmsg, handleMsg_seen, hkey]
          exact SeenIds.mem_isNew_self _ _
    | classic _ | payment _ | register _ | connect _ | askForAddr _ | peerInfo _ _ =>
      rw [hmsg] at hid
      cases hid
  | pay _ _ _ _ | say _ _ _ _ | register _ _ | relayRecv _ _ | console _ _ _ _
  | federate _ _ | repeer _ _ | restart _ _ _ | inject _ => cases h

omit [Fintype ι] [DecidableEq ι] [DecidableEq κ] hnames in
/-- An acknowledgement that is new to the client it names is shown. -/
theorem shownTo_of_new {a : PaymentAck} (hrun : (w.clients i).receiving = true)
    (ha : d.msg = .paymentAck a) (hme : (net.client i).IsMe a.toId)
    (hnew : ackKey a.paymentId ∉ (w.clients i).seen.set) :
    ShownTo net i a.paymentId w (.clientRecv i now d) := by
  refine ⟨rfl, by rw [ha, Message.ackId], ?_⟩
  rw [recvLoop_receiving hrun, ha, handleMsg, handlePaymentAck_acknowledged hme hnew]

omit hnames in
/-- The key of an acknowledgement enters the payer's cache when the confirmation is
shown. -/
theorem shownTo_of_cached {paymentId : UInt64} (h : Settling net T w) (hen : net.Enabled w e)
    (hok : Honest net w e) (howns : Owns w i paymentId)
    (hold : ackKey paymentId ∉ (w.clients i).seen.set)
    (hnew : ackKey paymentId ∈ ((net.next w e).clients i).seen.set) :
    ShownTo net i paymentId w e := by
  obtain ⟨⟨i, p⟩, hp, rfl, rfl⟩ := howns
  have hkey : ackKey p.paymentId ∈ p.keys := List.mem_cons_of_mem _ List.mem_cons_self
  rcases seen_next hok hnew with hbefore | ⟨now, d, rfl, hded⟩
  · exact absurd hbefore hold
  · rcases dedupKey_cases hded with ⟨m, hm, heq⟩ | ⟨q, hq, -, heq⟩ | ⟨a, ha, hme, heq⟩
    · have htext : ackKey p.paymentId ∈ w.textIds := heq ▸ mem_textIds hen.1 hm
      exact absurd (mem_paymentKeys hp hkey) (h.texts _ htext)
    · obtain ⟨j, hj⟩ := h.confirmed.payments d hen.1 q hq
      obtain ⟨-, rfl⟩ := eq_of_mem_keys h.keys hp hj hkey (heq ▸ List.mem_cons_self)
      exact absurd heq (paymentKey_ne_ackKey _)
    · have hid : a.paymentId = p.paymentId := (UInt64.xor_left_inj _).mp heq
      rw [← hid] at hold ⊢
      exact shownTo_of_new (h.receiving i) ha hme hold

omit [DecidableEq ι] [DecidableEq κ] hnames in
/-- A payment is not confirmed when it is made. -/
theorem not_cached_of_fresh {paymentId : UInt64} (h : Settling net T w)
    (hfresh : w.Fresh (ackKey paymentId)) :
    ackKey paymentId ∉ (w.clients i).seen.set := by
  intro hmem
  rcases h.cached i _ hmem with htext | ⟨q, hq, heq⟩ | ⟨q, hq, heq⟩
  · exact hfresh.2 htext
  · obtain ⟨j, hj⟩ := h.confirmed.credits i q hq
    exact hfresh.1 (mem_paymentKeys hj (heq ▸ List.mem_cons_self))
  · exact hfresh.1
      (mem_paymentKeys hq (heq ▸ List.mem_cons_of_mem _ List.mem_cons_self))

/-- **Each step shows what it adds.** -/
theorem confirmed_step (h : Settling net T w) (hen : net.Enabled w e)
    (hok : Honest net w e ∧ Orderly net w e) (i : ι) (paymentId : UInt64) :
    confirmations net i paymentId w e + confirmed i paymentId w =
      confirmed i paymentId (net.next w e) := by
  by_cases hshown : ShownTo net i paymentId w e
  · obtain ⟨hold, hnew, now, d, a, rfl, ha, rfl, hme⟩ := hshown.cached
    obtain ⟨p, hp, hid⟩ := debited_of_ack hnames h.confirmed hen.1 ha hme
    have howns : Owns (net.next w (.clientRecv i now d)) i a.paymentId :=
      ⟨(i, p), hp, rfl, hid.symm⟩
    simp [confirmations, confirmed, hshown, hold, hnew, howns]
  · have hcached : Owns w i paymentId →
        (ackKey paymentId ∈ ((net.next w e).clients i).seen.set ↔
          ackKey paymentId ∈ (w.clients i).seen.set) := by
      intro howns
      refine ⟨fun hnew => ?_, mem_seen_next hok.1⟩
      by_contra hold
      exact hshown (shownTo_of_cached h hen hok.1 howns hold hnew)
    have hkeep : Owns w i paymentId → Owns (net.next w e) i paymentId := fun ⟨x, hx, hix⟩ =>
      ⟨x, (debited_prefix_next h.kept.saved).subset hx, hix⟩
    rw [confirmations, if_neg hshown, Nat.zero_add, confirmed, confirmed]
    refine if_congr ?_ rfl rfl
    constructor
    · rintro ⟨howns, hmem⟩
      exact ⟨hkeep howns, (hcached howns).mpr hmem⟩
    · rintro ⟨⟨⟨i', p⟩, hp, rfl, rfl⟩, hmem⟩
      suffices howns : Owns w i' p.paymentId from ⟨howns, (hcached howns).mp hmem⟩
      rcases debited_next net w e with ⟨j, now, args, q, rfl, -, hdebited⟩ | hsame
      · rw [hdebited] at hp
        rcases List.mem_append.mp hp with hold | hnew
        · exact ⟨(i', p), hold, rfl, rfl⟩
        · -- The payment is made in this step, so its acknowledgement is not cached yet.
          obtain ⟨rfl, rfl⟩ := Prod.mk.inj (List.mem_singleton.mp hnew)
          have hfresh : w.Fresh (ackKey p.paymentId) := hok.2.2.2
          rcases seen_next hok.1 hmem with hbefore | ⟨_, _, heq, -⟩
          · exact absurd hbefore (not_cached_of_fresh h hfresh)
          · cases heq
      · rw [hsame] at hp
        exact ⟨(i', p), hp, rfl, rfl⟩

/-! ## Runs in which nothing is lost -/

omit [DecidableEq ι] [DecidableEq κ] hnames in
theorem settling_start (b : Boot ι κ) :
    Settling net (Escrow.total Payment.sats (net.start b).ledger) (net.start b) where
  kept := kept_start b
  total := rfl
  confirmed := confirmed_start b
  receiving := fun _ => rfl
  keys := List.nodup_nil
  texts := fun _ h => absurd h List.not_mem_nil
  cached := fun _ k h => absurd h (Finset.notMem_empty k)
  named := fun _ _ h => absurd h List.not_mem_nil
  launched := fun _ _ h => absurd h List.not_mem_nil
  answered := fun _ _ h => absurd h List.not_mem_nil

omit [Fintype ι] hnames in
/-- A relay that knows whom a message is for sends it there. -/
theorem passed_on {r : κ} {id : String} (hok : Orderly net w (.relayRecv r d))
    (hmsg : d.msg.routeId = some id) (hme : (net.client j).IsMe id) :
    ∃ d' ∈ (net.next w (.relayRecv r d)).sent, d'.msg = d.msg ∧ d'.dst = w.addr j := by
  have hsend : (w.addr j, d.msg) ∈ (relayTo id d.msg d.src (w.relays r)).sends := by
    rcases hok id hmsg j hme with hfound | ⟨hnone, haddr⟩
    · rw [relayTo_of_findPeer hfound]
      exact List.mem_singleton_self _
    · simp only [relayTo, hnone]
      exact List.mem_map_of_mem haddr
  refine ⟨⟨(net.relay r).addr, w.addr j, d.msg⟩, ?_, rfl, rfl⟩
  rw [sent_eq_append_emits, emits, handleMessage_of_routeId hmsg]
  exact List.mem_append_right _ (List.mem_map.mpr ⟨_, hsend, rfl⟩)

section Run
variable {es : List (WorldEvent ι κ)} (hT : T < 2 ^ 64) (hs : Settling net T w)
  (hrun : net.system.Always (fun w e => Honest net w e ∧ Orderly net w e) w es)
  (hall : NothingLost net (net.system.run w es) es)
include hT hs hrun hall

/-- What reaches a relay goes on to the client it names. -/
theorem reaches_client {r : κ} {id : String} (hd : d ∈ (net.system.run w es).sent)
    (hdst : d.dst = (net.relay r).addr) (hmsg : d.msg.routeId = some id)
    (hme : (net.client j).IsMe id) :
    ∃ d' ∈ (net.system.run w es).sent,
      d'.msg = d.msg ∧ d'.dst = (net.system.run w es).addr j := by
  obtain ⟨e, he, hhands⟩ := hall.toRelays d hd r hdst
  refine EventSystem.run_of_mem
    (J := fun w => ∃ d' ∈ w.sent, d'.msg = d.msg ∧ d'.dst = w.addr j)
    (fun _ _ h hen hok => settling_next hnames hT h hen hok) ?_ ?_ he hrun hs
  · rintro s e - - hok ⟨d', hd', hmsg', hdst'⟩
    exact ⟨d', mem_sent_next hd', hmsg', hdst'.trans (congrFun (addr_of_honest hok.1).symm j)⟩
  · intro s _ _ hok
    cases e with
    | relayRecv r' d' =>
      obtain ⟨rfl, rfl⟩ := hhands
      exact passed_on hok.2 hmsg hme
    | pay _ _ _ _ | say _ _ _ _ | register _ _ | clientRecv _ _ _ | console _ _ _ _
    | federate _ _ | repeer _ _ | restart _ _ _ | inject _ => cases hhands

/-- What is addressed to a client is handed to it while the invariant holds, and what that
brings about lasts. -/
theorem run_of_addressed {J : World ι κ → Prop} (hd : d ∈ (net.system.run w es).sent)
    (hdst : d.dst = (net.system.run w es).addr j)
    (hkeep : ∀ s e, Settling net T s → Honest net s e → J s → J (net.next s e))
    (hbring : ∀ s now, Settling net T s → d ∈ s.sent → J (net.next s (.clientRecv j now d))) :
    J (net.system.run w es) := by
  obtain ⟨e, he, hhands⟩ := hall.toClients d hd j hdst
  refine EventSystem.run_of_mem (fun _ _ h hen hok => settling_next hnames hT h hen hok)
    (fun s e h _ hok => hkeep s e h hok.1) ?_ he hrun hs
  intro s h hen _
  cases e with
  | clientRecv j' now d' =>
    obtain ⟨rfl, rfl⟩ := hhands
    exact hbring s now h hen.1
  | pay _ _ _ _ | say _ _ _ _ | register _ _ | relayRecv _ _ | console _ _ _ _
  | federate _ _ | repeer _ _ | restart _ _ _ | inject _ => cases hhands

/-- **A payment debited is credited**, and its acknowledgement reaches the payer. -/
theorem settled_of_debited
    (hrelay : ∀ i, ∃ r, (net.relay r).addr ∈ (net.client i).relayAddrs)
    (hp : (i, p) ∈ (net.system.run w es).debited) :
    (∃ j, (j, p) ∈ (net.system.run w es).credited) ∧
      ackKey p.paymentId ∈ ((net.system.run w es).clients i).seen.set := by
  have hend : Settling net T (net.system.run w es) :=
    EventSystem.invariant_run (fun _ _ h hen hok => settling_next hnames hT h hen hok) hrun hs
  -- The payment is launched to a relay, which passes it on to the client it names.
  obtain ⟨j, hme⟩ := hend.named i p hp
  obtain ⟨r, hr⟩ := hrelay i
  obtain ⟨d₁, hd₁, hp₁, hdst₁⟩ := hend.launched i p hp _ hr
  obtain ⟨d₂, hd₂, hp₂, hdst₂⟩ := reaches_client hnames hT hs hrun hall hd₁ hdst₁
    (by rw [hp₁, Message.routeId]) hme
  rw [hp₁] at hp₂
  have hcredited : (j, p) ∈ (net.system.run w es).credited :=
    run_of_addressed hnames hT hs hrun hall (J := fun w => (j, p) ∈ w.credited) hd₂ hdst₂
      (fun _ _ h _ hmem => (credited_prefix_next h.kept.saved).subset hmem)
      (fun _ _ h hsent => credited_of_handed hnames hT h hsent hp₂ hme)
  refine ⟨⟨j, hcredited⟩, ?_⟩
  -- So does the acknowledgement, in the other direction.
  have hsrc : (net.client i).IsMe p.srcId := by
    rw [hend.confirmed.srcId i p hp]
    exact (net.client i).isMe_peerId
  obtain ⟨r', hr'⟩ := hrelay j
  obtain ⟨d₃, hd₃, ha₃, hdst₃⟩ := hend.answered j p hcredited _ hr'
  obtain ⟨d₄, hd₄, ha₄, hdst₄⟩ := reaches_client hnames hT hs hrun hall hd₃ hdst₃
    (by rw [ha₃]; rfl) hsrc
  rw [ha₃] at ha₄
  refine run_of_addressed hnames hT hs hrun hall
    (J := fun w => ackKey p.paymentId ∈ (w.clients i).seen.set) hd₄ hdst₄
    (fun _ _ _ hok hmem => mem_seen_next hok hmem) ?_
  intro s now h hsent
  have hkey : dedupKey (net.client i) d₄.msg = some (ackKey p.paymentId) := by
    rw [ha₄]
    exact if_pos hsrc
  simp only [next, World.setClient, Function.update_self, recvLoop_receiving (h.receiving i),
    handleMsg_seen, hkey]
  exact SeenIds.mem_isNew_self _ _

end Run

end Names

end Steps

/-- **Every payment settles.**  Take a run of honest nodes in which payments are for
clients of the network, ids are not used twice, relays know whom they receive payments for,
and all the money fits a `u64`.  If nothing sent is lost, then at its end every payment
debited has been credited, and no payment twice; the money is all there, and each payer has
been shown exactly one confirmation of each payment it made. -/
theorem payments_settle [DecidableEq ι] [DecidableEq κ] [Fintype ι] (net : Network P ι κ)
    (b : Boot ι κ) (es : List (WorldEvent ι κ))
    (hnames : ∀ i j id, (net.client i).IsMe id → (net.client j).IsMe id → i = j)
    (hrelay : ∀ i, ∃ r, (net.relay r).addr ∈ (net.client i).relayAddrs)
    (htotal : ∑ i, ((net.start b).clients i).balance < 2 ^ 64)
    (hrun : net.system.Always (fun w e => Honest net w e ∧ Orderly net w e) (net.start b) es)
    (hall : NothingLost net (net.system.run (net.start b) es) es) :
    let w := net.system.run (net.start b) es
    w.credits = w.debits ∧ w.credits.Nodup ∧
      ∑ i, (w.clients i).balance = ∑ i, ((net.start b).clients i).balance ∧
      ∀ i p, (i, p) ∈ w.debited →
        net.system.sumAlong (confirmations net i p.paymentId) (net.start b) es = 1 := by
  intro w
  have hstart : Escrow.total Payment.sats (net.start b).ledger =
      ∑ i, ((net.start b).clients i).balance :=
    Nat.add_zero _
  have hT : Escrow.total Payment.sats (net.start b).ledger < 2 ^ 64 := hstart ▸ htotal
  have hstep : ∀ s e, Settling net _ s → net.Enabled s e →
      Honest net s e ∧ Orderly net s e → Settling net _ (net.next s e) :=
    fun _ _ h hen hok => settling_next hnames hT h hen hok
  have hend : Settling net _ w := EventSystem.invariant_run hstep hrun (settling_start b)
  have hsettled : ∀ i p, (i, p) ∈ w.debited →
      (∃ j, (j, p) ∈ w.credited) ∧ ackKey p.paymentId ∈ (w.clients i).seen.set :=
    fun i p hp => settled_of_debited hnames hT (settling_start b) hrun hall hrelay hp
  have hcredits : w.credits = w.debits := by
    refine le_antisymm hend.kept.credits_le ?_
    refine (Multiset.le_iff_subset (nodup_debits hend.keys)).mpr ?_
    intro p hp
    obtain ⟨⟨i, q⟩, hq, rfl⟩ := List.mem_map.mp (Multiset.mem_coe.mp hp)
    obtain ⟨⟨j, hj⟩, -⟩ := hsettled i q hq
    exact Multiset.mem_coe.mpr (List.mem_map.mpr ⟨(j, q), hj, rfl⟩)
  refine ⟨hcredits, hcredits ▸ nodup_debits hend.keys, ?_, ?_⟩
  · have htotal' := hend.total
    rw [Escrow.total, World.ledger, hcredits, tsub_self, Multiset.map_zero, Multiset.sum_zero,
      Nat.add_zero, hstart] at htotal'
    exact htotal'
  · intro i p hp
    have hmeter := EventSystem.sumAlong_add_start hstep
      (fun _ _ h hen hok => confirmed_step hnames h hen hok i p.paymentId) hrun
      (settling_start b)
    have hzero : confirmed i p.paymentId (net.start b) = 0 :=
      if_neg (fun h => absurd h.2 (Finset.notMem_empty _))
    have hone : confirmed i p.paymentId w = 1 :=
      if_pos ⟨⟨(i, p), hp, rfl, rfl⟩, (hsettled i p hp).2⟩
    rw [hzero, Nat.add_zero] at hmeter
    exact hmeter.trans hone

/-- In the run of alice and bob nothing is lost: bob has the five satoshis, and alice has been
shown one confirmation, although her payment arrived twice. -/
theorem ackRun_settles :
    let start := aliceAndBob.start aliceAndBobBoot
    let w := aliceAndBob.system.run start ackRun
    w.credits = w.debits ∧ w.credits.Nodup ∧
      ∑ i, (w.clients i).balance = ∑ i, (start.clients i).balance ∧
      ∀ i p, (i, p) ∈ w.debited →
        aliceAndBob.system.sumAlong (confirmations aliceAndBob i p.paymentId) start ackRun = 1 :=
  payments_settle aliceAndBob aliceAndBobBoot ackRun aliceAndBob_names (by decide +kernel)
    (by decide +kernel) (by decide +kernel) (by decide +kernel)

end Network
end Zeta
