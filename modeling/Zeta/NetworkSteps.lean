import Zeta.Network

/-!
# What one step of the network does

Two facts about every step, from which the later modules derive their invariants:
where a message that is new on the network comes from (`sent_origin`), and what the
step does to money (`next_money`).
-/

namespace Zeta

variable {P : Platform} {ι κ : Type} [DecidableEq ι] [DecidableEq κ] {net : Network P ι κ}
  {w : World ι κ} {e : WorldEvent ι κ} {d : Datagram}

/-! ## New messages -/

/-- The call of `sign` that the signature of `m` should come from. -/
def Classic.signing (m : Classic) : Signing where
  publicKey := m.publicKey
  srcId := m.srcId
  txt := m.txt
  time := m.time
  msgId := m.msgId

/-- How a node comes to send a message, in a step from `w` to `w'`. -/
inductive Origin (net : Network P ι κ) (w w' : World ι κ) : Message → Prop where
  | paid {i : ι} {p : Payment} (h : (i, p) ∈ w'.debited) : Origin net w w' (.payment p)
  | acknowledged {i : ι} {p : Payment} (h : (i, p) ∈ w'.credited) :
      Origin net w w' (.paymentAck (p.ack (net.client i).peerId))
  | written {m : Classic} (h : m.signing ∈ w'.signed) : Origin net w w' (.classic m)
  | relayed {d : Datagram} {msg : Message} (h : d ∈ w.sent) (hmsg : d.msg = msg) :
      Origin net w w' msg
  | forwarded {d : Datagram} {m : Classic} (h : d ∈ w.sent) (hm : d.msg = .classic m) :
      Origin net w w' (.classic m.forwarded)
  | registered {r : Register} : Origin net w w' (.register r)
  | answered {addr : SocketAddr} {id : String} : Origin net w w' (.peerInfo addr id)

theorem mem_packets {src : SocketAddr} {sends : Sends} (h : d ∈ packets src sends) :
    (d.dst, d.msg) ∈ sends := by
  obtain ⟨x, hx, rfl⟩ := List.mem_map.mp h
  exact hx

theorem msg_of_sendToRelays {src : SocketAddr} {msg : Message} {relays : List SocketAddr}
    (h : d ∈ packets src (sendToRelays msg relays)) : d.msg = msg := by
  obtain ⟨addr, -, hx⟩ := List.mem_map.mp (mem_packets h)
  exact (Prod.mk.inj hx).2.symm

/-- `do_pay` sends the payment it made, and nothing else. -/
theorem msg_of_doPay {ctx : ClientContext P.ed} {now paymentId : UInt64} {args : String}
    {s : ClientState} {src : SocketAddr}
    (h : d ∈ packets src (doPay P ctx now paymentId args s).sends) :
    ∃ p, (doPay P ctx now paymentId args s).exit = .sent p ∧ d.msg = .payment p := by
  rcases doPay_cases P ctx now paymentId args s with ⟨p, hp⟩ | ⟨-, -, hsends⟩
  · rw [hp.sends] at h
    exact ⟨p, hp.exit, msg_of_sendToRelays h⟩
  · rw [hsends] at h
    cases h

/-- The receive task sends acknowledgements of what it credits, and nothing else. -/
theorem msg_of_recvLoop {ctx : ClientContext P.ed} {now : UInt64} {msg : Message}
    {s : ClientState} {src : SocketAddr}
    (h : d ∈ packets src (recvLoop P ctx now msg s).sends) :
    ∃ p, msg = .payment p ∧ (recvLoop P ctx now msg s).exit = .credited ∧
      d.msg = .paymentAck (p.ack ctx.peerId) := by
  cases hrun : s.receiving with
  | false =>
    rw [recvLoop_stopped hrun] at h
    cases h
  | true =>
    rw [recvLoop_receiving hrun] at h ⊢
    rcases handleMsg_cases P ctx now msg s with ⟨p, wal, hp, hc⟩ | ⟨-, -, -, hsends⟩
    · rw [hc.sends] at h
      exact ⟨p, hp, hc.exit, msg_of_sendToRelays h⟩
    · rw [hsends] at h
      cases h

theorem PayExit.payments_eq_nil {exit : PayExit} (h : ∀ p, exit ≠ .sent p) :
    exit.payments = [] := by
  cases exit with
  | sent p => exact absurd rfl (h p)
  | usage | invalidAmount | insufficientBalance => rfl

theorem ClientExit.payments_eq_nil {exit : ClientExit} (h : exit ≠ .credited) (msg : Message) :
    exit.payments msg = [] := by
  cases exit with
  | credited => exact absurd rfl h
  | duplicate | invalidSignature | displayed | notForMe | panicked | acknowledged | ignored => rfl

namespace Network

/-- `do_pay` sends the payment it debited. -/
theorem origin_pay {i : ι} {now paymentId : UInt64} {args : String} {src : SocketAddr}
    (h : d ∈ packets src (doPay P (net.client i) now paymentId args (w.clients i)).sends) :
    Origin net w (net.next w (.pay i now paymentId args)) d.msg := by
  obtain ⟨p, hexit, hmsg⟩ := msg_of_doPay h
  rw [hmsg]
  exact .paid (i := i) (by simp [next, hexit, PayExit.payments])

/-- A client that receives sends nothing but acknowledgements of what it credits. -/
theorem origin_clientRecv {i : ι} {now : UInt64} {d' : Datagram} {src : SocketAddr}
    (h : d ∈ packets src (recvLoop P (net.client i) now d'.msg (w.clients i)).sends) :
    Origin net w (net.next w (.clientRecv i now d')) d.msg := by
  obtain ⟨p, hp, hexit, hmsg⟩ := msg_of_recvLoop h
  rw [hmsg]
  rw [hp] at hexit
  exact .acknowledged (i := i) (by simp [next, hp, hexit, ClientExit.payments])

omit [DecidableEq ι] [DecidableEq κ] in
/-- A relay that receives passes on what it received, or answers. -/
theorem origin_relayRecv {r : κ} {d' : Datagram} {src : SocketAddr} {w' : World ι κ}
    (hd' : d' ∈ w.sent)
    (h : d ∈ packets src (handleMessage P d'.msg d'.src (w.relays r)).sends) :
    Origin net w w' d.msg := by
  rcases mem_handleMessage_sends (mem_packets h) with
    ⟨p, -, hmsg⟩ | ⟨a, -, hmsg⟩ | ⟨m, hm, hmsg, -⟩ | ⟨addr, id, hmsg⟩
  · exact .relayed hd' hmsg.symm
  · exact .relayed hd' hmsg.symm
  · have heq : d.msg = .classic m.forwarded := hmsg
    rw [heq]
    exact .forwarded hd' hm
  · have heq : d.msg = .peerInfo addr id := hmsg
    rw [heq]
    exact .answered

/-- The datagrams that a step puts on the network. -/
def emits (net : Network P ι κ) (w : World ι κ) : WorldEvent ι κ → List Datagram
  | .pay i now paymentId args =>
    packets (w.addr i) (doPay P (net.client i) now paymentId args (w.clients i)).sends
  | .say i now msgId text =>
    packets (w.addr i) (sendMsg P (net.client i) now msgId text (w.clients i)).2
  | .register i now => packets (w.addr i) (register P (net.client i) now (w.clients i))
  | .clientRecv i now d =>
    packets (w.addr i) (recvLoop P (net.client i) now d.msg (w.clients i)).sends
  | .relayRecv r d => packets (net.relay r).addr (handleMessage P d.msg d.src (w.relays r)).sends
  | .console r now msgId line =>
    packets (net.relay r).addr (consoleLine P (net.relay r) now msgId line (w.relays r)).2
  | .federate r now => packets (net.relay r).addr (registerWithPeers P (net.relay r) now)
  | .inject d => [d]
  | .repeer _ _ | .restart _ _ _ => []

theorem sent_eq_append_emits (net : Network P ι κ) (w : World ι κ) (e : WorldEvent ι κ) :
    (net.next w e).sent = w.sent ++ net.emits w e := by
  cases e with
  | restart i addr localAddr => exact (List.append_nil _).symm
  | pay _ _ _ _ | say _ _ _ _ | register _ _ | clientRecv _ _ _ | relayRecv _ _
  | console _ _ _ _ | federate _ _ | repeer _ _ | inject _ => rfl

/-- **Whatever a step puts on the network was injected, or has one of the origins above.** -/
theorem emits_origin (hen : net.Enabled w e) (h : d ∈ net.emits w e) :
    e = .inject d ∨ Origin net w (net.next w e) d.msg := by
  cases e with
  | restart _ _ _ | repeer _ _ => cases h
  | inject d' => exact Or.inl (by rw [List.mem_singleton.mp h])
  | pay i now paymentId args => exact Or.inr (origin_pay h)
  | clientRecv i now d' => exact Or.inr (origin_clientRecv h)
  | relayRecv r d' => exact Or.inr (origin_relayRecv hen.1 h)
  | say i now msgId text =>
    rw [msg_of_sendToRelays h]
    exact Or.inr (.written (List.mem_append_right _ (List.mem_singleton_self _)))
  | console r now msgId line =>
    have hmsg : d.msg = _ := (mem_broadcast (mem_packets h)).2.2
    rw [hmsg]
    exact Or.inr (.written (List.mem_append_right _ (List.mem_singleton_self _)))
  | register _ _ | federate _ _ =>
    obtain ⟨relay, -, hx⟩ := List.mem_map.mp (mem_packets h)
    rw [← (Prod.mk.inj hx).2]
    exact Or.inr .registered

/-- What is on the network after a step was there before, or the step put it there. -/
theorem sent_origin (hen : net.Enabled w e) (hd : d ∈ (net.next w e).sent) :
    d ∈ w.sent ∨ e = .inject d ∨ Origin net w (net.next w e) d.msg := by
  rw [sent_eq_append_emits] at hd
  exact (List.mem_append.mp hd).imp_right (emits_origin hen)

/-- **Where a text that is new on the network comes from**: a client or a relay wrote it, a
relay forwarded one that was there before, or an outsider injected it. -/
theorem new_classic {c : Classic} (hen : net.Enabled w e) (hd : d ∈ (net.next w e).sent)
    (hnew : d ∉ w.sent) (hc : d.msg = .classic c) :
    (∃ i now msgId text, e = .say i now msgId text ∧
      d ∈ packets (w.addr i) (sendMsg P (net.client i) now msgId text (w.clients i)).2) ∨
    (∃ r now msgId line, e = .console r now msgId line ∧
      d ∈ packets (net.relay r).addr (consoleLine P (net.relay r) now msgId line (w.relays r)).2) ∨
    (∃ r d₀ c₀, e = .relayRecv r d₀ ∧ d₀ ∈ w.sent ∧ d₀.msg = .classic c₀ ∧
      d ∈ packets (net.relay r).addr (relayClassic P c₀ d₀.src (w.relays r)).sends) ∨
    e = .inject d := by
  rw [sent_eq_append_emits] at hd
  have h : d ∈ net.emits w e := (List.mem_append.mp hd).resolve_left hnew
  have hclassic : ∀ {msg}, d.msg = msg → msg = .classic c := fun hmsg => hmsg.symm.trans hc
  cases e with
  | restart _ _ _ | repeer _ _ => cases h
  | inject d' => exact Or.inr (Or.inr (Or.inr (by rw [List.mem_singleton.mp h])))
  | say i now msgId text => exact Or.inl ⟨i, now, msgId, text, rfl, h⟩
  | console r now msgId line => exact Or.inr (Or.inl ⟨r, now, msgId, line, rfl, h⟩)
  | register _ _ | federate _ _ =>
    obtain ⟨relay, -, hx⟩ := List.mem_map.mp (mem_packets h)
    cases hclassic (Prod.mk.inj hx).2.symm
  | pay i now paymentId args =>
    obtain ⟨p, -, hmsg⟩ := msg_of_doPay h
    cases hclassic hmsg
  | clientRecv i now d' =>
    obtain ⟨p, -, -, hmsg⟩ := msg_of_recvLoop h
    cases hclassic hmsg
  | relayRecv r d' =>
    rcases mem_handleMessage_sends (mem_packets h) with
      ⟨p, hp, hmsg⟩ | ⟨a, ha, hmsg⟩ | ⟨m, hm, -, -⟩ | ⟨addr, id, hmsg⟩
    · have hmsg : d.msg = .payment p := hp ▸ hmsg
      cases hclassic hmsg
    · have hmsg : d.msg = .paymentAck a := ha ▸ hmsg
      cases hclassic hmsg
    · rw [emits, hm] at h
      exact Or.inr (Or.inr (Or.inl ⟨r, d', m, rfl, hen.1, hm, h⟩))
    · have hmsg : d.msg = .peerInfo addr id := hmsg
      cases hclassic hmsg

/-! ## Money -/

/-- In the step from `w` to `w'` client `i` debited the payment `p`. -/
structure Debits (net : Network P ι κ) (w w' : World ι κ) (i : ι) (p : Payment) : Prop where
  srcId : p.srcId = (net.client i).peerId
  balance : (w'.clients i).balance + p.amount.toNat = (w.clients i).balance
  wallets : ∀ j, j ≠ i → (w'.clients j).app.wallet = (w.clients j).app.wallet
  debited : w'.debited = w.debited ++ [(i, p)]
  credited : w'.credited = w.credited

/-- In the step from `w` to `w'` client `i` credited the payment `p`. -/
structure Credits (net : Network P ι κ) (w w' : World ι κ) (i : ι) (p : Payment) : Prop where
  accepts : Accepts (net.client i) (w.clients i) p
  credit : credit P.build (w.clients i).app.wallet p.amount = some (w'.clients i).app.wallet
  wallets : ∀ j, j ≠ i → (w'.clients j).app.wallet = (w.clients j).app.wallet
  cached : paymentKey p.paymentId ∈ (w'.clients i).seen.set
  debited : w'.debited = w.debited
  credited : w'.credited = w.credited ++ [(i, p)]

/-- The step from `w` to `w'` moves no money. -/
structure Quiet (w w' : World ι κ) : Prop where
  wallets : ∀ j, (w'.clients j).app.wallet = (w.clients j).app.wallet
  debited : w'.debited = w.debited
  credited : w'.credited = w.credited

/-- Every client's wallet file holds the wallet it has in memory. -/
def FilesSaved (P : Platform) (w : World ι κ) : Prop := ∀ i, (w.clients i).Saved P.json

omit [DecidableEq ι] [DecidableEq κ] in
theorem filesSaved_start (b : Boot ι κ) : FilesSaved P (net.start b) :=
  fun i => saved_startup (b.localAddr i) (b.file i)

omit [DecidableEq κ] in
/-- A change of one client that keeps its wallet saved keeps all wallets saved. -/
theorem filesSaved_update {i : ι} {s : ClientState} (hfiles : FilesSaved P w)
    (h : s.Saved P.json) : ∀ j, (Function.update w.clients i s j).Saved P.json :=
  (Function.forall_update_iff _ (fun _ (s : ClientState) => s.Saved P.json)).mpr
    ⟨h, fun j _ => hfiles j⟩

/-- **The wallet files stay saved.** -/
theorem filesSaved_next (hfiles : FilesSaved P w) : FilesSaved P (net.next w e) := by
  cases e with
  | pay i now paymentId args =>
    exact filesSaved_update hfiles (saved_taskStep (e := .pay now paymentId args) (hfiles i))
  | say i now msgId text =>
    exact filesSaved_update hfiles (saved_taskStep (e := .say now msgId text) (hfiles i))
  | clientRecv i now d =>
    exact filesSaved_update hfiles (saved_taskStep (e := .recv now d.msg) (hfiles i))
  | register i now => exact filesSaved_update hfiles (hfiles i)
  | restart i addr localAddr =>
    exact filesSaved_update hfiles (saved_startup localAddr (w.clients i).walletFile)
  | relayRecv _ _ | console _ _ _ _ | federate _ _ | repeer _ _ | inject _ => exact hfiles

omit [DecidableEq κ] in
/-- A change of one client that keeps its wallet keeps all wallets. -/
theorem wallets_update {f : ι → ClientState} {i : ι} {s : ClientState}
    (h : s.app.wallet = (f i).app.wallet) :
    ∀ j, (Function.update f i s j).app.wallet = (f j).app.wallet :=
  (Function.forall_update_iff _ (fun j (s : ClientState) => s.app.wallet = (f j).app.wallet)).mpr
    ⟨h, fun _ _ => rfl⟩

/-- `do_pay` debits one payment, or moves no money. -/
theorem money_pay (net : Network P ι κ) (w : World ι κ) (i : ι) (now paymentId : UInt64)
    (args : String) :
    (∃ p, Debits net w (net.next w (.pay i now paymentId args)) i p) ∨
    Quiet w (net.next w (.pay i now paymentId args)) := by
  rcases doPay_cases P (net.client i) now paymentId args (w.clients i) with
    ⟨p, hp⟩ | ⟨hexit, hstate, -⟩
  · refine Or.inl ⟨p, hp.srcId, ?_, ?_, ?_, rfl⟩
    · simp only [next, World.setClient, Function.update_self, ClientState.balance, hp.wallet]
      exact debit_balance hp.debited
    · intro j hj
      simp only [next, World.setClient, Function.update_of_ne hj]
    · simp [next, hp.exit, PayExit.payments]
  · refine Or.inr ⟨wallets_update (by rw [hstate]), ?_, rfl⟩
    simp [next, World.setClient, PayExit.payments_eq_nil hexit]

/-- A delivery to a client credits the payment delivered, or moves no money. -/
theorem money_clientRecv (net : Network P ι κ) (w : World ι κ) (i : ι) (now : UInt64)
    (d : Datagram) :
    (∃ p, d.msg = .payment p ∧ Credits net w (net.next w (.clientRecv i now d)) i p) ∨
    Quiet w (net.next w (.clientRecv i now d)) := by
  cases hrun : (w.clients i).receiving with
  | false =>
    refine Or.inr ⟨wallets_update (by rw [recvLoop_stopped hrun]), rfl, ?_⟩
    simp [next, World.setClient, recvLoop_stopped hrun, ClientExit.payments]
  | true =>
    rcases handleMsg_cases P (net.client i) now d.msg (w.clients i) with
      ⟨p, wal, hp, hc⟩ | ⟨hexit, hwallet, -, -⟩
    · rw [hp] at hc
      have hstep : (net.next w (.clientRecv i now d)).clients i =
          (handleMsg P (net.client i) now (.payment p) (w.clients i)).state := by
        simp [next, World.setClient, recvLoop_receiving hrun, hp]
      refine Or.inl ⟨p, hp, hc.accepts, ?_, ?_, ?_, rfl, ?_⟩
      · rw [hstep, hc.wallet]
        exact hc.credit
      · intro j hj
        simp only [next, World.setClient, Function.update_of_ne hj]
      · have hkey : dedupKey (net.client i) (.payment p) = some (paymentKey p.paymentId) :=
          if_pos hc.accepts.1
        rw [hstep, handleMsg_seen, hkey]
        exact SeenIds.mem_isNew_self _ _
      · simp [next, World.setClient, recvLoop_receiving hrun, hp, hc.exit, ClientExit.payments]
    · refine Or.inr ⟨wallets_update ?_, rfl, ?_⟩
      · rw [recvLoop_receiving hrun, hwallet]
      · simp [next, World.setClient, recvLoop_receiving hrun, ClientExit.payments_eq_nil hexit]

/-- **What a step does to money**: one client debits one payment, or one client credits
one payment that is delivered to it, or nothing. -/
theorem next_money (net : Network P ι κ) (e : WorldEvent ι κ) (hfiles : FilesSaved P w) :
    (∃ i p, Debits net w (net.next w e) i p) ∨
    (∃ i now d p, e = .clientRecv i now d ∧ d.msg = .payment p ∧
      Credits net w (net.next w e) i p) ∨
    Quiet w (net.next w e) := by
  cases e with
  | pay i now paymentId args =>
    rcases money_pay net w i now paymentId args with ⟨p, hd⟩ | hquiet
    · exact Or.inl ⟨i, p, hd⟩
    · exact Or.inr (Or.inr hquiet)
  | clientRecv i now d =>
    rcases money_clientRecv net w i now d with ⟨p, hp, hc⟩ | hquiet
    · exact Or.inr (Or.inl ⟨i, now, d, p, rfl, hp, hc⟩)
    · exact Or.inr (Or.inr hquiet)
  | restart i addr localAddr =>
    -- The wallet comes back from its file.
    exact Or.inr (Or.inr ⟨wallets_update (startup_wallet (hfiles i) localAddr), rfl, rfl⟩)
  | say i now msgId text =>
    exact Or.inr (Or.inr ⟨wallets_update (sendMsg_wallet now msgId text), rfl, rfl⟩)
  | register i now => exact Or.inr (Or.inr ⟨wallets_update rfl, rfl, rfl⟩)
  | relayRecv _ _ | console _ _ _ _ | federate _ _ | repeer _ _ | inject _ =>
    exact Or.inr (Or.inr ⟨fun _ => rfl, rfl, rfl⟩)

/-- What is debited stays debited. -/
theorem debited_prefix_next (hfiles : FilesSaved P w) : w.debited <+: (net.next w e).debited := by
  rcases next_money net e hfiles with
    ⟨i, p, hd⟩ | ⟨i, now, d, p, -, -, hc⟩ | hquiet
  · rw [hd.debited]
    exact List.prefix_append _ _
  · rw [hc.debited]
  · rw [hquiet.debited]

end Network
end Zeta
