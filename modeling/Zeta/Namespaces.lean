import Zeta.Ledger

/-!
# Three kinds of id in one cache

A client caches the `msg_id` of a text, and the id of a payment and that of an
acknowledgement each under a mask of its own, all in the same set.  A key does not
say which kind it came from: a message is dropped as a duplicate when an id of
another kind has the same key.

The drops are right as long as the ids in use have different keys, and wrong for
some run as soon as two ids of different kinds share one
(`noFalseDuplicate_iff`).
-/

namespace Zeta

/-- `handle_msg` took the message: it got past the cache and was not lost in a
panic. -/
def ClientExit.Processed : ClientExit → Prop
  | .credited | .acknowledged | .displayed | .invalidSignature => True
  | _ => False

/-- Two messages of one kind with one id. -/
def SameId : Message → Message → Prop
  | .classic m, .classic m' => m.msgId = m'.msgId
  | .payment p, .payment p' => p.paymentId = p'.paymentId
  | .paymentAck a, .paymentAck a' => a.paymentId = a'.paymentId
  | _, _ => False

section Statement
variable {P : Platform} (ctx : ClientContext P.ed)

/-- The event receives a message that is the client's to handle, with an id among the
texts' `A`, the payments' `B` or the acknowledgements' `C`, or it is no such event. -/
def IdIn (A B C : Set UInt64) : TaskEvent → Prop
  | .recv _ (.classic m) => m.msgId ∈ A
  | .recv _ (.payment p) => ctx.IsMe p.dstId → p.paymentId ∈ B
  | .recv _ (.paymentAck a) => ctx.IsMe a.toId → a.paymentId ∈ C
  | _ => True

variable (P)

/-- A message like `msg` is received and taken. -/
def Takes (msg : Message) (s : ClientState) (e : TaskEvent) : Prop :=
  ∃ now msg', e = .recv now msg' ∧ SameId msg' msg ∧ (recvLoop P ctx now msg' s).exit.Processed

/-- Whatever the client drops as a duplicate, it took one like it before. -/
def NoFalseDuplicate (s : ClientState) (es : List TaskEvent) : Prop :=
  ∀ pre now msg post, es = pre ++ .recv now msg :: post →
    (recvLoop P ctx now msg ((running P ctx).run s pre)).exit = .duplicate →
    (running P ctx).Happened (Takes P ctx msg) s pre

end Statement

/-- Ids of different kinds have different keys. -/
structure KeysDisjoint (A B C : Set UInt64) : Prop where
  text_payment : ∀ a ∈ A, ∀ b ∈ B, a ≠ paymentKey b
  text_ack : ∀ a ∈ A, ∀ c ∈ C, a ≠ ackKey c
  payment_ack : ∀ b ∈ B, ∀ c ∈ C, paymentKey b ≠ ackKey c

variable {P : Platform} {ctx : ClientContext P.ed} {now : UInt64} {s : ClientState}
  {A B C : Set UInt64}

/-! ## One message -/

/-- A message with a new key is taken, or ends the receive task. -/
theorem processed_of_new (P : Platform) {ctx : ClientContext P.ed} (now : UInt64)
    {msg : Message} {k : UInt64} (hk : dedupKey ctx msg = some k)
    (h : k ∉ s.seen.set) :
    (handleMsg P ctx now msg s).exit.Processed ∨
      (handleMsg P ctx now msg s).exit = .panicked ∧
        (handleMsg P ctx now msg s).state.receiving = false := by
  rcases dedupKey_cases hk with ⟨m, rfl, rfl⟩ | ⟨p, rfl, hme, rfl⟩ | ⟨a, rfl, hme, rfl⟩
  · cases hv : verify P.ed m.publicKey m.srcId m.txt m.time m.msgId m.signature with
    | false =>
      rw [handleMsg, handleClassic_invalid h hv]
      exact Or.inl trivial
    | true =>
      rw [handleMsg, handleClassic_displayed h hv]
      exact Or.inl trivial
  · cases hc : credit P.build s.app.wallet p.amount with
    | none =>
      rw [handleMsg, handlePayment_panicked hme h hc]
      exact Or.inr ⟨rfl, rfl⟩
    | some w =>
      rw [handleMsg, handlePayment_credited hme h hc]
      exact Or.inl trivial
  · rw [handleMsg, handlePaymentAck_acknowledged hme h]
    exact Or.inl trivial

/-- A message without a key is not dropped as a duplicate. -/
theorem exit_ne_duplicate_of_no_key {msg : Message} (hk : dedupKey ctx msg = none) :
    (handleMsg P ctx now msg s).exit ≠ .duplicate := by
  cases msg with
  | classic m => cases hk
  | payment p =>
    by_cases hme : ctx.IsMe p.dstId
    · simp [dedupKey, hme] at hk
    · simp [handleMsg, handlePayment_notForMe hme]
  | paymentAck a =>
    by_cases hme : ctx.IsMe a.toId
    · simp [dedupKey, hme] at hk
    · simp [handleMsg, handlePaymentAck_notForMe hme]
  | register _ | connect _ | askForAddr _ | peerInfo _ _ => simp [handleMsg]

/-- A duplicate is received by a running task that has its key cached. -/
theorem mem_seen_of_duplicate {msg : Message}
    (h : (recvLoop P ctx now msg s).exit = .duplicate) :
    s.receiving = true ∧ ∃ k, dedupKey ctx msg = some k ∧ k ∈ s.seen.set := by
  cases hrun : s.receiving with
  | false =>
    rw [recvLoop_stopped hrun] at h
    cases h
  | true =>
    rw [recvLoop_receiving hrun] at h
    refine ⟨rfl, ?_⟩
    cases hk : dedupKey ctx msg with
    | none => exact absurd h (exit_ne_duplicate_of_no_key hk)
    | some k =>
      refine ⟨k, rfl, ?_⟩
      by_contra hnew
      rcases processed_of_new P now hk hnew with hp | ⟨hp, -⟩
      · rw [h] at hp
        exact hp
      · rw [h] at hp
        cases hp

/-! ## Where a cached key comes from -/

/-- A message with this key is received and taken. -/
def TakesKey (P : Platform) (ctx : ClientContext P.ed) (k : UInt64) (s : ClientState)
    (e : TaskEvent) : Prop :=
  ∃ now msg, e = .recv now msg ∧ dedupKey ctx msg = some k ∧
    (recvLoop P ctx now msg s).exit.Processed

/-- A key enters the cache of a client that goes on receiving only with a message it
takes. -/
theorem cached_step {k : UInt64} {e : TaskEvent}
    (hrun : (taskStep P ctx s e).receiving = true) (h : k ∈ (taskStep P ctx s e).seen.set) :
    (s.receiving = true ∧ k ∈ s.seen.set) ∨ TakesKey P ctx k s e := by
  cases e with
  | pay now paymentId args =>
    rw [taskStep, doPay_receiving] at hrun
    rw [taskStep, doPay_seen] at h
    exact Or.inl ⟨hrun, h⟩
  | say now msgId text => exact Or.inl ⟨hrun, h⟩
  | recv now msg =>
    cases hbefore : s.receiving with
    | false =>
      rw [taskStep, recvLoop_stopped hbefore, hbefore] at hrun
      cases hrun
    | true =>
      rw [taskStep, recvLoop_receiving hbefore] at hrun h
      by_cases hk : k ∈ s.seen.set
      · exact Or.inl ⟨rfl, hk⟩
      · rw [handleMsg_seen] at h
        cases hkey : dedupKey ctx msg with
        | none =>
          rw [hkey] at h
          exact absurd h hk
        | some k' =>
          rw [hkey] at h
          obtain rfl : k = k' := by
            by_contra hne
            exact hk (SeenIds.mem_of_mem_isNew h hne)
          -- A payment lost in a panic is cached too, but then the task is gone.
          refine Or.inr ⟨now, msg, rfl, hkey, ?_⟩
          rw [recvLoop_receiving hbefore]
          rcases processed_of_new P now hkey hk with hp | ⟨-, hstop⟩
          · exact hp
          · rw [hstop] at hrun
            cases hrun

/-- Messages with the same key are of one kind and have one id, if kinds do not share
keys. -/
theorem sameId_of_key (now now' : UInt64) {msg msg' : Message} {k : UInt64}
    (hdisj : KeysDisjoint A B C)
    (hin : IdIn ctx A B C (.recv now msg)) (hin' : IdIn ctx A B C (.recv now' msg'))
    (hk : dedupKey ctx msg = some k) (hk' : dedupKey ctx msg' = some k) : SameId msg' msg := by
  rcases dedupKey_cases hk with ⟨m, rfl, he⟩ | ⟨p, rfl, hme, he⟩ | ⟨a, rfl, hme, he⟩ <;>
    rcases dedupKey_cases hk' with ⟨m', rfl, he'⟩ | ⟨p', rfl, hme', he'⟩ | ⟨a', rfl, hme', he'⟩
  · exact he'.trans he.symm
  · exact absurd (he.trans he'.symm) (hdisj.text_payment _ hin _ (hin' hme'))
  · exact absurd (he.trans he'.symm) (hdisj.text_ack _ hin _ (hin' hme'))
  · exact absurd (he'.trans he.symm) (hdisj.text_payment _ hin' _ (hin hme))
  · exact (UInt64.xor_left_inj _).mp (he'.trans he.symm)
  · exact absurd (he.trans he'.symm) (hdisj.payment_ack _ (hin hme) _ (hin' hme'))
  · exact absurd (he'.trans he.symm) (hdisj.text_ack _ hin' _ (hin hme))
  · exact absurd (he'.trans he.symm) (hdisj.payment_ack _ (hin' hme') _ (hin hme))
  · exact (UInt64.xor_left_inj _).mp (he'.trans he.symm)

/-! ## Runs -/

/-- With disjoint keys, no run drops a message for another of a different kind. -/
theorem noFalseDuplicate_of_disjoint (hdisj : KeysDisjoint A B C) (hseen : s.seen.set = ∅)
    {es : List TaskEvent} (hin : ∀ e ∈ es, IdIn ctx A B C e) : NoFalseDuplicate P ctx s es := by
  rintro pre now msg post rfl hdup
  obtain ⟨hrun, k, hk, hcached⟩ := mem_seen_of_duplicate hdup
  have hcame : (s.receiving = true ∧ k ∈ s.seen.set) ∨
      (running P ctx).Happened (TakesKey P ctx k) s pre :=
    EventSystem.happened_of_run (I := fun s : ClientState => s.receiving = true ∧ k ∈ s.seen.set)
      (fun s e h => cached_step h.1 h.2) ⟨hrun, hcached⟩
  rcases hcame with ⟨-, hstart⟩ | ⟨pre', e, post', rfl, now', msg', rfl, hk', htook⟩
  · rw [hseen] at hstart
    exact absurd hstart (Finset.notMem_empty k)
  · refine ⟨pre', _, post', rfl, now', msg', rfl, ?_, htook⟩
    refine sameId_of_key now now' hdisj ?_ ?_ hk hk'
    · exact hin _ (by simp)
    · exact hin _ (by simp)

/-- When the first of two messages takes the key of the second, the second is
dropped. -/
theorem sameId_of_noFalseDuplicate {msg msg' : Message} {k : UInt64}
    (hk : dedupKey ctx msg = some k) (hk' : dedupKey ctx msg' = some k)
    (hrun : s.receiving = true) (hmsg : ∀ p, msg ≠ .payment p)
    (h : NoFalseDuplicate P ctx s [.recv 0 msg, .recv 0 msg']) : SameId msg msg' := by
  have hnext : (running P ctx).run s [.recv 0 msg] = (handleMsg P ctx 0 msg s).state := by
    rw [← recvLoop_receiving hrun]
    rfl
  have hrun' : (handleMsg P ctx 0 msg s).state.receiving = true := by
    obtain ⟨-, -, -, hrecv, -⟩ := handleMsg_of_not_accepts P ctx 0
      (s := s) (fun p hp => absurd hp (hmsg p))
    rw [hrecv, hrun]
  have hcached : k ∈ (handleMsg P ctx 0 msg s).state.seen.set := by
    rw [handleMsg_seen, hk]
    exact SeenIds.mem_isNew_self _ _
  have hdup : (recvLoop P ctx 0 msg' ((running P ctx).run s [.recv 0 msg])).exit = .duplicate := by
    rw [hnext, recvLoop_receiving hrun', handleMsg_of_mem hk' hcached]
  obtain ⟨pre, e, post, he, now, msg'', rfl, hsame, -⟩ := h [.recv 0 msg] 0 msg' [] rfl hdup
  have hmem : TaskEvent.recv now msg'' ∈ [TaskEvent.recv 0 msg] := by
    rw [he]
    simp
  obtain ⟨-, rfl⟩ := TaskEvent.recv.inj (List.mem_singleton.mp hmem)
  exact hsame

/-- **The drops of every run are right if and only if ids of different kinds have
different keys**: for the ids `A` of the texts, `B` of the payments to this client and
`C` of the acknowledgements to it that occur. -/
theorem noFalseDuplicate_iff (P : Platform) (ctx : ClientContext P.ed) (localAddr : SocketAddr)
    (file : WalletFile) (A B C : Set UInt64) :
    (∀ es, (∀ e ∈ es, IdIn ctx A B C e) →
      NoFalseDuplicate P ctx (startup P ctx localAddr file) es) ↔ KeysDisjoint A B C := by
  constructor
  · intro h
    let text (a : UInt64) : Message := .classic (forged a)
    let payment (b : UInt64) : Message := .payment ⟨"", ctx.peerId, 0, b⟩
    let ack (c : UInt64) : Message := .paymentAck ⟨c, "", ctx.peerId⟩
    have hpayment : ∀ b, dedupKey ctx (payment b) = some (paymentKey b) :=
      fun b => if_pos ctx.isMe_peerId
    have hack : ∀ c, dedupKey ctx (ack c) = some (ackKey c) := fun c => if_pos ctx.isMe_peerId
    -- Two messages of different kinds with one key: the second is dropped.
    have hpair : ∀ msg msg' k, dedupKey ctx msg = some k → dedupKey ctx msg' = some k →
        (∀ p, msg ≠ .payment p) → IdIn ctx A B C (.recv 0 msg) → IdIn ctx A B C (.recv 0 msg') →
        SameId msg msg' := by
      intro msg msg' k hk hk' hmsg hin hin'
      refine sameId_of_noFalseDuplicate hk hk' rfl hmsg (h _ ?_)
      simp [hin, hin']
    constructor
    · intro a ha b hb he
      exact hpair (text a) (payment b) a rfl (by rw [hpayment, he]) nofun ha (fun _ => hb)
    · intro a ha c hc he
      exact hpair (text a) (ack c) a rfl (by rw [hack, he]) nofun ha (fun _ => hc)
    · intro b hb c hc he
      exact hpair (ack c) (payment b) _ (hack c) (by rw [hpayment, he]) nofun
        (fun _ => hc) (fun _ => hb)
  · intro hdisj es hin
    exact noFalseDuplicate_of_disjoint hdisj rfl hin

/-! ## A payment lost to a text -/

/-- **A payment is lost to a text.**  Bob displays a text of alice's and then drops her
payment number 7, the first payment he ever receives, as a duplicate. -/
theorem payment_lost_to_text :
    let text : Message := .classic (aliceText 0xFFFF_FFFF_0000_0007)
    let es : List TaskEvent := [.recv 0 text, .recv 0 (.payment fiveForBob)]
    (doPay samplePlatform alice 0 7 "bob 5" (aliceStart 5)).exit = .sent fiveForBob ∧
    (recvLoop samplePlatform bob 0 text (bobStart 0)).exit = .displayed ∧
    ((running samplePlatform bob).run (bobStart 0) es).balance = 0 ∧
    ¬ NoFalseDuplicate samplePlatform bob (bobStart 0) es := by
  refine ⟨by decide +kernel, by decide +kernel, by decide +kernel, fun h => ?_⟩
  have hkey : dedupKey bob (.payment fiveForBob) =
      some (aliceText 0xFFFF_FFFF_0000_0007).msgId := by decide +kernel
  have htext : dedupKey bob (.classic (aliceText 0xFFFF_FFFF_0000_0007)) =
      some 0xFFFF_FFFF_0000_0007 := rfl
  exact sameId_of_noFalseDuplicate htext hkey rfl nofun h

end Zeta
