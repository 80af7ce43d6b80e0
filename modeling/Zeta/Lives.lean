import Mathlib.Algebra.Ring.Nat
import Zeta.Crash
import Zeta.Durability

/-!
# A client's lives

A client may be killed at any moment: between two actions of its tasks, or while
`std::fs::write` is writing the wallet, at its start as well as later.  The next life begins
with the file that is left.

Over all its lives a client is an account (`lives_are_an_account`): payments are taken off and
credits are added, each of them only if the balance allows it, and the only other thing that
can happen to the balance is that all of it is lost, once for each file that was cut short.
The changes of the account are those that the tasks have made in memory, but for at most one
in each life, and each of them is that of a call that was started: a payment received, or a
`do_pay`.  What is sent about the money are changes of the account, in their order.  So
whenever a client is killed, it never pays more than it had and was paid.
-/

namespace Zeta

/-- One life of a client, until it is killed. -/
inductive Life where
  /-- It is killed while `load_or_create_wallet` writes a wallet that it has not found. -/
  | starting (cp : CrashPoint)
  /-- It is killed after these actions of its tasks.  If the wallet is being written, `n` bytes
  have been; and of what the tasks have sent, the socket has taken `out`. -/
  | running (localAddr : SocketAddr) (as : List (TaskAction Task SharedState)) (n : ℕ)
    (out : Sends)

/-- What a client leaves behind: its file, what it has sent, the changes that its tasks have
made in memory, and how many times a file that it was saving was cut short. -/
structure Remains where
  file : WalletFile
  sent : Sends
  log : List WalletOp
  torn : ℕ

/-- A client that has not been started yet, with this file. -/
def firstRemains (file : WalletFile) : Remains where
  file := file
  sent := []
  log := []
  torn := 0

/-- What happens to an account. -/
inductive AccountEvent where
  | commit (c : Commit)
  | lose
  deriving DecidableEq

/-- The changes among these events. -/
def commitsOf (es : List AccountEvent) : List Commit :=
  es.filterMap fun
    | .commit c => some c
    | .lose => none

/-- What a change pays. -/
def Commit.spent : Commit → ℕ
  | .paid p => p.amount.toNat
  | .credited _ => 0

/-- What a change brings in. -/
def Commit.gained : Commit → ℕ
  | .paid _ => 0
  | .credited p => p.amount.toNat

section Statement
variable (P : Platform) (ctx : ClientContext P.ed)

/-- **An account.** -/
def account : EventSystem Wallet AccountEvent where
  Enabled w
    | .commit c => c.Possible P.build w
    | .lose => True
  next w
    | .commit c => c.op.apply P.build w
    | .lose => { w with balance := 0 }

/-- The wallet that a start makes of the file. -/
def foundWallet (file : WalletFile) : Wallet := (loadOrCreateWallet P.json file ctx.myBtc).1

/-- `load_or_create_wallet`, cut short: the file afterwards. -/
def createWalletUntil (file : WalletFile) (cp : CrashPoint) : WalletFile :=
  match readWallet P.json file with
  | some _ => file
  | none => saveWalletUntil P.json file { balance := 0, address := ctx.myBtc } cp

/-- The file that is left when the client is killed in this state. -/
def fileLeft (s : SharedState) (n : ℕ) : WalletFile :=
  if s.client.walletFile = some [] then
    -- `save_wallet` has truncated the file.
    saveWalletUntil P.json s.client.walletFile s.client.app.wallet (.written n)
  else s.client.walletFile

/-- The file is cut short. -/
def CutShort (s : SharedState) (n : ℕ) : Prop :=
  s.client.walletFile = some [] ∧ n < (asBytes (P.json.toStringPretty s.client.app.wallet)).length

instance (s : SharedState) (n : ℕ) : Decidable (CutShort P s n) :=
  inferInstanceAs (Decidable (_ ∧ _))

/-- What the client leaves when it is killed in this state. -/
def Remains.add (r : Remains) (s : SharedState) (n : ℕ) (out : Sends) : Remains where
  file := fileLeft P s n
  sent := r.sent ++ out
  log := r.log ++ s.log
  torn := r.torn + if CutShort P s n then 1 else 0

/-- The lives of a client, one after the other. -/
def lives : EventSystem Remains Life where
  Enabled r
    | .starting _ => True
    | .running localAddr as _ out =>
      (clientTasks P ctx).Always (fun _ _ => True)
        (TaskPool.idle (tasksStart P ctx localAddr r.file)) as ∧
      List.Sublist out ((clientTasks P ctx).run
        (TaskPool.idle (tasksStart P ctx localAddr r.file)) as).shared.sent
  next r
    | .starting cp => { r with file := createWalletUntil P ctx r.file cp }
    | .running localAddr as n out =>
      r.add P ((clientTasks P ctx).run
        (TaskPool.idle (tasksStart P ctx localAddr r.file)) as).shared n out

/-- In this life a call was started that makes the change. -/
def Life.Asks (c : Commit) : Life → Prop
  | .starting _ => False
  | .running _ as _ _ => c.AskedIn P ctx as

/-- **The remains of these lives are those of an account** that was `w` at first and to which
`es` happened. -/
structure Accounted (w : Wallet) (ls : List Life) (r : Remains) (es : List AccountEvent) :
    Prop where
  possible : (account P).Always (fun _ _ => True) w es
  wallet : (account P).run w es = foundWallet P ctx r.file
  losses : es.count .lose = r.torn
  asked : ∀ c ∈ commitsOf es, ∃ l ∈ ls, l.Asks P ctx c
  made : List.Sublist ((commitsOf es).map Commit.op) r.log
  kept : r.log.length ≤ (commitsOf es).length + ls.length
  sent : ∀ t, List.Sublist (announced t r.sent) (announced t (announcements ctx (commitsOf es)))

end Statement

/-! ## Accounts -/

section Account
variable {P : Platform} {ctx : ClientContext P.ed} {w : Wallet}

theorem commitsOf_append (es es' : List AccountEvent) :
    commitsOf (es ++ es') = commitsOf es ++ commitsOf es' :=
  List.filterMap_append

theorem commitsOf_map (cs : List Commit) : commitsOf (cs.map .commit) = cs := by
  simp [commitsOf, List.filterMap_map]

theorem count_lose_map (cs : List Commit) :
    (cs.map AccountEvent.commit).count .lose = 0 := by
  simp [List.count_eq_zero]

theorem announcements_append (cs cs' : List Commit) :
    announcements ctx (cs ++ cs') = announcements ctx cs ++ announcements ctx cs' :=
  List.flatMap_append

/-- A run of the durable wallet is one of the account. -/
theorem account_of_durableWallet {cs ds : List Commit}
    (h : (durableWallet P w).Always (fun _ _ => True) ds cs) :
    (account P).Always (fun _ _ => True) (committed P w ds) (cs.map .commit) ∧
      (account P).run (committed P w ds) (cs.map .commit) = committed P w (ds ++ cs) := by
  induction cs generalizing ds with
  | nil => exact ⟨trivial, by rw [List.append_nil]; rfl⟩
  | cons c cs ih =>
    obtain ⟨hpossible, -, hrest⟩ := h
    have hnext : (account P).next (committed P w ds) (.commit c) = committed P w (ds ++ [c]) :=
      (committed_snoc ds c).symm
    obtain ⟨hrun, hend⟩ := ih hrest
    rw [List.map_cons, EventSystem.always_cons, EventSystem.run_cons, hnext]
    exact ⟨⟨hpossible, trivial, hrun⟩,
      hend.trans (congrArg (committed P w) (List.append_assoc ds [c] cs))⟩

theorem address_apply (b : Build) (w : Wallet) (op : WalletOp) :
    (op.apply b w).address = w.address := by
  cases op with
  | credit amount =>
    show ((credit b w amount).getD w).address = w.address
    unfold credit
    split <;> rfl
  | debit amount =>
    show (debit w amount).2.address = w.address
    unfold debit
    split <;> rfl

theorem address_committed (cs : List Commit) : (committed P w cs).address = w.address := by
  induction cs using List.reverseRecOn with
  | nil => rfl
  | append_singleton cs c ih => rw [committed_snoc, address_apply, ih]

/-- The address of an account stays. -/
theorem address_account (es : List AccountEvent) :
    ((account P).run w es).address = w.address := by
  induction es generalizing w with
  | nil => rfl
  | cons e es ih =>
    rw [EventSystem.run_cons, ih]
    cases e with
    | commit c => exact address_apply P.build w c.op
    | lose => rfl

/-- **An account is never overdrawn.** -/
theorem account_solvent {es : List AccountEvent}
    (h : (account P).Always (fun _ _ => True) w es) :
    ((commitsOf es).map Commit.spent).sum + ((account P).run w es).balance.toNat ≤
      w.balance.toNat + ((commitsOf es).map Commit.gained).sum := by
  induction es generalizing w with
  | nil => simp [commitsOf]
  | cons e es ih =>
    obtain ⟨hpossible, -, hrest⟩ := h
    have htail := ih hrest
    rw [EventSystem.run_cons]
    cases e with
    | lose =>
      have hlose : commitsOf (.lose :: es) = commitsOf es := rfl
      have hzero : ((account P).next w .lose).balance.toNat = 0 := rfl
      rw [hlose]
      omega
    | commit c =>
      have hcommit : commitsOf (.commit c :: es) = c :: commitsOf es := rfl
      rw [hcommit, List.map_cons, List.map_cons, List.sum_cons, List.sum_cons]
      have hstep : c.spent + ((account P).next w (.commit c)).balance.toNat ≤
          w.balance.toNat + c.gained := by
        cases c with
        | paid p =>
          have hdebit : (debit w p.amount).2.balance.toNat + p.amount.toNat =
              w.balance.toNat := debit_balance hpossible
          show p.amount.toNat + (debit w p.amount).2.balance.toNat ≤ w.balance.toNat + 0
          omega
        | credited p =>
          have hcredit := credit_le P.build w p.amount
          show 0 + ((credit P.build w p.amount).getD w).balance.toNat ≤ _
          simpa [Commit.gained] using hcredit
      omega

end Account

/-! ## One life -/

section Step
variable {P : Platform} {ctx : ClientContext P.ed} {w : Wallet} {ls : List Life} {l : Life}
  {r r' : Remains} {es : List AccountEvent}

/-- A file that was being written when the client was killed: all of it is there, or the next
start finds nothing. -/
theorem foundWallet_saveWalletUntil {v : Wallet} (hJ : P.json.RejectsPrefixes v)
    (hv : v.address = ctx.myBtc) (file : WalletFile) (n : ℕ) :
    foundWallet P ctx (saveWalletUntil P.json file v (.written n)) =
      if n < (asBytes (P.json.toStringPretty v)).length then { v with balance := 0 } else v := by
  split
  · rename_i hn
    have hnone := readWallet_take hJ hn
    simp only [foundWallet, saveWalletUntil, CrashPoint.write, loadOrCreateWallet, hnone, hv]
  · rename_i hn
    have hall := readWallet_saveWallet P.json v
    rw [saveWallet, ← List.take_of_length_le (Nat.not_lt.mp hn)] at hall
    simp only [foundWallet, saveWalletUntil, CrashPoint.write, loadOrCreateWallet, hall]

/-- A start that is cut short finds the same as before, and so does the next. -/
theorem foundWallet_createWalletUntil
    (hJ : ∀ balance, P.json.RejectsPrefixes { balance, address := ctx.myBtc })
    (file : WalletFile) (cp : CrashPoint) :
    foundWallet P ctx (createWalletUntil P ctx file cp) = foundWallet P ctx file := by
  unfold createWalletUntil
  cases hread : readWallet P.json file with
  | some v => rfl
  | none =>
    have hfound : foundWallet P ctx file = { balance := 0, address := ctx.myBtc } := by
      simp [foundWallet, loadOrCreateWallet, hread]
    rw [hfound]
    cases cp with
    | beforeTruncate => exact hfound
    | written n =>
      -- Nothing is lost: the balance is still zero.
      have hleft := foundWallet_saveWalletUntil (hJ 0) rfl file n
      rwa [ite_self] at hleft

/-- All changes of a durable wallet are as its run allows. -/
theorem asked_of_mem {v : Wallet} {Asked : Commit → Prop} {cs ds : List Commit} {c : Commit}
    (h : (durableWallet P v).Always (fun _ c => Asked c) ds cs) (hc : c ∈ cs) : Asked c := by
  obtain ⟨pre, post, rfl⟩ := List.append_of_mem hc
  exact (EventSystem.always_append.mp h).2.2.1

/-- What was asked for in a life was asked for in one of all. -/
theorem Accounted.asked_append (h : Accounted P ctx w ls r es) {c : Commit}
    (hc : c ∈ commitsOf es) : ∃ l' ∈ ls ++ [l], l'.Asks P ctx c := by
  obtain ⟨l', hl', hasks⟩ := h.asked c hc
  exact ⟨l', List.mem_append_left _ hl', hasks⟩

/-- A life that changes nothing. -/
theorem Accounted.idle (h : Accounted P ctx w ls r es)
    (hfound : foundWallet P ctx r'.file = foundWallet P ctx r.file) (hsent : r'.sent = r.sent)
    (hlog : r'.log = r.log) (htorn : r'.torn = r.torn) :
    Accounted P ctx w (ls ++ [l]) r' es where
  possible := h.possible
  wallet := by rw [hfound]; exact h.wallet
  losses := by rw [htorn]; exact h.losses
  asked _ hc := h.asked_append hc
  made := by rw [hlog]; exact h.made
  kept := by
    have hkept := h.kept
    rw [hlog, List.length_append]
    omega
  sent := by rw [hsent]; exact h.sent

/-- A life with changes of the account, and what was sent of them. -/
theorem Accounted.commits (h : Accounted P ctx w ls r es) {cs : List Commit}
    {log : List WalletOp} {sends : Sends}
    (hcs : (durableWallet P (foundWallet P ctx r.file)).Always (fun _ c => l.Asks P ctx c) [] cs)
    (hfound : foundWallet P ctx r'.file = committed P (foundWallet P ctx r.file) cs)
    (htorn : r'.torn = r.torn) (hlog : r'.log = r.log ++ log) (hmade : cs.map Commit.op <+: log)
    (hkept : log.length ≤ cs.length + 1) (hsent : r'.sent = r.sent ++ sends)
    (hannounced : ∀ t, List.Sublist (announced t sends) (announced t (announcements ctx cs))) :
    Accounted P ctx w (ls ++ [l]) r' (es ++ cs.map .commit) := by
  obtain ⟨hrun, hend⟩ := account_of_durableWallet (hcs.imp fun _ _ _ _ => trivial)
  refine ⟨?_, ?_, ?_, ?_, ?_, ?_, ?_⟩
  · rw [EventSystem.always_append, h.wallet]
    exact ⟨h.possible, hrun⟩
  · rw [EventSystem.run_append, h.wallet, hfound]
    exact hend
  · rw [List.count_append, count_lose_map, htorn]
    exact h.losses
  · intro c hc
    rw [commitsOf_append, commitsOf_map] at hc
    rcases List.mem_append.mp hc with hold | hnew
    · exact h.asked_append hold
    · exact ⟨l, List.mem_append_right _ (List.mem_singleton_self l), asked_of_mem hcs hnew⟩
  · rw [commitsOf_append, commitsOf_map, List.map_append, hlog]
    exact h.made.append hmade.sublist
  · have hbefore := h.kept
    rw [hlog, commitsOf_append, commitsOf_map, List.length_append, List.length_append,
      List.length_append, List.length_singleton]
    omega
  · intro t
    rw [hsent, commitsOf_append, commitsOf_map, announcements_append, announced_append,
      announced_append]
    exact (h.sent t).append (hannounced t)

/-- At the end of a life the balance is lost. -/
theorem Accounted.lose (h : Accounted P ctx w ls r es)
    (hfound : foundWallet P ctx r'.file = { foundWallet P ctx r.file with balance := 0 })
    (htorn : r'.torn = r.torn + 1) (hlog : r'.log = r.log) (hsent : r'.sent = r.sent) :
    Accounted P ctx w ls r' (es ++ [.lose]) := by
  have hsame : commitsOf (es ++ [.lose]) = commitsOf es := by
    rw [commitsOf_append]
    exact List.append_nil _
  refine ⟨?_, ?_, ?_, ?_, ?_, ?_, ?_⟩
  · rw [EventSystem.always_append]
    exact ⟨h.possible, trivial, trivial, trivial⟩
  · rw [EventSystem.run_append, h.wallet, hfound]
    rfl
  · rw [List.count_append, htorn, h.losses]
    rfl
  · rw [hsame]
    exact h.asked
  · rw [hsame, hlog]
    exact h.made
  · rw [hsame, hlog]
    exact h.kept
  · rw [hsame, hsent]
    exact h.sent

/-- The changes made in memory are the durable ones, and perhaps one more. -/
theorem Durable.exists_made {v : Wallet} {Asked : Commit → Prop} {s : SharedState}
    {cs : List Commit} (h : Durable P ctx v Asked s cs)
    (hcs : (durableWallet P v).Always (fun _ c => Asked c) [] cs) :
    ∃ ds, (durableWallet P v).Always (fun _ c => Asked c) [] ds ∧ Made P v s ds ∧
      ∀ t, announced t s.sent <+: announced t (announcements ctx ds) := by
  rcases h.memory with hmade | ⟨c, hasked, hc, hmade⟩
  · exact ⟨cs, hcs, hmade, h.sent⟩
  · refine ⟨cs ++ [c], ?_, hmade, fun t => ?_⟩
    · rw [EventSystem.always_snoc, run_durableWallet]
      exact ⟨hcs, hc, hasked⟩
    · rw [announcements_snoc, announced_append]
      exact (h.sent t).trans (List.prefix_append _ _)

/-- The address of the account is always the client's own. -/
theorem Accounted.address_committed (h : Accounted P ctx w ls r es)
    (hown : w.address = ctx.myBtc) (cs : List Commit) :
    (committed P (foundWallet P ctx r.file) cs).address = ctx.myBtc := by
  rw [Zeta.address_committed, ← h.wallet, address_account, hown]

/-- A life that ends in the middle of a save.  What was being saved are changes of the account,
too; they are all there, or the whole balance is lost after them. -/
theorem Accounted.saving (h : Accounted P ctx w ls r es) (hown : w.address = ctx.myBtc)
    (hJ : ∀ balance, P.json.RejectsPrefixes { balance, address := ctx.myBtc })
    {s : SharedState} {ds : List Commit}
    (hds : (durableWallet P (foundWallet P ctx r.file)).Always (fun _ c => l.Asks P ctx c) [] ds)
    (hmade : Made P (foundWallet P ctx r.file) s ds) (hfile : s.client.walletFile = some [])
    (n : ℕ) {out : Sends}
    (hsent : ∀ t, List.Sublist (announced t out) (announced t (announcements ctx ds))) :
    ∃ es', Accounted P ctx w (ls ++ [l]) (r.add P s n out) es' := by
  obtain ⟨hwallet, hlog⟩ := hmade
  have hops : ds.map Commit.op <+: s.log := by rw [hlog]
  have hkept : s.log.length ≤ ds.length + 1 := by
    rw [hlog, List.length_map]
    exact Nat.le_succ _
  have haddress : s.client.app.wallet.address = ctx.myBtc := by
    rw [hwallet]
    exact h.address_committed hown ds
  have hprefixes : P.json.RejectsPrefixes s.client.app.wallet := by
    have hbalance := hJ s.client.app.wallet.balance
    rwa [← haddress] at hbalance
  have hleft : foundWallet P ctx (r.add P s n out).file =
      if n < (asBytes (P.json.toStringPretty s.client.app.wallet)).length then
        { s.client.app.wallet with balance := 0 }
      else s.client.app.wallet := by
    rw [Remains.add, fileLeft, if_pos hfile]
    exact foundWallet_saveWalletUntil hprefixes haddress s.client.walletFile n
  by_cases hn : n < (asBytes (P.json.toStringPretty s.client.app.wallet)).length
  · -- The changes, and then the loss.
    have hfound : foundWallet P ctx (saveWallet P.json s.client.app.wallet) =
        s.client.app.wallet := by
      rw [foundWallet, loadOrCreateWallet_of_readWallet P.json (readWallet_saveWallet _ _)]
    have hsaved : Accounted P ctx w (ls ++ [l])
        ⟨saveWallet P.json s.client.app.wallet, r.sent ++ out, r.log ++ s.log, r.torn⟩
        (es ++ ds.map .commit) :=
      h.commits hds (hfound.trans hwallet) rfl rfl hops hkept rfl hsent
    refine ⟨_, hsaved.lose ?_ ?_ rfl rfl⟩
    · rw [hleft, if_pos hn, hfound]
    · exact congrArg (r.torn + ·) (if_pos ⟨hfile, hn⟩)
  · refine ⟨_, h.commits hds ?_ ?_ rfl hops hkept rfl hsent⟩
    · rw [hleft, if_neg hn, hwallet]
    · exact congrArg (r.torn + ·) (if_neg fun hcut => hn hcut.2)

/-- **What a life does to the account**: the changes that it has made durable, one more if it
was killed at the end of a save, and the loss of the balance if it was killed before. -/
theorem Accounted.running (h : Accounted P ctx w ls r es) (hown : w.address = ctx.myBtc)
    (hJ : ∀ balance, P.json.RejectsPrefixes { balance, address := ctx.myBtc })
    {s : SharedState} {cs : List Commit}
    (hcs : (durableWallet P (foundWallet P ctx r.file)).Always (fun _ c => l.Asks P ctx c) [] cs)
    (hs : Durable P ctx (foundWallet P ctx r.file) (l.Asks P ctx) s cs) (n : ℕ) {out : Sends}
    (hout : List.Sublist out s.sent) :
    ∃ es', Accounted P ctx w (ls ++ [l]) (r.add P s n out) es' := by
  have hannounced : ∀ {t ds}, announced t s.sent <+: announced t (announcements ctx ds) →
      List.Sublist (announced t out) (announced t (announcements ctx ds)) :=
    fun h => (hout.filter _).trans h.sublist
  by_cases hfile : s.client.walletFile = some []
  · obtain ⟨ds, hds, hmade, hsent⟩ := hs.exists_made hcs
    exact h.saving hown hJ hds hmade hfile n fun t => hannounced (hsent t)
  · have hread := hs.file.resolve_left hfile
    refine ⟨_, h.commits hcs ?_ ?_ rfl hs.log_prefix hs.log_length rfl fun t =>
      hannounced (hs.sent t)⟩
    · rw [Remains.add, fileLeft, if_neg hfile, foundWallet,
        loadOrCreateWallet_of_readWallet P.json hread]
    · exact congrArg (r.torn + ·) (if_neg fun hcut => hfile hcut.1)

end Step

/-- Whatever the lives of a client were, what it leaves are the remains of an account. -/
theorem exists_accounted {P : Platform} {ctx : ClientContext P.ed} {file : WalletFile}
    (hown : (foundWallet P ctx file).address = ctx.myBtc)
    (hJ : ∀ balance, P.json.RejectsPrefixes { balance, address := ctx.myBtc })
    {ls : List Life} (hls : (lives P ctx).Always (fun _ _ => True) (firstRemains file) ls) :
    ∃ es, Accounted P ctx (foundWallet P ctx file) ls
      ((lives P ctx).run (firstRemains file) ls) es := by
  induction ls using List.reverseRecOn with
  | nil =>
    exact ⟨[], trivial, rfl, rfl, fun _ hc => absurd hc List.not_mem_nil, List.Sublist.refl _,
      Nat.le_refl _, fun _ => List.Sublist.refl _⟩
  | append_singleton ls l ih =>
    rw [EventSystem.always_snoc] at hls
    obtain ⟨hls, hen, -⟩ := hls
    obtain ⟨es, h⟩ := ih hls
    rw [EventSystem.run_snoc]
    cases l with
    | starting cp => exact ⟨es, h.idle (foundWallet_createWalletUntil hJ _ cp) rfl rfl rfl⟩
    | running localAddr as n out =>
      obtain ⟨cs, hcs, hkept⟩ := exists_durable hen.1
      exact h.running (l := .running localAddr as n out) hown hJ hcs hkept.rel n hen.2

/-- **Over all its lives a client is an account.**  Kill it at any moments and start it again:
to what it leaves there are events of an account, as it was found first, such that

* the account is what the next start finds;
* the balance was lost as often as a file was cut short;
* its changes are those that the tasks have made in memory, in their order, but for at most one
  in each life;
* each of them is that of a call that was started: the payment was received, or `do_pay` read
  it from its arguments;
* all the payments ever sent are changes of the account, in their order, and so are all the
  acknowledgements;
* what was paid, and what is left, is no more than what was there and what came in. -/
theorem lives_are_an_account (P : Platform) (ctx : ClientContext P.ed) (file : WalletFile)
    (hown : (foundWallet P ctx file).address = ctx.myBtc)
    (hJ : ∀ balance, P.json.RejectsPrefixes { balance, address := ctx.myBtc })
    (ls : List Life) (hls : (lives P ctx).Always (fun _ _ => True) (firstRemains file) ls) :
    let w := foundWallet P ctx file
    let r := (lives P ctx).run (firstRemains file) ls
    ∃ es, (account P).Always (fun _ _ => True) w es ∧
      (account P).run w es = foundWallet P ctx r.file ∧
      es.count .lose = r.torn ∧
      List.Sublist ((commitsOf es).map Commit.op) r.log ∧
      r.log.length ≤ (commitsOf es).length + ls.length ∧
      (∀ c ∈ commitsOf es, ∃ l ∈ ls, l.Asks P ctx c) ∧
      (∀ t, List.Sublist (announced t r.sent) (announced t (announcements ctx (commitsOf es)))) ∧
      ((commitsOf es).map Commit.spent).sum + (foundWallet P ctx r.file).balance.toNat ≤
        w.balance.toNat + ((commitsOf es).map Commit.gained).sum := by
  intro w r
  obtain ⟨es, h⟩ := exists_accounted hown hJ hls
  have hsolvent := account_solvent h.possible
  rw [h.wallet] at hsolvent
  exact ⟨es, h.possible, h.wallet, h.losses, h.made, h.kept, h.asked, h.sent, hsolvent⟩

/-! ## A client that is killed three times -/

theorem eq_append_of_stripPrefix {p l rest : List Char} (h : stripPrefix p l = some rest) :
    l = p ++ rest := by
  unfold stripPrefix at h
  split at h
  · rename_i hp
    obtain ⟨q, rfl⟩ := List.isPrefixOf_iff_prefix.mp hp
    rw [← Option.some.inj h, List.drop_left]
  · cases h

/-- What is read begins and ends like what is printed. -/
theorem PlainJson.eq_of_parse {text : String} {w : Wallet} (h : PlainJson.parse text = some w) :
    ∃ digits address : List Char, (∀ c ∈ digits, c.isDigit = true) ∧
      text.toList = PlainJson.head ++
        (digits ++ (PlainJson.middle ++ (address ++ PlainJson.tail))) := by
  simp only [PlainJson.parse, Option.bind_eq_bind, Option.bind_eq_some_iff] at h
  obtain ⟨rest, hhead, balance, -, rest', hmiddle, htail⟩ := h
  split at htail
  · rename_i haddress
    refine ⟨rest.takeWhile Char.isDigit, rest'.take (rest'.length - PlainJson.tail.length),
      fun c hc => List.mem_takeWhile_imp hc, ?_⟩
    rw [haddress, ← eq_append_of_stripPrefix hmiddle, List.takeWhile_append_dropWhile]
    exact eq_append_of_stripPrefix hhead
  · cases htail

/-- No proper beginning of what is printed is read, if the address has no quote. -/
theorem rejectsPrefixes_of_address {w : Wallet} (hw : '"' ∉ w.address.toList) :
    plainJson.RejectsPrefixes w := by
  intro l hprefix hne
  by_contra hread
  obtain ⟨v, hv⟩ := Option.ne_none_iff_exists'.mp hread
  obtain ⟨digits, address, hdigits, hl⟩ := PlainJson.eq_of_parse hv
  rw [String.toList_ofList] at hl
  obtain ⟨rest, hrest⟩ := hprefix
  have hdigits' : ∀ c ∈ Nat.toDigits 10 w.balance.toNat, c.isDigit = true :=
    fun c hc => Nat.isDigit_of_mem_toDigits (by omega) (by omega) hc
  have hprint : (plainJson.toStringPretty w).toList = PlainJson.head ++
      (Nat.toDigits 10 w.balance.toNat ++ (PlainJson.middle ++
        (w.address.toList ++ PlainJson.tail))) := String.toList_ofList
  rw [hprint, hl] at hrest
  simp only [List.append_assoc] at hrest
  have hrest := List.append_cancel_left hrest
  -- The digits are the same, and what follows them.
  have hdrop := congrArg (List.dropWhile Char.isDigit) hrest
  rw [(PlainJson.span_digits _ hdigits).2, (PlainJson.span_digits _ hdigits').2] at hdrop
  have htake := congrArg (List.takeWhile Char.isDigit) hrest
  rw [(PlainJson.span_digits _ hdigits).1, (PlainJson.span_digits _ hdigits').1] at htake
  -- So are the addresses, which end at the quote.
  have hend : address = w.address.toList := by
    rcases List.append_eq_append_iff.mp (List.append_cancel_left hdrop) with
      ⟨c, hc, htail⟩ | ⟨c, hc, htail⟩
    · cases c with
      | nil => rw [hc, List.append_nil]
      | cons x c =>
        have hx : '"' = x := (List.cons.inj htail).1
        refine absurd ?_ hw
        rw [hc, ← hx]
        exact List.mem_append_right _ List.mem_cons_self
    · have hlen := congrArg List.length htail
      simp only [List.length_append] at hlen
      have hnil : c = [] := List.length_eq_zero_iff.mp (by omega)
      rw [hc, hnil, List.append_nil]
  exact hne (by rw [hprint, hl, htake, hend])

/-- Alice pays three of her five satoshis and is killed when they have been sent.  In her next
life she is killed while she saves the next payment, and then at her start. -/
def aliceLives : List Life :=
  [.running (.v4 0 40000) (bothTasks ++ (schedule.take 17).map .step) 0
      [(.v4 0x0A000001 12345, .payment ⟨"alice", "bob", 3, 7⟩)],
    .running (.v4 0 40001) (bothTasks ++ (schedule.take 6).map .step) 20 [],
    .starting (.written 20)]

/-- The file of alice before her first life. -/
def aliceFile : WalletFile := saveWallet plainJson { balance := 5, address := "1Alice" }

theorem aliceLives_run :
    (lives samplePlatform alice).Always (fun _ _ => True) (firstRemains aliceFile) aliceLives := by
  refine ⟨⟨?_, by decide +kernel⟩, trivial, ⟨?_, List.nil_sublist _⟩, trivial, trivial, trivial,
    trivial⟩
  · refine EventSystem.always_append.mpr ⟨?_, by decide +kernel⟩
    exact ⟨⟨rfl, Or.inl ⟨0, 7, "bob 3", rfl⟩⟩, trivial,
      ⟨rfl, rfl, 0, .payment fourForAlice, rfl⟩, trivial, trivial⟩
  · refine EventSystem.always_append.mpr ⟨?_, by decide +kernel⟩
    exact ⟨⟨rfl, Or.inl ⟨0, 7, "bob 3", rfl⟩⟩, trivial,
      ⟨rfl, rfl, 0, .payment fourForAlice, rfl⟩, trivial, trivial⟩

theorem aliceLives_account :
    let w := foundWallet samplePlatform alice aliceFile
    let r := (lives samplePlatform alice).run (firstRemains aliceFile) aliceLives
    ∃ es, (account samplePlatform).Always (fun _ _ => True) w es ∧
      (account samplePlatform).run w es = foundWallet samplePlatform alice r.file ∧
      es.count .lose = r.torn ∧
      List.Sublist ((commitsOf es).map Commit.op) r.log ∧
      r.log.length ≤ (commitsOf es).length + aliceLives.length ∧
      (∀ c ∈ commitsOf es, ∃ l ∈ aliceLives, l.Asks samplePlatform alice c) ∧
      (∀ t, List.Sublist (announced t r.sent)
        (announced t (announcements alice (commitsOf es)))) ∧
      ((commitsOf es).map Commit.spent).sum +
          (foundWallet samplePlatform alice r.file).balance.toNat ≤
        w.balance.toNat + ((commitsOf es).map Commit.gained).sum := by
  have haddress : '"' ∉ alice.myBtc.toList := by decide +kernel
  exact lives_are_an_account samplePlatform alice aliceFile (by decide +kernel)
    (fun _ => rejectsPrefixes_of_address haddress) aliceLives aliceLives_run

end Zeta
