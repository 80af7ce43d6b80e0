import Zeta.ClassicFlood
import Zeta.HopFlood
import Zeta.ClientRun

/-!
# A text floods the graph of the relays

The relays flood a verified text as `HopFlood` describes it, along the graph whose edges go
from a relay to the addresses in its map: relays, which send it on, and clients, which do
not.  Every run of the relays, amid other traffic, follows a run of the abstract flood, and
every run of the abstract flood is followed by one of the relays (`Tracks`).
-/

namespace Zeta

/-- The text with this many hops left. -/
def Classic.withHops (m : Classic) (hops : ℕ) : Classic := { m with ttl := UInt8.ofNat hops }

namespace Federation

variable {κ : Type} (F : Federation κ) (relays : κ → RelayState)

/-- Where the node at an address sends a text on to. -/
def successors (a : SocketAddr) : List SocketAddr :=
  match F.relayAt a with
  | some r => (relays r).peers.keys
  | none => []

/-- There is a relay at `a`, and it has a peer at `b`. -/
def Links (a b : SocketAddr) : Prop := b ∈ F.successors relays a

/-- The graph along which a text spreads that is sent from `src`. -/
def floodGraph (src : SocketAddr) (hsrc : F.relayAt src = none) (entries : List SocketAddr) :
    FloodGraph SocketAddr where
  Forwards a := F.relayAt a ≠ none
  out := F.successors relays
  out_eq_nil a ha := by
    rw [successors, not_not.mp ha]
  origin := src
  origin_silent h := h hsrc
  entries := entries
  hops := 16

/-- The copy of the text `m` that goes this way with this many hops. -/
def copyOf (m : Classic) (c : FloodCopy SocketAddr) : Datagram :=
  ⟨c.src, c.dst, .classic (m.withHops c.hops)⟩

/-- The text `m` is on its way from `src` to the entries. -/
def textStart (src : SocketAddr) (m : Classic) (entries : List SocketAddr) : FedState κ where
  relays := relays
  inFlight := ↑(packets src (sendToRelays (.classic m) entries))

/-- Other traffic neither brings `id` into the cache of a relay nor takes it out. -/
def Calm (id : UInt64) (s : FedState κ) : Event κ → Prop
  | .deliver _ => True
  | .churn r seen => id ∈ seen.set ↔ id ∈ (s.relays r).seen.set

/-- The message that the event brings to an address. -/
def arrival (a : SocketAddr) : Event κ → Option Message
  | .deliver d => if d.dst = a then some d.msg else none
  | .churn _ _ => none

/-- What has been delivered to an address. -/
def inbox (a : SocketAddr) (es : List (Event κ)) : List Message := es.filterMap (arrival a)

/-- `1` if the node has sent the message on. -/
def passes (A : FloodState SocketAddr) (a : SocketAddr) : ℕ :=
  match A.heard a with
  | some (_ + 1) => 1
  | _ => 0

variable {F relays} {P : Platform} {src : SocketAddr} {hsrc : F.relayAt src = none}
  {entries : List SocketAddr} {m : Classic} {A : FloodState SocketAddr} {s : FedState κ}
  {c : FloodCopy SocketAddr} {a : SocketAddr} {r : κ} {es : List (Event κ)}

theorem successors_of_relayAt (h : F.relayAt a = some r) :
    F.successors relays a = (relays r).peers.keys := by
  rw [successors, h]

theorem passes_of_heard {h : ℕ} (hh : A.heard a = some (h + 1)) : passes A a = 1 := by
  rw [passes, hh]

theorem passes_eq_one_iff : passes A a = 1 ↔ FloodGraph.Passed A a := by
  constructor
  · intro h
    unfold passes at h
    split at h
    · exact ⟨_, ‹_›⟩
    · cases h
  · rintro ⟨h, hh⟩
    exact passes_of_heard hh

theorem ttl_pos_iff {h : ℕ} (hle : h ≤ 16) : UInt8.ofNat h > 0 ↔ 0 < h := by
  rw [gt_iff_lt, UInt8.lt_iff_toNat_lt, UInt8.toNat_ofNat', Nat.mod_eq_of_lt (by omega)]
  rfl

theorem forwarded_withHops (m : Classic) (h : ℕ) :
    (m.withHops (h + 1)).forwarded = m.withHops h := by
  have hpred : UInt8.ofNat (h + 1) - 1 = UInt8.ofNat h := by
    rw [UInt8.ofNat_add]
    exact UInt8.add_sub_cancel _ _
  rw [Classic.forwarded, Classic.withHops, hpred, Classic.withHops]

/-- What a relay sends on is what the graph says. -/
theorem packets_forwarded {h : ℕ} (hr : F.relayAt c.dst = some r)
    (hpeers : (s.relays r).peers = (relays r).peers) (hh : c.hops = h + 1) :
    packets (F.addr r) (broadcast (s.relays r).peers c.src
        (.classic (m.withHops c.hops).forwarded)) =
      ((F.floodGraph relays src hsrc entries).forwarded c).map (copyOf m) := by
  have haddr : F.addr r = c.dst := (F.relayAt_eq_some_iff _ _).mp hr
  have hout : (F.floodGraph relays src hsrc entries).out c.dst = (s.relays r).peers.keys := by
    rw [hpeers]
    exact successors_of_relayAt hr
  simp only [FloodGraph.forwarded, hh, hout, haddr, forwarded_withHops, packets, broadcast,
    broadcastTo, List.map_map]
  rfl

/-! ## One delivery -/

/-- The state of the relays and of the network shows the state of the flood. -/
structure Mirrors (F : Federation κ) (relays : κ → RelayState) (m : Classic)
    (A : FloodState SocketAddr) (s : FedState κ) : Prop where
  inFlight : s.inFlight = A.inFlight.map (copyOf m)
  hops : ∀ c ∈ A.inFlight, c.hops ≤ 16
  seen : ∀ r, m.msgId ∈ (s.relays r).seen.set ↔ A.heard (F.addr r) ≠ none
  peers : ∀ r, (s.relays r).peers = (relays r).peers

/-- A relay drops a copy that is not the first. -/
theorem handleMessage_heard {k : ℕ} (h : Mirrors F relays m A s) (hk : A.heard c.dst = some k)
    (hr : F.relayAt c.dst = some r) :
    handleMessage P (copyOf m c).msg c.src (s.relays r) = ⟨.duplicate, s.relays r, []⟩ := by
  have hseen : m.msgId ∈ (s.relays r).seen.set := by
    rw [h.seen r, (F.relayAt_eq_some_iff _ _).mp hr, hk]
    exact Option.some_ne_none k
  exact relayClassic_duplicate hseen

theorem not_mem_seen_of_unheard (h : Mirrors F relays m A s) (hnone : A.heard c.dst = none)
    (hr : F.relayAt c.dst = some r) : m.msgId ∉ (s.relays r).seen.set := by
  rw [h.seen r, (F.relayAt_eq_some_iff _ _).mp hr, not_not]
  exact hnone

/-- A relay does not send on a copy without hops. -/
theorem handleMessage_expired (h : Mirrors F relays m A s)
    (hv : verify P.ed m.publicKey m.srcId m.txt m.time m.msgId m.signature = true)
    (hnone : A.heard c.dst = none) (hr : F.relayAt c.dst = some r) (hzero : c.hops = 0) :
    (handleMessage P (copyOf m c).msg c.src (s.relays r)).exit = .expired ∧
      (handleMessage P (copyOf m c).msg c.src (s.relays r)).sends = [] := by
  have hexpired : ¬ (m.withHops c.hops).ttl > 0 := by
    show ¬ UInt8.ofNat c.hops > 0
    rw [hzero]
    decide
  have hnew := not_mem_seen_of_unheard h hnone hr
  rw [copyOf, handleMessage, relayClassic_expired (m := m.withHops c.hops) hnew hv hexpired]
  exact ⟨rfl, rfl⟩

/-- A relay sends on the first copy if it has hops left. -/
theorem handleMessage_broadcast (h : Mirrors F relays m A s)
    (hv : verify P.ed m.publicKey m.srcId m.txt m.time m.msgId m.signature = true)
    (hle : c.hops ≤ 16) (hnone : A.heard c.dst = none) (hr : F.relayAt c.dst = some r)
    (hpos : 0 < c.hops) :
    (handleMessage P (copyOf m c).msg c.src (s.relays r)).exit = .broadcast ∧
      (handleMessage P (copyOf m c).msg c.src (s.relays r)).sends =
        broadcast (s.relays r).peers c.src (.classic (m.withHops c.hops).forwarded) := by
  have httl : (m.withHops c.hops).ttl > 0 := (ttl_pos_iff hle).mpr hpos
  have hnew := not_mem_seen_of_unheard h hnone hr
  rw [copyOf, handleMessage, relayClassic_broadcast (m := m.withHops c.hops) hnew hv httl]
  exact ⟨rfl, rfl⟩

/-- Nothing is sent on for a copy that is not the first. -/
theorem emitted_heard {k : ℕ} (h : Mirrors F relays m A s) (hk : A.heard c.dst = some k) :
    F.emitted P s.relays (copyOf m c) = [] := by
  cases hr : F.relayAt c.dst with
  | none => exact emitted_of_none hr
  | some r =>
    have hdrop := handleMessage_heard (P := P) h hk hr
    rw [emitted_of_eq (d := copyOf m c) hr]
    show packets (F.addr r) (handleMessage P (copyOf m c).msg c.src (s.relays r)).sends = []
    rw [hdrop]
    rfl

variable (hsrc entries) in
/-- For the first copy is sent on what the graph says. -/
theorem emitted_unheard (h : Mirrors F relays m A s)
    (hv : verify P.ed m.publicKey m.srcId m.txt m.time m.msgId m.signature = true)
    (hle : c.hops ≤ 16) (hnone : A.heard c.dst = none) :
    F.emitted P s.relays (copyOf m c) =
      ((F.floodGraph relays src hsrc entries).forwarded c).map (copyOf m) := by
  cases hr : F.relayAt c.dst with
  | none =>
    have hout : (F.floodGraph relays src hsrc entries).out c.dst = [] :=
      (F.floodGraph relays src hsrc entries).out_eq_nil _ (fun hf => hf hr)
    rw [emitted_of_none (d := copyOf m c) hr, FloodGraph.forwarded, hout]
    cases c.hops <;> rfl
  | some r =>
    rw [emitted_of_eq (d := copyOf m c) hr]
    show packets (F.addr r) (handleMessage P (copyOf m c).msg c.src (s.relays r)).sends = _
    cases hh : c.hops with
    | zero =>
      rw [(handleMessage_expired h hv hnone hr hh).2, FloodGraph.forwarded, hh]
      rfl
    | succ k =>
      rw [(handleMessage_broadcast h hv hle hnone hr (by omega)).2]
      exact packets_forwarded hr (h.peers r) hh

variable [DecidableEq κ]

/-- **A delivery of a copy is a step of the flood.** -/
theorem mirrors_deliver (h : Mirrors F relays m A s)
    (hv : verify P.ed m.publicKey m.srcId m.txt m.time m.msgId m.signature = true)
    (hc : c ∈ A.inFlight) :
    Mirrors F relays m ((F.floodGraph relays src hsrc entries).deliver A c)
      (F.deliver P s (copyOf m c)) where
  inFlight := by
    have herase : s.inFlight.erase (copyOf m c) = (A.inFlight.erase c).map (copyOf m) := by
      rw [h.inFlight, Multiset.map_erase_of_mem _ _ hc]
    cases hh : A.heard c.dst with
    | some k =>
      rw [FloodGraph.deliver_heard hh, deliver, herase, emitted_heard h hh]
      exact add_zero _
    | none =>
      rw [FloodGraph.deliver_unheard hh, deliver, herase, Multiset.map_add,
        emitted_unheard hsrc entries h hv (h.hops c hc) hh, Multiset.map_coe]
  hops c' hc' := by
    rcases FloodGraph.inFlight_of_deliver hc' with hold | ⟨-, hnew⟩
    · exact h.hops c' hold
    · obtain ⟨k, hk, -, -, -, rfl⟩ := FloodGraph.mem_forwarded.mp hnew
      have hle := h.hops c hc
      omega
  seen r := by
    by_cases hr : F.relayAt c.dst = some r
    · have haddr : F.addr r = c.dst := (F.relayAt_eq_some_iff _ _).mp hr
      obtain ⟨k, hk⟩ := FloodGraph.heard_dst (G := F.floodGraph relays src hsrc entries)
        (s := A) (c := c)
      have hafter : (F.deliver P s (copyOf m c)).relays r =
          (handleMessage P (copyOf m c).msg c.src (s.relays r)).state := relaysAfter_of_eq hr
      rw [haddr, hk, hafter, copyOf, handleMessage, relayClassic_seen]
      exact iff_of_true (SeenIds.mem_isNew_self _ m.msgId) (Option.some_ne_none k)
    · have haddr : F.addr r ≠ c.dst := fun he => hr ((F.relayAt_eq_some_iff _ _).mpr he)
      have hafter : (F.deliver P s (copyOf m c)).relays r = s.relays r := relaysAfter_of_ne hr
      rw [hafter, FloodGraph.heard_deliver_of_ne haddr]
      exact h.seen r
  peers r := (relaysAfter_classic_peers rfl r).trans (h.peers r)

/-- A relay broadcasts when the node it is in the graph passes the message on. -/
theorem broadcastsBy_copy (h : Mirrors F relays m A s)
    (hv : verify P.ed m.publicKey m.srcId m.txt m.time m.msgId m.signature = true)
    (hc : c ∈ A.inFlight) (r : κ) :
    passes A (F.addr r) + F.broadcastsBy P r s (.deliver (copyOf m c)) =
      passes ((F.floodGraph relays src hsrc entries).deliver A c) (F.addr r) := by
  have hcount : F.broadcastsBy P r s (.deliver (copyOf m c)) =
      if F.relayAt c.dst = some r ∧
        (handleMessage P (copyOf m c).msg c.src (s.relays r)).exit = .broadcast then 1 else 0 := rfl
  rw [hcount]
  by_cases hr : F.relayAt c.dst = some r
  · have haddr : F.addr r = c.dst := (F.relayAt_eq_some_iff _ _).mp hr
    rw [haddr]
    cases hh : A.heard c.dst with
    | some k =>
      rw [handleMessage_heard h hh hr, FloodGraph.deliver_heard hh,
        if_neg (fun hb => RelayExit.noConfusion hb.2), Nat.add_zero]
      rfl
    | none =>
      have hafter : ((F.floodGraph relays src hsrc entries).deliver A c).heard c.dst =
          some c.hops := by
        rw [FloodGraph.deliver_unheard_heard hh, Function.update_self]
      cases hk : c.hops with
      | zero =>
        rw [(handleMessage_expired h hv hh hr hk).1, if_neg (fun hb => RelayExit.noConfusion hb.2),
          passes, hh, passes, hafter, hk]
      | succ k =>
        have hexit := (handleMessage_broadcast h hv (h.hops c hc) hh hr (by omega)).1
        rw [if_pos ⟨hr, hexit⟩, passes, hh, passes, hafter, hk]
  · have haddr : F.addr r ≠ c.dst := fun he => hr ((F.relayAt_eq_some_iff _ _).mpr he)
    rw [if_neg (fun hb => hr hb.1), Nat.add_zero, passes, passes,
      FloodGraph.heard_deliver_of_ne haddr]

/-! ## Runs -/

/-- After the run `es` of the relays the flood is in the state `A`: it has the same copies on
their way, and the same nodes have heard the message and sent it on. -/
structure Tracks (P : Platform) (F : Federation κ) (relays : κ → RelayState) (m : Classic)
    (start : FedState κ) (A : FloodState SocketAddr) (es : List (Event κ)) : Prop where
  mirrors : Mirrors F relays m A ((F.churned P).run start es)
  broadcasts : ∀ r, (F.churned P).sumAlong (F.broadcastsBy P r) start es = passes A (F.addr r)
  heard : ∀ a, A.heard a = none ↔ inbox a es = []
  inbox : ∀ a, ∀ msg ∈ inbox a es, ∃ h, msg = .classic (m.withHops h)

omit [DecidableEq κ] in
theorem inbox_concat (a : SocketAddr) (es : List (Event κ)) (e : Event κ) :
    inbox a (es ++ [e]) = inbox a es ++ (arrival a e).toList := by
  rw [inbox, List.filterMap_append, inbox]
  cases h : arrival a e with
  | none => simp [h]
  | some msg => simp [h]

theorem tracks_deliver {start : FedState κ} (h : Tracks P F relays m start A es)
    (hv : verify P.ed m.publicKey m.srcId m.txt m.time m.msgId m.signature = true)
    (hc : c ∈ A.inFlight) :
    Tracks P F relays m start ((F.floodGraph relays src hsrc entries).deliver A c)
      (es ++ [.deliver (copyOf m c)]) where
  mirrors := by
    rw [EventSystem.run_snoc]
    exact mirrors_deliver h.mirrors hv hc
  broadcasts r := by
    rw [EventSystem.sumAlong_append, EventSystem.sumAlong_cons, EventSystem.sumAlong_nil,
      Nat.add_zero, h.broadcasts r]
    exact broadcastsBy_copy h.mirrors hv hc r
  heard a := by
    rw [inbox_concat]
    by_cases ha : a = c.dst
    · subst ha
      obtain ⟨k, hk⟩ := FloodGraph.heard_dst (G := F.floodGraph relays src hsrc entries)
        (s := A) (c := c)
      rw [hk]
      simp [arrival, copyOf]
    · rw [FloodGraph.heard_deliver_of_ne ha, h.heard a]
      simp [arrival, copyOf, Ne.symm ha]
  inbox a msg hmsg := by
    rw [inbox_concat] at hmsg
    rcases List.mem_append.mp hmsg with hold | hnew
    · exact h.inbox a msg hold
    · have harrival : (if c.dst = a then some (copyOf m c).msg else none) = some msg :=
        Option.mem_toList.mp hnew
      by_cases ha : c.dst = a
      · rw [if_pos ha] at harrival
        exact ⟨c.hops, (Option.some.inj harrival).symm⟩
      · rw [if_neg ha] at harrival
        cases harrival

/-- Other traffic does not touch the flood. -/
theorem tracks_churn {start : FedState κ} {seen : SeenIds} (h : Tracks P F relays m start A es)
    (hcalm : m.msgId ∈ seen.set ↔
      m.msgId ∈ (((F.churned P).run start es).relays r).seen.set) :
    Tracks P F relays m start A (es ++ [.churn r seen]) where
  mirrors := by
    rw [EventSystem.run_snoc]
    refine ⟨h.mirrors.inFlight, h.mirrors.hops, fun r' => ?_, fun r' => ?_⟩
    · by_cases hr : r' = r
      · subst hr
        simp only [churned, Function.update_self]
        exact hcalm.trans (h.mirrors.seen r')
      · simp only [churned, Function.update_of_ne hr]
        exact h.mirrors.seen r'
    · by_cases hr : r' = r
      · subst hr
        simp only [churned, Function.update_self]
        exact h.mirrors.peers r'
      · simp only [churned, Function.update_of_ne hr]
        exact h.mirrors.peers r'
  broadcasts r' := by
    rw [EventSystem.sumAlong_append, h.broadcasts r']
    rfl
  heard a := by
    rw [inbox_concat]
    simpa [arrival] using h.heard a
  inbox a msg hmsg := by
    rw [inbox_concat] at hmsg
    exact h.inbox a msg (by simpa [arrival] using hmsg)

theorem tracks_start (httl : m.ttl = 16) (hnew : ∀ r, m.msgId ∉ (relays r).seen.set) :
    Tracks P F relays m (textStart relays src m entries)
      (F.floodGraph relays src hsrc entries).start [] where
  mirrors := by
    refine ⟨?_, ?_, fun r => ?_, fun _ => rfl⟩
    · have hcopy : m.withHops 16 = m := by
        rw [Classic.withHops, show UInt8.ofNat 16 = m.ttl from httl.symm]
      simp [textStart, FloodGraph.start, floodGraph, packets, sendToRelays, copyOf, hcopy,
        Function.comp_def]
    · intro c hc
      obtain ⟨a, -, rfl⟩ := List.mem_map.mp (Multiset.mem_coe.mp hc)
      exact Nat.le_refl 16
    · exact iff_of_false (hnew r) (fun h => h rfl)
  broadcasts _ := rfl
  heard _ := iff_of_true rfl rfl
  inbox _ _ h := absurd h List.not_mem_nil

/-- **Every run of the relays follows a flood**, in an order that the rule for the run
implies. -/
theorem exists_flood {ok : FedState κ → Event κ → Prop}
    (okA : FloodState SocketAddr → FloodCopy SocketAddr → Prop) (hsrc : F.relayAt src = none)
    (hv : verify P.ed m.publicKey m.srcId m.txt m.time m.msgId m.signature = true)
    (httl : m.ttl = 16) (hnew : ∀ r, m.msgId ∉ (relays r).seen.set)
    (hcalm : ∀ s e, ok s e → Calm m.msgId s e)
    (hord : ∀ A s c, Mirrors F relays m A s → c ∈ A.inFlight → ok s (.deliver (copyOf m c)) →
      okA A c)
    (hes : (F.churned P).Always ok (textStart relays src m entries) es) :
    ∃ cs, (F.floodGraph relays src hsrc entries).system.Always okA
        (F.floodGraph relays src hsrc entries).start cs ∧
      Tracks P F relays m (textStart relays src m entries)
        ((F.floodGraph relays src hsrc entries).system.run
          (F.floodGraph relays src hsrc entries).start cs) es := by
  induction es using List.reverseRecOn with
  | nil => exact ⟨[], trivial, tracks_start httl hnew⟩
  | append_singleton es e ih =>
    obtain ⟨hprev, hen, hok⟩ := EventSystem.always_snoc.mp hes
    obtain ⟨cs, hcs, htracks⟩ := ih hprev
    cases e with
    | deliver d =>
      have hd : d ∈ ((F.churned P).run (textStart relays src m entries) es).inFlight := hen
      rw [htracks.mirrors.inFlight] at hd
      obtain ⟨c, hc, rfl⟩ := Multiset.mem_map.mp hd
      refine ⟨cs ++ [c], EventSystem.always_snoc.mpr
        ⟨hcs, hc, hord _ _ _ htracks.mirrors hc hok⟩, ?_⟩
      rw [EventSystem.run_snoc]
      exact tracks_deliver htracks hv hc
    | churn r seen => exact ⟨cs, hcs, tracks_churn htracks (hcalm _ _ hok)⟩

/-- **Every flood is followed by a run of the relays**, in an order that the rule for the
flood implies. -/
theorem exists_run_of_flood (ok : FedState κ → Event κ → Prop)
    {okA : FloodState SocketAddr → FloodCopy SocketAddr → Prop}
    (hv : verify P.ed m.publicKey m.srcId m.txt m.time m.msgId m.signature = true)
    (httl : m.ttl = 16) (hnew : ∀ r, m.msgId ∉ (relays r).seen.set)
    (hord : ∀ A s c, Mirrors F relays m A s → c ∈ A.inFlight → okA A c →
      ok s (.deliver (copyOf m c)))
    {cs : List (FloodCopy SocketAddr)}
    (hcs : (F.floodGraph relays src hsrc entries).system.Always okA
      (F.floodGraph relays src hsrc entries).start cs) :
    ∃ es, (F.churned P).Always ok (textStart relays src m entries) es ∧
      Tracks P F relays m (textStart relays src m entries)
        ((F.floodGraph relays src hsrc entries).system.run
          (F.floodGraph relays src hsrc entries).start cs) es := by
  induction cs using List.reverseRecOn with
  | nil => exact ⟨[], trivial, tracks_start httl hnew⟩
  | append_singleton cs c ih =>
    obtain ⟨hprev, hc, hokA⟩ := EventSystem.always_snoc.mp hcs
    obtain ⟨es, hes, htracks⟩ := ih hprev
    have hen : (F.churned P).Enabled ((F.churned P).run (textStart relays src m entries) es)
        (.deliver (copyOf m c)) := by
      show copyOf m c ∈ ((F.churned P).run (textStart relays src m entries) es).inFlight
      rw [htracks.mirrors.inFlight]
      exact Multiset.mem_map_of_mem _ hc
    have hok := hord _ _ c htracks.mirrors hc hokA
    refine ⟨es ++ [.deliver (copyOf m c)], EventSystem.always_snoc.mpr ⟨hes, hen, hok⟩, ?_⟩
    rw [EventSystem.run_snoc]
    exact tracks_deliver htracks hv hc

end Federation

/-! ## What a client shows -/

section Client
variable (P : Platform) (ctx : ClientContext P.ed) (id : UInt64)

/-- The text with this id that the client receives in the event. -/
def textIn : TaskEvent → Option Message
  | .recv _ (.classic m) => if m.msgId = id then some (.classic m) else none
  | _ => none

/-- Counts how often the client shows the text. -/
def displays (s : ClientState) : TaskEvent → ℕ
  | .recv now (.classic m) =>
    if m.msgId = id ∧ (recvLoop P ctx now (.classic m) s).exit = .displayed then 1 else 0
  | _ => 0

/-- The receive task goes on, and only the text itself brings its id into the cache, from
which nothing takes it out. -/
def Undistracted (s : ClientState) (e : TaskEvent) : Prop :=
  (taskStep P ctx s e).receiving = true ∧
    (textIn id e = none → (id ∈ (taskStep P ctx s e).seen.set ↔ id ∈ s.seen.set))

end Client

variable {P : Platform} {ctx : ClientContext P.ed} {id : UInt64} {s : ClientState}
  {e : TaskEvent} {ts : List TaskEvent}

theorem textIn_eq_some_iff {msg : Message} :
    textIn id e = some msg ↔ ∃ now m, e = .recv now (.classic m) ∧ m.msgId = id ∧
      msg = .classic m := by
  cases e with
  | recv now msg' =>
    cases msg' with
    | classic m => simp [textIn, eq_comm]
    | register _ | connect _ | askForAddr _ | peerInfo _ _ | payment _ | paymentAck _ =>
      simp [textIn]
  | pay _ _ _ | say _ _ _ => simp [textIn]

theorem displays_of_textIn_eq_none (h : textIn id e = none) : displays P ctx id s e = 0 := by
  cases e with
  | recv now msg =>
    cases msg with
    | classic m =>
      by_cases hid : m.msgId = id
      · simp [textIn, hid] at h
      · simp [displays, hid]
    | register _ | connect _ | askForAddr _ | peerInfo _ _ | payment _ | paymentAck _ => rfl
  | pay _ _ _ | say _ _ _ => rfl

/-- **A text that is received at least once is shown exactly once**, if the client does not
know its id and does not forget it. -/
theorem sum_displays (hrun : s.receiving = true)
    (hts : (running P ctx).Always (Undistracted P ctx id) s ts)
    (hvalid : ∀ m, .classic m ∈ ts.filterMap (textIn id) →
      verify P.ed m.publicKey m.srcId m.txt m.time m.msgId m.signature = true) :
    (running P ctx).sumAlong (displays P ctx id) s ts =
      if id ∈ s.seen.set ∨ ts.filterMap (textIn id) = [] then 0 else 1 := by
  induction ts generalizing s with
  | nil => simp
  | cons e ts ih =>
    obtain ⟨-, ⟨hgo, hquiet⟩, hrest⟩ := hts
    rw [EventSystem.sumAlong_cons, running_next]
    rw [running_next] at hrest
    cases htext : textIn id e with
    | none =>
      rw [List.filterMap_cons_none htext] at hvalid ⊢
      rw [displays_of_textIn_eq_none htext, Nat.zero_add, ih hgo hrest hvalid]
      simp only [hquiet htext]
    | some msg =>
      rw [List.filterMap_cons_some htext] at hvalid ⊢
      obtain ⟨now, m, rfl, rfl, rfl⟩ := textIn_eq_some_iff.mp htext
      have hafter : m.msgId ∈ (taskStep P ctx s (.recv now (.classic m))).seen.set := by
        rw [taskStep, recvLoop_receiving hrun, handleMsg_seen]
        exact SeenIds.mem_isNew_self _ _
      rw [ih hgo hrest (fun m' hm' => hvalid m' (List.mem_cons_of_mem _ hm')),
        if_pos (Or.inl hafter), Nat.add_zero, displays, recvLoop_receiving hrun, handleMsg]
      have hv := hvalid m List.mem_cons_self
      by_cases hseen : m.msgId ∈ s.seen.set
      · rw [handleClassic_duplicate hseen]
        simp [hseen]
      · rw [handleClassic_displayed hseen hv]
        simp [hseen]

end Zeta
