import DnsBlast.BlastNetwork
import DnsBlast.MattblastDrain

/-! mattblast.c at its end of the network. Its drain loop has no time limit, so what it
counts decides whether it ends. -/
namespace MattblastNetwork

open WrappingIntegers ByteStores LabelledRuns DatagramChannels BlastHeader BlastQuery BlastSyscalls
  MattblastMain
open MattblastDrain (oneQuery)
open BlastReceive (StatusPos)
open BlastNetwork (Bytes token map_token map_query clientAt AnswersAt silent_of_local)

def handing : State → Option Bytes
  | (w, .wait (.sendto packetSize)) => some (readBytes w.context.question 0 packetSize)
  | _ => none

def throttleReceives : ThrottlePos → Bool
  | .first .receive _ _ => true
  | .queue .receive _ _ => true
  | _ => false

def mainReceives : MainPos → Bool
  | .throttle p => throttleReceives p
  | .drain p => throttleReceives p
  | _ => false

def socket : Socket State := ⟨handing, fun s => s.2.holds mainReceives⟩

def client (P : Platform) (ρ : ℕ → ℕ) : Client State Event Bytes Bytes :=
  clientAt socket (next P ρ)

def Answers : State → Event → Prop := AnswersAt socket

def inSendLoop : MainPos → Bool
  | .send => true
  | .sendto _ => true
  | .throttle _ => true
  | _ => false

/-- The packets still to be sent, the one in hand included. -/
def leftToSend (sendCount : ℕ) : MainPos → ℕ
  | .send => sendCount
  | .sendto _ => sendCount
  | .throttle _ => sendCount - 1
  | _ => 0

structure Progress (n : ℕ) (w : World) (p : MainPos) : Prop where
  sent : w.context.sentPackets = w.wire.length
  count : w.wire.length + leftToSend w.sendCount p = n
  positive : inSendLoop p = true → 0 < w.sendCount
  small : w.sendCount < 2 ^ 64

def Progressing (n : ℕ) : State → Prop
  | (w, .wait p) => Progress n w p
  | (w, .ret _) => w.context.sentPackets = w.wire.length ∧ w.wire.length = n
  | (w, .stop _) => w.context.sentPackets = w.wire.length ∧ w.wire.length ≤ n

section Steps
variable {P : Platform} {ρ : ℕ → ℕ} {n : ℕ} {w v : World} {p q : MainPos} {e : Event}
  {c : Outcome MainPos ℕ}

theorem Progress.quiet (h : Progress n w p) (hq : Quiet w v) (hl : inSendLoop q = inSendLoop p)
    (hc : leftToSend w.sendCount q = leftToSend w.sendCount p) : Progress n v q := by
  have hpace := hq.pace
  simp only [World.pace, Pace.mk.injEq] at hpace
  obtain ⟨-, -, hsent, -, -, hcount⟩ := hpace
  refine ⟨?_, ?_, ?_, ?_⟩
  · rw [hsent, hq.wire, h.sent]
  · rw [hcount, hc, hq.wire, h.count]
  · rw [hcount, hl]
    exact h.positive
  · exact hcount ▸ h.small

theorem Progress.stopped (h : Progress n w p) :
    w.context.sentPackets = w.wire.length ∧ w.wire.length ≤ n :=
  ⟨h.sent, h.count ▸ Nat.le_add_right _ _⟩

theorem progress_endIteration {p : ThrottlePos} (h : Progress n w (.throttle p)) :
    Progressing n (endIteration w) := by
  have hpos := h.positive rfl
  have hcount : w.wire.length + (w.sendCount - 1) = n := h.count
  have hw : wrapSub 64 w.sendCount 1 = w.sendCount - 1 := wrapSub_of_le hpos h.small
  have hsmall : w.sendCount - 1 < 2 ^ 64 := lt_of_le_of_lt (Nat.sub_le _ _) h.small
  simp only [endIteration, hw]
  by_cases hz : w.sendCount - 1 > 0
  · rw [if_pos hz]
    exact ⟨h.sent, hcount, fun _ => hz, hsmall⟩
  · rw [if_neg hz]
    have hzero : w.sendCount - 1 = 0 := by omega
    exact ⟨h.sent, hzero ▸ hcount, fun hloop => absurd hloop (by decide), hsmall⟩

theorem progress_drainLoop {p : ThrottlePos} (h : Progress n w (.drain p)) :
    Progressing n (w, drainLoop w) := by
  rcases drainLoop_cases w with hd | hd
  · rw [hd]
    exact h.quiet (.refl w) rfl rfl
  · rw [hd]
    exact h.quiet (.refl w) rfl rfl

theorem progress_main (hn : n < 2 ^ 64) (hp : Progress n w p) (h : Step P ρ w p e v c) :
    Progressing n (v, c) := by
  cases h with
  | @send time r _ hr hb =>
    subst hb
    simp only [beginBlast]
    split_ifs
    · exact ⟨hp.sent, hp.count, hp.positive, hp.small⟩
    · exact ⟨hp.sent, hp.count, hp.positive, hp.small⟩
  | accept time packetSize =>
    have hpos := hp.positive rfl
    have hcount : w.wire.length + w.sendCount = n := hp.count
    refine ⟨?_, ?_, hp.positive, hp.small⟩
    · simp only [endBlast, hp.sent, List.length_append, List.length_singleton]
      exact Nat.mod_eq_of_lt (by omega)
    · simp only [endBlast, leftToSend, List.length_append, List.length_singleton]
      omega
  | retry time packetSize errno => exact hp
  | fail time packetSize => exact hp.stopped
  | throttle ht => exact hp.quiet (throttledReceive_quiet ht) rfl rfl
  | @iterate q _ _ _ ht =>
    have hq : Progress n _ (.throttle q) := hp.quiet (throttledReceive_quiet ht) rfl rfl
    exact progress_endIteration hq
  | @abort q _ _ _ ht =>
    exact (hp.quiet (throttledReceive_quiet ht) rfl rfl : Progress n _ (.throttle q)).stopped
  | @sent now v hv =>
    have hq := hp.quiet (q := .drain .now) (updateStatus_quiet hv) rfl rfl
    exact progress_drainLoop (p := .now) ⟨hq.sent, hq.count, hq.positive, hq.small⟩
  | drain ht => exact hp.quiet (throttledReceive_quiet ht) rfl rfl
  | @drained q _ _ _ ht =>
    exact progress_drainLoop (p := q) (hp.quiet (throttledReceive_quiet ht) rfl rfl)
  | @drainAbort q _ _ _ ht =>
    exact (hp.quiet (throttledReceive_quiet ht) rfl rfl : Progress n _ (.drain q)).stopped
  | done hv =>
    have hq := hp.quiet (q := .finalStatus) (updateStatus_quiet hv) rfl rfl
    exact ⟨hq.sent, hq.count⟩
  | noTime _ hv => exact hp.stopped

theorem Progressing.at_time (h : Progressing n (w, c)) (time : ℕ) :
    Progressing n ({ w with time := time }, c) := by
  cases c with
  | wait p => exact ⟨h.sent, h.count, h.positive, h.small⟩
  | ret r => exact h
  | stop k => exact h

theorem execution_progressing {a : Arguments} {now : ℕ} {ok : State → Event → Prop}
    {es : List Event} {s : State} (h : Execution (next P ρ) ok (start a now) es s) :
    Progressing a.sendCount s := by
  apply h.invariant (I := Progressing a.sendCount)
  · exact ⟨rfl, Nat.zero_add _, fun _ => a.sendCount_pos, a.sendCount_lt⟩
  · rintro ⟨w, c⟩ e ⟨u, d⟩ hs - hn
    obtain ⟨p, v, hp, hstep, ht⟩ := next_cases hn
    cases hp
    cases ht
    exact (progress_main a.sendCount_lt hs hstep).at_time _

structure Receives (w v : World) (d : Option Datagram) : Prop where
  delivered : v.delivered = w.delivered ++ d.toList
  counted : w.context.receivedPackets = w.delivered.length % 2 ^ 64 →
    v.context.receivedPackets = v.delivered.length % 2 ^ 64

theorem Receives.nothing (hd : v.delivered = w.delivered)
    (hr : v.context.receivedPackets = w.context.receivedPackets) : Receives w v none :=
  ⟨hd.trans (List.append_nil _).symm, fun h => by rw [hr, hd, h]⟩

theorem receive_receives {c : Outcome Unit ℕ} (h : receive w e = some (v, c)) :
    ∃ d, Receives w v d ∧ d = match e.answer with | .received d _ => some d | _ => none := by
  unfold receive at h
  split at h
  all_goals cases h
  · refine ⟨_, ⟨rfl, ?_⟩, rfl⟩
    intro hcount
    simp [hcount, Nat.mod_add_mod]
  · exact ⟨_, .nothing rfl rfl, rfl⟩
  · exact ⟨_, .nothing rfl rfl, rfl⟩
  · exact ⟨_, .nothing rfl rfl, rfl⟩

theorem updateStatus_receives {now : ℕ} (h : updateStatus P w now = some v) :
    Receives w v none := by
  obtain ⟨-, hv⟩ := Option.ite_none_left_eq_some.mp h
  cases hv
  exact .nothing rfl rfl

theorem periodicallyUpdateStatus_receives {p : StatusPos} {c : Outcome StatusPos ℕ}
    (h : periodicallyUpdateStatus P w p e = some (v, c)) : Receives w v none := by
  unfold periodicallyUpdateStatus at h
  split at h
  · split_ifs at h <;> cases h <;> exact .nothing rfl rfl
  · split at h
    · cases h
      exact .nothing rfl rfl
    · rename_i hu
      cases h
      have hv := updateStatus_receives hu
      exact ⟨hv.delivered, hv.counted⟩
  · cases h

theorem emptyReceiveQueue_receives {p : QueuePos} {c : Outcome QueuePos Unit} {s : State}
    (hs : s.2.holds mainReceives = true ↔ p = .receive)
    (h : emptyReceiveQueue P w p e = some (v, c)) : Receives w v (socket.arrival s e) := by
  cases p with
  | receive =>
    obtain ⟨d, hr, -⟩ := call_outcome h fun _ _ => rfl
    obtain ⟨d, hv, rfl⟩ := receive_receives hr
    have hhere : socket.receiving s = true := hs.mpr rfl
    obtain ⟨time, answer⟩ := e
    cases answer with
    | received d stale =>
      simp only [Socket.arrival, hhere, if_true]
      exact hv
    | _ => exact hv
  | status p =>
    obtain ⟨d, hr, -⟩ := call_outcome h fun _ _ => rfl
    rw [Socket.arrival_of_away (k := socket) (Bool.eq_false_iff.mpr fun ht => by cases hs.mp ht)]
    exact periodicallyUpdateStatus_receives hr

theorem throttledReceive_receives {p : ThrottlePos} {c : Outcome ThrottlePos ℕ} {s : State}
    (hs : s.2.holds mainReceives = throttleReceives p)
    (h : throttledReceive P w p e = some (v, c)) : Receives w v (socket.arrival s e) := by
  cases throttledReceive_step h with
  | @first q _ _ _ now max hq =>
    refine emptyReceiveQueue_receives ?_ hq
    rw [hs]
    cases q <;> simp [throttleReceives]
  | @queue q _ _ _ now remainingTime hq =>
    refine emptyReceiveQueue_receives ?_ hq
    rw [hs]
    cases q <;> simp [throttleReceives]
  | status hq =>
    rw [Socket.arrival_of_away (k := socket) hs]
    exact periodicallyUpdateStatus_receives hq
  | _ =>
    rw [Socket.arrival_of_away (k := socket) hs]
    exact .nothing rfl rfl

/-- What a step adds to the datagrams sent and received. -/
theorem step_exchange (h : Step P ρ w p e v c) :
    v.wire = w.wire ++ (socket.emits (w, .wait p) e).toList ∧
      Receives w v (socket.arrival (w, .wait p) e) := by
  have hsame : ∀ l : List Bytes, l = l ++ (none : Option Bytes).toList :=
    fun l => (List.append_nil l).symm
  have hthrottle : ∀ {q : ThrottlePos} {u : World} {d : Outcome ThrottlePos ℕ},
      mainReceives p = throttleReceives q → socket.handing (w, .wait p) = none →
      throttledReceive P w q e = some (u, d) →
      u.wire = w.wire ++ (socket.emits (w, .wait p) e).toList ∧
        Receives w u (socket.arrival (w, .wait p) e) := by
    intro q u d hq hs ht
    have hwire : u.wire = w.wire := (throttledReceive_quiet ht).wire
    rw [Socket.emits_of_away hs]
    exact ⟨hwire.trans (hsame _), throttledReceive_receives (s := (w, .wait p)) hq ht⟩
  cases h with
  | @send time r _ hr hb =>
    subst hb
    simp only [beginBlast]
    split_ifs
    · exact ⟨hsame _, .nothing rfl rfl⟩
    · exact ⟨hsame _, .nothing rfl rfl⟩
  | accept time packetSize => exact ⟨rfl, .nothing rfl rfl⟩
  | throttle ht => exact hthrottle rfl rfl ht
  | iterate ht =>
    obtain ⟨hwire, hv⟩ := hthrottle rfl rfl ht
    exact ⟨hwire, hv.delivered, hv.counted⟩
  | abort ht => exact hthrottle rfl rfl ht
  | sent hv =>
    have hr := updateStatus_receives hv
    exact ⟨(updateStatus_quiet hv).wire.trans (hsame _), hr.delivered, hr.counted⟩
  | drain ht => exact hthrottle rfl rfl ht
  | drained ht => exact hthrottle rfl rfl ht
  | drainAbort ht => exact hthrottle rfl rfl ht
  | done hv =>
    have hr := updateStatus_receives hv
    exact ⟨(updateStatus_quiet hv).wire.trans (hsame _), hr.delivered, hr.counted⟩
  | noTime hq hv =>
    rcases hq with rfl | rfl
    · exact ⟨hsame _, .nothing rfl rfl⟩
    · exact ⟨hsame _, .nothing rfl rfl⟩
  | _ => exact ⟨hsame _, .nothing rfl rfl⟩

theorem next_exchange {s t : State} (h : next P ρ s e = some t) :
    t.1.wire = s.1.wire ++ (socket.emits s e).toList ∧ Receives s.1 t.1 (socket.arrival s e) := by
  obtain ⟨w, c⟩ := s
  obtain ⟨p, v, hp, hstep, ht⟩ := next_cases h
  cases hp
  rw [ht]
  obtain ⟨hwire, hr⟩ := step_exchange hstep
  exact ⟨hwire, hr.delivered, hr.counted⟩

end Steps

section Runs
variable {P : Platform} {ρ : ℕ → ℕ} {a : Arguments} {now : ℕ} {s t : State}

theorem execution_received {ok : State → Event → Prop} {es : List Event}
    (h : Execution (next P ρ) ok (start a now) es s) :
    s.1.context.receivedPackets = s.1.delivered.length % 2 ^ 64 :=
  h.invariant (I := fun s => s.1.context.receivedPackets = s.1.delivered.length % 2 ^ 64) rfl
    fun _ _ _ hs _ hn => (next_exchange hn).2.counted hs

/-- main returns from the condition of its drain loop. -/
def Balanced : State → Prop
  | (w, .wait .finalStatus) => w.context.sentPackets = w.context.receivedPackets
  | (w, .ret _) => w.context.sentPackets = w.context.receivedPackets
  | _ => True

theorem balanced_drainLoop (w : World) : Balanced (w, drainLoop w) := by
  by_cases h : w.context.sentPackets = w.context.receivedPackets
  · rw [drainLoop, if_neg (not_not.mpr h)]
    exact h
  · rw [drainLoop, if_pos h]
    trivial

theorem step_balanced {w v : World} {p : MainPos} {e : Event} {c : Outcome MainPos ℕ}
    (hs : Balanced (w, .wait p)) (h : Step P ρ w p e v c) : Balanced (v, c) := by
  cases h with
  | @iterate q _ u r ht =>
    simp only [endIteration]
    split_ifs
    · trivial
    · trivial
  | sent hv => exact balanced_drainLoop _
  | drained ht => exact balanced_drainLoop _
  | done hv =>
    obtain ⟨-, hv⟩ := Option.ite_none_left_eq_some.mp hv
    cases hv
    exact hs
  | _ => trivial

theorem execution_balanced {ok : State → Event → Prop} {es : List Event}
    (h : Execution (next P ρ) ok (start a now) es s) : Balanced s := by
  apply h.invariant (I := Balanced)
  · trivial
  · rintro ⟨w, c⟩ e ⟨u, d⟩ hs - hn
    obtain ⟨p, v, hp, hstep, ht⟩ := next_cases hn
    cases hp
    cases ht
    have hv := step_balanced hs hstep
    cases d with
    | wait q => cases q <;> exact hv
    | _ => exact hv

variable {serves : Bytes → Bytes → Prop} {es fs : List (Event ⊕ Transit Bytes Bytes)}
  {c d : Channel Bytes Bytes}

structure Exchanged (s : State) (c : Channel Bytes Bytes) : Prop where
  sent : s.1.wire = c.sent
  arrived : s.1.delivered.map token = c.arrived.map some

theorem network_exchanged
    (h : Execution (client P ρ).network (promise serves Answers) (start a now, .empty) es (s, c)) :
    Exchanged s c := by
  obtain ⟨hsent, harrived⟩ := network_history (fun s => s.1.wire)
    (fun s => s.1.delivered.map token) rfl rfl (fun s e t he hn => by
      obtain ⟨hwire, hreceives⟩ := next_exchange hn
      rw [hwire, hreceives.delivered, List.map_append, map_token he]
      exact ⟨rfl, rfl⟩) h
  exact ⟨hsent, harrived⟩

/-- A process that has returned has nothing under way and nothing lost. -/
theorem returned_balanced {r : ℕ} (hcopied : c.copied = 0)
    (h : Execution (client P ρ).network (promise serves Answers) (start a now, .empty) es (s, c))
    (hret : s.2 = .ret r) :
    s.1.wire.length = a.sendCount ∧ c.requests = 0 ∧ c.replies = 0 ∧ c.lost = 0 := by
  have hrun := network_client h
  have hexchanged := network_exchanged h
  have hacc := network_accounted accounted_empty h
  have hreceived := execution_received hrun
  have hlength : s.1.delivered.length = c.arrived.length := by
    simpa using congrArg List.length hexchanged.arrived
  have hwire : s.1.wire.length = c.sent.length := congrArg List.length hexchanged.sent
  obtain ⟨hequal, hsent, hcount⟩ : s.1.context.sentPackets = s.1.context.receivedPackets ∧
      s.1.context.sentPackets = s.1.wire.length ∧ s.1.wire.length = a.sendCount := by
    have hbalanced := execution_balanced hrun
    have hprogress := execution_progressing hrun
    obtain ⟨w, d⟩ := s
    cases hret
    exact ⟨hbalanced, hprogress⟩
  refine ⟨hcount, (hacc.all_arrived_iff hcopied).mp ?_⟩
  have hconserved := hacc.count
  have hsmall := a.sendCount_lt
  rw [hcopied, Multiset.card_zero] at hconserved
  rw [Nat.mod_eq_of_lt (by omega)] at hreceived
  omega

/-- Where nothing is copied, main returns only when every query of the count has been sent
and answered exactly once, in some order; once a datagram has been lost it never returns. -/
theorem returns_only_answered {ρ : RandStream P}
    (h : Execution (client P ρ.value).network (promise serves Answers) (start a now, .empty) es
      (s, c))
    (k : Execution (client P ρ.value).network (promise serves Answers) (s, c) fs (t, d))
    (hcopied : d.copied = 0) {r : ℕ} (hret : t.2 = .ret r) :
    c.lost = 0 ∧ t.1.wire.length = a.sendCount ∧
      (t.1.delivered.map Datagram.query).Perm ((List.range a.sendCount).map some) := by
  have hall := h.trans k
  have hexchanged := network_exchanged hall
  obtain ⟨hcount, hnone⟩ := returned_balanced hcopied hall hret
  have hlost : c.lost ≤ 0 := hnone.2.2 ▸ network_lost_le k
  refine ⟨Multiset.le_zero.mp hlost, hcount, ?_⟩
  rw [map_query hexchanged.arrived, ← hcount, hexchanged.sent]
  exact ((network_accounted accounted_empty hall).answered hcopied hnone).map some

variable (serves) in
/-- Events that neither send nor receive leave the channel alone. -/
theorem network_local {gs : List Event} (hr : runTrace (next P ρ) s gs = some t)
    (hlocal : gs.all isLocal = true) :
    Execution (client P ρ).network (promise serves Answers) (s, c) (gs.map .inl) (t, c) := by
  have hone : ∀ e ∈ gs, isLocal e = true := List.all_eq_true.mp hlocal
  refine network_silent hr ?_ fun e he s =>
    ⟨(silent_of_local socket s (hone e he)).1, (silent_of_local socket s (hone e he)).2.1⟩
  clear hr
  induction gs generalizing s with
  | nil => trivial
  | cons e gs ih =>
    obtain ⟨he, hgs⟩ := Bool.and_eq_true_iff.mp hlocal
    exact ⟨(silent_of_local socket s he).2.2,
      fun t _ => ih hgs fun f hf => hone f (List.mem_cons_of_mem e hf)⟩

end Runs

/-- The query of a process with one query, before sendto. -/
theorem oneQuery_asked : ∃ w size,
    runTrace (next glibc (constantStream glibc 0 (by decide)).value) (start oneQuery 0)
      [⟨0, .run⟩] = some (w, .wait (.sendto size)) ∧
    w.context.pps = 3 ∧ w.context.startupDate = 0 ∧ w.context.lastStatusUpdate = 0 ∧
    w.context.sending = true ∧ w.context.sentPackets = 0 ∧ w.context.receivedPackets = 0 ∧
    w.sendCount = 1 := ⟨_, _, rfl, rfl, rfl, rfl, rfl, rfl, rfl, rfl⟩

/-- The first poll behind it. -/
theorem first_poll {w : World} (hpps : w.context.pps = 3) (hsending : w.context.sending = true)
    (hsent : w.context.sentPackets = 1) : beginPoll 0 0 w = (w, .wait (.poll 0 0)) := by
  simp only [beginPoll, firstTimeout, hsending, hsent, hpps]
  rfl

/-- One query and its answer. -/
theorem returns_only_answered_one_query : ∃ es s c,
    Execution (client glibc (constantStream glibc 0 (by decide)).value).network
      (promise (fun _ _ => True) Answers) (start oneQuery 0, .empty) es (s, c) ∧ s.2 = .ret 0 ∧
    (s.1.delivered.map Datagram.query).Perm [some 0] := by
  let ρ := constantStream glibc 0 (by decide)
  let m := client glibc ρ.value
  let serves : Bytes → Bytes → Prop := fun _ _ => True
  let reply : Datagram := ⟨[0, 0], by decide, some 0⟩
  let received : Event := ⟨1, .received reply fun _ => 0⟩
  let fs : List Event := [⟨0, .clock⟩, ⟨1, .ready⟩]
  let gs : List Event :=
    [⟨1, .nothing .EAGAIN⟩, ⟨1, .clock⟩, ⟨1, .clock⟩, ⟨1, .clock⟩, ⟨1, .clock⟩]
  obtain ⟨w, size, hask, hpps, hstart, hstatus, hsending, hsent, hnone, hcount⟩ := oneQuery_asked
  let query := readBytes w.context.question 0 size
  let u : World := { endBlast w size with time := 0 }
  let v : World := { u with time := 1 }
  let x : World := { v with
    context := { v.context with receivedPackets := 1 }
    delivered := v.delivered ++ [reply] }
  have haccept : next glibc ρ.value (w, .wait (.sendto size)) ⟨0, .accepted⟩ =
      some (u, .wait (.throttle .now)) := rfl
  have hready : runTrace (next glibc ρ.value) (u, .wait (.throttle .now)) fs =
      some (v, .wait (.throttle (.queue .receive 0 0))) := by
    obtain ⟨hs, hn, hp, hd⟩ : u.context.sending = true ∧ u.context.sentPackets = 1 ∧
        u.context.pps = 3 ∧ u.context.startupDate = 0 := by
      simp [u, endBlast, hsending, hsent, hpps, hstart]
    have hpoll := first_poll hp hs hn
    simp [fs, runTrace, next, main, throttledReceive, call, maxPackets, hs, hn, hp, hd, hpoll]
    rfl
  have hreceive : next glibc ρ.value (v, .wait (.throttle (.queue .receive 0 0))) received =
      some (x, .wait (.throttle (.queue .receive 0 0))) := by
    simp [next, main, throttledReceive, emptyReceiveQueue, receive, call, received, x, v, u,
      endBlast, hnone]
  obtain ⟨y, hreturn⟩ : ∃ y, runTrace (next glibc ρ.value)
      (x, .wait (.throttle (.queue .receive 0 0))) gs = some (y, .ret 0) := by
    have hearly : wrapSub 64 1 0 = 1 := by decide
    have hover : lessElapsed 0 1 0 = 0 := by decide
    simp [gs, runTrace, next, main, throttledReceive, emptyReceiveQueue, receive, call, x, v, u,
      endBlast, periodicallyUpdateStatus, updateStatusPeriod, hstatus, hearly, pollAgain, hover,
      endIteration, hcount, updateStatus, hstart, drainLoop, hsent]
  have hquery : (0, query) ∈ (Channel.empty.send (some query) : Channel Bytes Bytes).requests := by
    simp [Channel.send, Channel.empty]
  have hback : (0, reply.bytes) ∈ (0, [0, 0]) ::ₘ (0 : Multiset (ℕ × Bytes)) :=
    Multiset.mem_cons_self _ _
  have hasked := network_local serves (c := .empty) hask rfl
  have hsends := hasked.trans (network_sends (m := m) (e := ⟨0, .accepted⟩) (by rintro d ⟨⟩)
    haccept rfl)
  have hserved : Execution m.network (promise serves Answers)
      ((u, .wait (.throttle .now)), Channel.empty.send (some query)) _ _ :=
    network_responds (b := [0, 0]) trivial hquery
  have hwoken := hserved.trans (network_local serves hready rfl)
  have hreceived := hwoken.trans (network_receives (m := m) (e := received)
    (by rintro d ⟨⟩; rfl) hreceive rfl rfl hback)
  have hreturned := hreceived.trans (network_local serves hreturn rfl)
  obtain ⟨-, -, hall⟩ := returns_only_answered (ρ := ρ) hsends hreturned rfl rfl
  exact ⟨_, _, _, hsends.trans hreturned, rfl, hall⟩

end MattblastNetwork
