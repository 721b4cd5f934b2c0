import DnsBlast.BlastTable

/-! What one step does below throttled_receive: at most one step of receive or of
periodically_update_status, whichever is under way, and nothing else but a failure
counted. Results about the output and about arrivals go by cases on this. -/
namespace BlastActivity

open WrappingIntegers ByteStores BlastHeader BlastQuery BlastSyscalls BlastReceive BlastMain
  BlastTable

/-- The call that a position is in the middle of, or about to make. -/
inductive Activity where
  | idle
  | receiving (p : ReceivePos)
  | reporting (p : StatusPos)

def queueActivity : QueuePos → Activity
  | .receive p => .receiving p
  | .status p => .reporting p

def throttleActivity : ThrottlePos → Activity
  | .first p _ _ => queueActivity p
  | .queue p _ _ => queueActivity p
  | .status p => .reporting p
  | _ => .idle

def mainActivity : MainPos → Activity
  | .throttle _ p => throttleActivity p
  | .drain _ p => throttleActivity p
  | _ => .idle

def activity {π ρ : Type} (f : π → Activity) : Outcome π ρ → Activity
  | .wait p => f p
  | _ => .idle

def Activity.Fresh : Activity → Prop
  | .receiving (.clock ..) => False
  | .reporting (.update _) => False
  | _ => True

def Resumes {π ρ : Type} (f : π → Activity) (c : Outcome π ρ) (b : Activity) : Prop :=
  match c with
  | .wait p => b = f p
  | _ => b.Fresh

inductive ReceiveStep (verbose : Bool) (w : World) :
    ReceivePos → Event → World → Outcome ReceivePos ℕ → Prop where
  | arrive {id} (time d stale) (hid : 2 ≤ d.bytes.length → id = answerId d) :
      ReceiveStep verbose w .recv ⟨time, .received d stale⟩
        { w with tableLoads := w.tableLoads ++ [id], delivered := w.delivered ++ [d] }
        (.wait (.clock d.bytes.length id (w.context.datagramStart id)))
  | empty (time) : ReceiveStep verbose w .recv ⟨time, .nothing .EAGAIN⟩ w (.ret 1)
  | interrupted (time) : ReceiveStep verbose w .recv ⟨time, .nothing .EINTR⟩ w (.wait .recv)
  | abort (time) : ReceiveStep verbose w .recv ⟨time, .nothing .other⟩ w (.stop .abort)
  | count (recvv id start now) : ReceiveStep verbose w (.clock recvv id start) ⟨now, .clock⟩
      { w with
        context := { w.context with receivedPackets := (w.context.receivedPackets + 1) % 2 ^ 64 }
        console := w.console ++
          if verbose then [.answer (id + 1) recvv (wrapSub 64 now start), .newline] else [] }
      (.ret 0)

theorem receive_step {verbose : Bool} {w v : World} {p : ReceivePos} {e : Event}
    {c : Outcome ReceivePos ℕ} (h : receive verbose w p e = some (v, c)) :
    ReceiveStep verbose w p e v c := by
  obtain ⟨time, answer⟩ := e
  cases p with
  | recv =>
    cases answer with
    | received d stale =>
      cases h
      exact .arrive time d stale buffer_id
    | nothing errno =>
      cases errno <;> cases h
      · exact .empty time
      · exact .interrupted time
      · exact .abort time
    | _ => cases h
  | clock recvv id start =>
    cases answer <;> cases h
    exact .count recvv id start time

inductive StatusStep (P : Platform) (verbose : Bool) (w : World) :
    StatusPos → Event → World → Outcome StatusPos ℕ → Prop where
  | early (now) (he : wrapSub 64 now w.context.lastStatusUpdate < updateStatusPeriod) :
      StatusStep P verbose w .now ⟨now, .clock⟩ w (.ret 1)
  | due (now) (he : updateStatusPeriod ≤ wrapSub 64 now w.context.lastStatusUpdate) :
      StatusStep P verbose w .now ⟨now, .clock⟩ w (.wait (.update now))
  | update (now time v) (hv : updateStatus P verbose w time = v) :
      StatusStep P verbose w (.update now) ⟨time, .clock⟩
        { v with context := { v.context with lastStatusUpdate := now } } (.ret 0)

theorem status_step {P : Platform} {verbose : Bool} {w v : World} {p : StatusPos} {e : Event}
    {c : Outcome StatusPos ℕ} (h : periodicallyUpdateStatus P verbose w p e = some (v, c)) :
    StatusStep P verbose w p e v c := by
  obtain ⟨time, answer⟩ := e
  cases p with
  | now =>
    cases answer <;> try cases h
    simp only [periodicallyUpdateStatus] at h
    split_ifs at h with hearly
    · cases h
      exact .early time hearly
    · cases h
      exact .due time (not_lt.mp hearly)
  | update now =>
    cases answer <;> cases h
    exact .update now time _ rfl

def handing : State → Option (List UInt8)
  | (w, .wait (.sendto packetSize)) => some (packet w packetSize)
  | _ => none

def waitsForRecv (s : State) : Bool :=
  match activity mainActivity s.2 with
  | .receiving .recv => true
  | _ => false

def socket : Socket State := ⟨handing, waitsForRecv⟩

inductive Effect (P : Platform) (verbose : Bool) (w : World) (e : Event) :
    Activity → World → Activity → Prop where
  | still {b} (hb : b.Fresh) : Effect P verbose w e .idle w b
  | missed (hs : w.context.sending = false) : Effect P verbose w e .idle
      { w with context := { w.context with
        failedPackets := (w.context.failedPackets + 1) % 2 ^ 64 } } .idle
  | receive {p v c b} (h : receive verbose w p e = some (v, c)) (hb : Resumes .receiving c b) :
      Effect P verbose w e (.receiving p) v b
  | report {p v c b} (h : periodicallyUpdateStatus P verbose w p e = some (v, c))
      (hb : Resumes .reporting c b) : Effect P verbose w e (.reporting p) v b

section Inversion
variable {P : Platform} {ρ : ℕ → ℕ} {verbose : Bool} {w v : World} {e : Event}

theorem fresh_pollAgain (now : ℕ) (remainingTime : ℤ) :
    (activity throttleActivity (pollAgain now remainingTime)).Fresh := by
  unfold pollAgain
  split_ifs
  · trivial
  · trivial

/-- A caller that sees the positions of the queue as its own, and then goes to `rest`. -/
theorem emptyReceiveQueue_effect {p : QueuePos} {c : Outcome QueuePos Unit}
    {frame : QueuePos → ThrottlePos} {rest : ThrottlePos}
    (hframe : ∀ q, throttleActivity (frame q) = queueActivity q)
    (hrest : (throttleActivity rest).Fresh) (h : emptyReceiveQueue P verbose w p e = some (v, c)) :
    Effect P verbose w e (queueActivity p) v (activity throttleActivity
      (c.andThen frame fun _ => (.wait rest : Outcome ThrottlePos ℕ))) := by
  cases p with
  | receive p =>
    obtain ⟨d, hr, rfl⟩ := call_outcome h fun _ _ => rfl
    refine .receive hr ?_
    cases d with
    | wait q => exact hframe _
    | ret r =>
      simp only [Resumes, Outcome.andThen, activity, hframe]
      split_ifs
      · trivial
      · trivial
    | stop k => trivial
  | status p =>
    obtain ⟨d, hr, rfl⟩ := call_outcome h fun _ _ => rfl
    refine .report hr ?_
    cases d with
    | wait q => exact hframe _
    | ret r => exact hrest
    | stop k => trivial

theorem throttledReceive_effect {p : ThrottlePos} {c : Outcome ThrottlePos ℕ}
    (h : throttledReceive P verbose w p e = some (v, c)) :
    Effect P verbose w e (throttleActivity p) v (activity throttleActivity c) := by
  cases throttledReceive_step h with
  | behind hmax hd => exact .still trivial
  | ahead hmax hd => exact .still trivial
  | first now max hq => exact emptyReceiveQueue_effect (fun _ => rfl) trivial hq
  | timeout time now remainingTime hs => exact .still trivial
  | missed time now remainingTime hs => exact .missed hs
  | ready time now remainingTime => exact .still trivial
  | interrupted time now remainingTime errno he => exact .still (fresh_pollAgain _ _)
  | failure time now remainingTime => exact .still trivial
  | @status _ _ _ d hq =>
    refine .report hq ?_
    cases d with
    | wait q => rfl
    | ret r => trivial
    | stop k => trivial
  | queue now remainingTime hq => exact emptyReceiveQueue_effect (fun _ => rfl) trivial hq
  | again now remainingTime now2 => exact .still (fresh_pollAgain _ _)

/-- Only recv changes the list of datagrams received. -/
theorem effect_arrival {a b : Activity} {s : State} (hs : activity mainActivity s.2 = a)
    (h : Effect P verbose w e a v b) :
    v.delivered = w.delivered ++ (socket.arrival s e).toList := by
  have hnone : a ≠ .receiving .recv → w.delivered = w.delivered ++ (socket.arrival s e).toList := by
    intro hne
    have haway : waitsForRecv s = false := by
      unfold waitsForRecv
      split
      · rename_i heq
        exact absurd (hs.symm.trans heq) hne
      · rfl
    rw [Socket.arrival_of_away haway]
    exact (List.append_nil _).symm
  cases h with
  | still hb => exact hnone (by simp)
  | missed hq => exact hnone (by simp)
  | receive h hb =>
    cases receive_step h with
    | arrive time d stale hid =>
      have hhere : socket.receiving s = true := by
        show waitsForRecv s = true
        rw [waitsForRecv, hs]
      simp only [Socket.arrival, hhere, if_true, Option.toList_some]
    | count recvv id start now => exact hnone (by simp)
    | _ => exact (List.append_nil _).symm
  | report h hb =>
    have hv : v.delivered = w.delivered := by
      obtain ⟨_, _, _, _, rfl⟩ := periodicallyUpdateStatus_reports h
      rfl
    rw [hv]
    exact hnone (by simp)

/-- What a step adds to the datagrams sent and received. -/
theorem step_exchange {p : MainPos} {c : Outcome MainPos ℕ} (h : Step P ρ verbose w p e v c) :
    v.wire = w.wire ++ (socket.emits (w, .wait p) e).toList ∧
      v.delivered = w.delivered ++ (socket.arrival (w, .wait p) e).toList := by
  have hnothing : ∀ l : List Datagram, l = l ++ (none : Option Datagram).toList :=
    fun l => (List.append_nil l).symm
  have hsame : ∀ l : List (List UInt8), l = l ++ (none : Option (List UInt8)).toList :=
    fun l => (List.append_nil l).symm
  have hthrottle : ∀ {p : ThrottlePos} {q : MainPos} {u : World} {d : Outcome ThrottlePos ℕ},
      mainActivity q = throttleActivity p → socket.handing (w, .wait q) = none →
      throttledReceive P verbose w p e = some (u, d) →
      u.wire = w.wire ++ (socket.emits (w, .wait q) e).toList ∧
        u.delivered = w.delivered ++ (socket.arrival (w, .wait q) e).toList := by
    intro p q u d hq hs ht
    have hwire : u.wire = w.wire := (throttledReceive_quiet ht).wire
    rw [Socket.emits_of_away hs]
    exact ⟨hwire.trans (hsame _),
      effect_arrival (s := (w, .wait q)) hq (throttledReceive_effect ht)⟩
  cases h with
  | @send now r _ hr hb =>
    subst hb
    obtain ⟨-, hreplies, hwire⟩ :=
      beginBlast_keeps P ρ { w with name := r.1.1, type := r.1.2, draws := r.2 } now
    exact ⟨hwire.trans (hsame _), (congrArg Replies.delivered hreplies).trans (hnothing _)⟩
  | accept time packetSize => exact ⟨rfl, hnothing _⟩
  | retry time packetSize errno => exact ⟨hsame _, hnothing _⟩
  | fail time packetSize => exact ⟨hsame _, hnothing _⟩
  | @throttle before q _ _ _ ht => exact hthrottle (q := .throttle before q) rfl rfl ht
  | @iterate before q _ _ _ ht =>
    have hall := hthrottle (q := .throttle before q) rfl rfl ht
    exact hall
  | @abort before q _ _ _ ht => exact hthrottle (q := .throttle before q) rfl rfl ht
  | sent now v hv =>
    subst hv
    exact ⟨hsame _, hnothing _⟩
  | drainStart now => exact ⟨hsame _, hnothing _⟩
  | @drain first q _ _ _ ht => exact hthrottle (q := .drain first q) rfl rfl ht
  | giveUp first now hn => exact ⟨hsame _, hnothing _⟩
  | drainOn first now hn => exact ⟨hsame _, hnothing _⟩
  | done now v hv =>
    subst hv
    exact ⟨hsame _, hnothing _⟩

theorem next_exchange {s t : State} (h : next P ρ verbose s e = some t) :
    t.1.wire = s.1.wire ++ (socket.emits s e).toList ∧
      t.1.delivered = s.1.delivered ++ (socket.arrival s e).toList := by
  obtain ⟨w, c⟩ := s
  obtain ⟨p, v, hp, hstep, ht⟩ := next_cases h
  cases hp
  simp only [ht]
  exact step_exchange hstep

end Inversion

end BlastActivity
