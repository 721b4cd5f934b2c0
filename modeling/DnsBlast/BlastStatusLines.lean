import DnsBlast.BlastConsole
import DnsBlast.BlastDrain

/-! The status lines. Those of throttled_receive are at least UPDATE_STATUS_PERIOD apart;
main adds one at the end of the send loop and one before it returns. What they say of the
counters never goes back. -/
namespace BlastStatusLines

open WrappingIntegers LabelledRuns BlastHeader BlastQuery BlastSyscalls BlastReceive BlastMain
  BlastTraffic BlastRealization BlastReplies BlastDrain BlastActivity BlastConsole

structure Steady (s : State) (e : Event) : Prop where
  monotone : s.1.time ≤ e.time
  representable : e.time < 2 ^ 64

/-- The status lines that main itself has asked for. -/
def ownReports : State → ℕ
  | (_, .wait p) => if inSendPhase p then 0 else 1
  | (_, .ret _) => 2
  | (w, .stop _) => if w.context.sending then 0 else 1

def statuses (w : World) : List Line := w.console.filter isStatus

/-- All but `own` of the lines since `begin` are a period apart. -/
structure StatusSpaced (begin own : ℕ) (w : World) (a : Activity) : Prop where
  spaced : begin + updateStatusPeriod * (statuses w).length ≤
    w.context.lastStatusUpdate + updateStatusPeriod * own
  last : w.context.lastStatusUpdate ≤ w.time
  due : ∀ now, a = .reporting (.update now) →
    w.context.lastStatusUpdate + updateStatusPeriod ≤ now ∧ now ≤ w.time

section Spaced
variable {P : Platform} {verbose : Bool} {w v : World} {e : Event} {a b : Activity}
  {begin own own' : ℕ}

theorem updateStatus_statuses (now : ℕ) : statuses (updateStatus P verbose w now) =
    statuses w ++ if !verbose || !w.context.sending then
      [statusLine P w.context (updateStatus P verbose w now).context.rate] else [] := by
  rw [statuses, updateStatus_console, List.filter_append]
  split_ifs <;> rfl

theorem updateStatus_length (now : ℕ) :
    (statuses (updateStatus P verbose w now)).length ≤ (statuses w).length + 1 := by
  rw [updateStatus_statuses, List.length_append]
  split_ifs <;> simp

theorem Activity.Fresh.not_due (hb : b.Fresh) (now : ℕ) : b ≠ .reporting (.update now) := by
  rintro rfl
  exact hb

/-- Time passes, and lines that are no status lines are printed. -/
theorem StatusSpaced.later (h : StatusSpaced begin own w a) (hb : b = a ∨ b.Fresh)
    (hlines : statuses v = statuses w)
    (hlast : v.context.lastStatusUpdate = w.context.lastStatusUpdate) (htime : w.time ≤ v.time) :
    StatusSpaced begin own v b := by
  refine ⟨?_, ?_, ?_⟩
  · rw [hlines, hlast]
    exact h.spaced
  · rw [hlast]
    exact h.last.trans htime
  · intro now hnow
    rcases hb with rfl | hb
    · obtain ⟨hdue, hpast⟩ := h.due now hnow
      rw [hlast]
      exact ⟨hdue, hpast.trans htime⟩
    · exact absurd hnow (Activity.Fresh.not_due hb now)

/-- main's own line moves no date. -/
theorem StatusSpaced.own_line (h : StatusSpaced begin own w a) (hb : b.Fresh)
    (hlines : (statuses v).length ≤ (statuses w).length + 1)
    (hlast : v.context.lastStatusUpdate = w.context.lastStatusUpdate) (htime : w.time ≤ v.time) :
    StatusSpaced begin (own + 1) v b := by
  refine ⟨?_, ?_, ?_⟩
  · have hspaced := h.spaced
    have hmore := Nat.mul_le_mul_left updateStatusPeriod hlines
    rw [Nat.mul_succ] at hmore
    rw [hlast, Nat.mul_succ]
    omega
  · rw [hlast]
    exact h.last.trans htime
  · intro now hnow
    exact absurd hnow (Activity.Fresh.not_due hb now)

theorem effect_spaced (hs : StatusSpaced begin own w a) (hmono : w.time ≤ e.time)
    (hrep : e.time < 2 ^ 64) (h : Effect P verbose w e a v b) :
    StatusSpaced begin own { v with time := e.time } b := by
  cases h with
  | still hb => exact hs.later (Or.inr hb) rfl rfl hmono
  | missed hmissed => exact hs.later (Or.inl rfl) rfl rfl hmono
  | @receive p v c _ h hb =>
    have hfresh : b.Fresh ∨ ∃ q, b = .receiving q := by
      cases c with
      | wait q => exact Or.inr ⟨q, hb⟩
      | ret r => exact Or.inl hb
      | stop k => exact Or.inl hb
    have hkeep : statuses v = statuses w ∧
        v.context.lastStatusUpdate = w.context.lastStatusUpdate := by
      cases receive_step h with
      | count recvv id start now =>
        simp only [statuses, List.filter_append]
        refine ⟨?_, trivial⟩
        split_ifs <;> simp [isStatus]
      | _ => exact ⟨rfl, rfl⟩
    rcases hfresh with hfresh | ⟨q, rfl⟩
    · exact hs.later (Or.inr hfresh) hkeep.1 hkeep.2 hmono
    · have hnone := hs.later (b := .idle) (v := { v with time := e.time }) (Or.inr trivial)
        hkeep.1 hkeep.2 hmono
      refine ⟨hnone.spaced, hnone.last, ?_⟩
      intro now hnow
      cases hnow
  | report h hb =>
    cases status_step h with
    | early now he => exact hs.later (Or.inr hb) rfl rfl hmono
    | due now he =>
      subst hb
      have hpast : w.context.lastStatusUpdate ≤ now := hs.last.trans hmono
      rw [wrapSub_of_le hpast hrep] at he
      refine ⟨hs.spaced, hpast, ?_⟩
      intro now' hnow
      cases hnow
      exact ⟨show w.context.lastStatusUpdate + updateStatusPeriod ≤ now by omega, le_rfl⟩
    | update now time v hv =>
      subst hv
      obtain ⟨hdue, hpast⟩ := hs.due now rfl
      refine ⟨?_, hpast.trans hmono, ?_⟩
      · have hspaced := hs.spaced
        have hone : (statuses (updateStatus P verbose w time)).length ≤
            (statuses w).length + 1 := updateStatus_length time
        have hmore := Nat.mul_le_mul_left updateStatusPeriod hone
        rw [Nat.mul_succ] at hmore
        simp only [statuses] at hspaced hmore ⊢
        omega
      · intro now' hnow
        exact absurd hnow (Activity.Fresh.not_due hb now')

end Spaced

theorem fresh_drainLoop (first : ℕ) (w v : World) :
    (activity mainActivity (drainLoop first w)).Fresh ∧ ownReports (v, drainLoop first w) = 1 := by
  rcases drainLoop_cases first w with hd | hd
  · rw [hd]
    exact ⟨trivial, rfl⟩
  · rw [hd]
    exact ⟨trivial, rfl⟩

theorem ownReports_stop {v : World} {p : MainPos} {k : Halt} {time : ℕ}
    (h : v.context.sending = inSendPhase p) :
    ownReports ({ v with time := time }, .stop k) = if inSendPhase p then 0 else 1 := by
  rw [ownReports, h]

theorem spaced_main {P : Platform} {ρ : ℕ → ℕ} {verbose : Bool} {w v : World} {p : MainPos}
    {e : Event} {c : Outcome MainPos ℕ} {begin : ℕ} (hsending : w.context.sending = inSendPhase p)
    (hs : StatusSpaced begin (ownReports (w, .wait p)) w (mainActivity p))
    (he : Steady (w, .wait p) e) (h : Step P ρ verbose w p e v c) :
    StatusSpaced begin (ownReports ({ v with time := e.time }, c)) { v with time := e.time }
      (activity mainActivity c) := by
  have hmono : w.time ≤ e.time := he.monotone
  have hthrottle : ∀ {q u d}, mainActivity p = throttleActivity q →
      throttledReceive P verbose w q e = some (u, d) → u.context.sending = inSendPhase p ∧
      StatusSpaced begin (ownReports (w, .wait p)) { u with time := e.time }
        (activity throttleActivity d) := by
    intro q u d hq ht
    have hsame : u.context.sending = w.context.sending :=
      congrArg Pace.sending (throttledReceive_quiet ht).pace
    exact ⟨hsame.trans hsending,
      effect_spaced (hq ▸ hs) hmono he.representable (throttledReceive_effect ht)⟩
  cases h with
  | @send now r _ hr hb =>
    subst hb
    obtain ⟨-, -, -, hconsole, -⟩ :=
      beginBlast_call P ρ { w with name := r.1.1, type := r.1.2, draws := r.2 } now
    have hlast := (beginBlast_reports P ρ
      { w with name := r.1.1, type := r.1.2, draws := r.2 } now).1
    exact hs.later (Or.inl rfl) (congrArg (List.filter isStatus) hconsole) hlast hmono
  | accept time packetSize =>
    refine hs.later (Or.inl rfl) ?_ rfl hmono
    simp only [statuses, endBlast, List.filter_append]
    split_ifs <;> simp [isStatus]
  | retry time packetSize errno => exact hs.later (Or.inl rfl) rfl rfl hmono
  | fail time packetSize =>
    rw [ownReports_stop hsending]
    exact hs.later (Or.inl rfl) rfl rfl hmono
  | throttle ht => exact (hthrottle rfl ht).2
  | @iterate before q e u r ht =>
    have hu := (hthrottle rfl ht).2
    have hlines : statuses (endIteration verbose before u).1 = statuses u := by
      simp only [statuses, endIteration, List.filter_append]
      split_ifs <;> simp [isStatus]
    have hv : StatusSpaced begin 0
        { (endIteration verbose before u).1 with time := e.time } .idle :=
      hu.later (Or.inl rfl) hlines rfl le_rfl
    simp only [endIteration] at hv ⊢
    split_ifs at hv ⊢
    all_goals exact hv
  | @abort before q e u k ht =>
    obtain ⟨hsame, hu⟩ := hthrottle rfl ht
    rw [ownReports_stop hsame]
    exact hu
  | sent now v hv =>
    subst hv
    exact hs.own_line trivial (updateStatus_length now) rfl hmono
  | drainStart now =>
    obtain ⟨hfresh, hown⟩ := fresh_drainLoop now w { w with time := now }
    rw [hown]
    exact hs.later (Or.inr hfresh) rfl rfl hmono
  | @drain first q e u d ht =>
    obtain ⟨hsame, hu⟩ := hthrottle rfl ht
    cases d with
    | wait q => exact hu
    | ret r => exact hu
    | stop k =>
      rw [drainOutcome, ownReports_stop hsame]
      exact hu
  | giveUp first now hn => exact hs.later (Or.inl rfl) rfl rfl hmono
  | drainOn first now hn =>
    obtain ⟨hfresh, hown⟩ := fresh_drainLoop first w { w with time := now }
    rw [hown]
    exact hs.later (Or.inr hfresh) rfl rfl hmono
  | done now v hv =>
    subst hv
    refine hs.own_line trivial ?_ rfl hmono
    have hnone : [Line.newline].filter isStatus = [] := rfl
    rw [statuses, List.filter_append, hnone, List.append_nil]
    exact updateStatus_length now

/-- On a clock that does not go back there is at most one status line for every two seconds
since the start, besides the two that main asks for itself. -/
theorem status_lines_bounded {P : Platform} {ρ : RandStream P} {o : Options} {now : ℕ}
    {es : List Event} {s : State}
    (h : Execution (next P ρ.value o.verbose) Steady (start o now) es s) :
    (s.1.console.filter isStatus).length ≤ (s.1.time - now) / updateStatusPeriod + ownReports s ∧
      ownReports s ≤ 2 := by
  have hs : Progressing o.sendCount s ∧
      StatusSpaced now (ownReports s) s.1 (activity mainActivity s.2) := by
    apply h.invariant (I := fun s => Progressing o.sendCount s ∧
      StatusSpaced now (ownReports s) s.1 (activity mainActivity s.2))
    · refine ⟨progressing_start o now, le_rfl, le_rfl, ?_⟩
      intro now hnow
      cases hnow
    · rintro ⟨w, c⟩ e ⟨u, d⟩ ⟨hprogress, hs⟩ he hn
      refine ⟨progressing_step o.sendCount_lt hprogress hn, ?_⟩
      obtain ⟨p, v, hp, hstep, ht⟩ := next_cases hn
      cases hp
      cases ht
      exact spaced_main (Progress.sending hprogress) hs he hstep
  have hown : ownReports s ≤ 2 := by
    obtain ⟨w, c⟩ := s
    cases c with
    | wait p =>
      simp only [ownReports]
      split_ifs <;> decide
    | ret r => exact le_rfl
    | stop k =>
      simp only [ownReports]
      split_ifs <;> decide
  refine ⟨?_, hown⟩
  have hspaced := hs.2.spaced
  have hlast := hs.2.last
  have hperiod : 0 < updateStatusPeriod := by decide
  rw [statuses] at hspaced
  have hfew : (s.1.console.filter isStatus).length - ownReports s ≤
      (s.1.time - now) / updateStatusPeriod := by
    rw [Nat.le_div_iff_mul_le hperiod, Nat.sub_mul, Nat.mul_comm, Nat.mul_comm (ownReports s)]
    omega
  omega

theorem steady_iff (s : State) (e : Event) :
    Steady s e ↔ s.1.time ≤ e.time ∧ e.time < 2 ^ 64 :=
  ⟨fun h => ⟨h.monotone, h.representable⟩, fun ⟨hmono, hrep⟩ => ⟨hmono, hrep⟩⟩

/-- A poll that comes back after two seconds, and the status line that is due then. -/
theorem status_lines_bounded_two_seconds : ∃ es s,
    Execution (next glibc (constantStream glibc 0 (by decide)).value slow.verbose) Steady
      (start slow 0) es s ∧ s.1.time = 2000 ∧ s.2 = .wait .send ∧
    (s.1.console.filter isStatus).length = 1 ∧
    (s.1.console.filter isStatus).length ≤ 2000 / 2000 := by
  let ρ := constantStream glibc 0 (by decide)
  obtain ⟨w, size, hsend, hkeep⟩ : ∃ w size,
      next glibc ρ.value slow.verbose (start slow 0) ⟨0, .clock⟩ =
        some (w, .wait (.sendto size)) ∧ w.time = 0 ∧ w.context.sending = true ∧
      w.context.startupDate = 0 ∧ w.context.pps = 1 ∧ w.context.sentPackets = 0 ∧
      w.context.lastStatusUpdate = 0 ∧ w.console = [] ∧ w.sendCount = 2 :=
    ⟨_, _, rfl, rfl, rfl, rfl, rfl, rfl, rfl, rfl, rfl⟩
  obtain ⟨htime, hsending, hstart, hpps, hsent, hstatus, hconsole, hcount⟩ := hkeep
  let es : List Event := [⟨0, .accepted⟩, ⟨0, .clock⟩, ⟨2000, .timeout⟩, ⟨2000, .clock⟩,
    ⟨2000, .clock⟩]
  have hearly : ¬ glibc.round 1 ≤ maxPackets glibc 1 0 := by
    simp [maxPackets, glibc]
  have hlate : wrapSub 64 2000 0 = 2000 := by decide
  have hleft : wrapSub 64 2 1 = 1 := by decide
  have hverbose : slow.verbose = false := rfl
  have hvalid : ValidTrace (next glibc ρ.value slow.verbose) Steady
      (w, .wait (.sendto size)) es := by
    simp [es, ValidTrace, steady_iff, next, main, endBlast, throttledReceive, call,
      periodicallyUpdateStatus, updateStatus, updateStatusPeriod, hsending, hstart, hstatus, htime,
      hpps, hsent, hearly, hlate]
  obtain ⟨v, hrun, hvtime, hline⟩ : ∃ v,
      runTrace (next glibc ρ.value slow.verbose) (w, .wait (.sendto size)) es =
        some (v, .wait .send) ∧ v.time = 2000 ∧ (v.console.filter isStatus).length = 1 := by
    simp [es, runTrace, next, main, endBlast, throttledReceive, call, periodicallyUpdateStatus,
      updateStatus, updateStatusPeriod, endIteration, hsending, hstart, hstatus, hpps, hsent,
      hcount, hconsole, hverbose, hearly, hlate, hleft]
    rfl
  have hfirst : Steady (start slow 0) ⟨0, .clock⟩ := ⟨le_rfl, by norm_num⟩
  have h := runTrace_execution ((Execution.refl _).tail hfirst hsend) hvalid hrun
  have hbound := (status_lines_bounded (ρ := ρ) h).1
  rw [hvtime] at hbound
  exact ⟨_, _, h, hvtime, rfl, hline, hbound⟩

def Grows : Line → Line → Prop
  | .status sent received _ _, .status sent' received' _ _ => sent ≤ sent' ∧ received ≤ received'
  | _, _ => True

/-- A status line that was true when it was printed, with a query sent by then. -/
def TrueLine (P : Platform) (c : Context) (l : Line) : Prop :=
  ∃ sent received rate, l = .status sent received rate
      (doubleDiv P (P.round (P.round received * 100)) (P.round sent)) ∧
    1 ≤ sent ∧ sent ≤ c.sentPackets ∧ received ≤ c.receivedPackets

structure Truthful (P : Platform) (c : Context) (lines : List Line) : Prop where
  all : ∀ l ∈ lines, TrueLine P c l
  grows : lines.Pairwise Grows

theorem Truthful.later {P : Platform} {c d : Context} {lines : List Line}
    (h : Truthful P c lines) (hsent : c.sentPackets ≤ d.sentPackets)
    (hreceived : c.receivedPackets ≤ d.receivedPackets) : Truthful P d lines := by
  refine ⟨?_, h.grows⟩
  intro l hl
  obtain ⟨sent, received, rate, hline, hone, hs, hr⟩ := h.all l hl
  exact ⟨sent, received, rate, hline, hone, hs.trans hsent, hr.trans hreceived⟩

theorem Truthful.status {P : Platform} {c : Context} {lines : List Line} (h : Truthful P c lines)
    (hone : 1 ≤ c.sentPackets) (rate : ℕ) : Truthful P c (lines ++ [statusLine P c rate]) := by
  constructor
  · intro l hl
    rcases List.mem_append.mp hl with hl | hl
    · exact h.all l hl
    · rw [List.mem_singleton.mp hl]
      exact ⟨_, _, rate, rfl, hone, le_rfl, le_rfl⟩
  · rw [List.pairwise_append]
    refine ⟨h.grows, List.pairwise_singleton _ _, ?_⟩
    intro l hl l' hl'
    obtain ⟨sent, received, rate', rfl, -, hs, hr⟩ := h.all l hl
    rw [List.mem_singleton.mp hl']
    exact ⟨hs, hr⟩

def Adds (P : Platform) (w v : World) : Prop :=
  statuses v = statuses w ∨ ∃ rate, statuses v = statuses w ++ [statusLine P w.context rate]

theorem effect_adds {P : Platform} {verbose : Bool} {w v : World} {e : Event} {a b : Activity}
    (h : Effect P verbose w e a v b) : Adds P w v := by
  rcases effect_console h with hc | ⟨_, _, _, -, hc⟩ | ⟨_, -, hc⟩
  · exact Or.inl (by rw [statuses, hc, statuses])
  · left
    rw [statuses, hc, List.filter_append]
    split_ifs <;> simp [statuses, isStatus]
  · rw [Adds, statuses, hc, List.filter_append]
    split_ifs
    · exact Or.inr ⟨_, rfl⟩
    · exact Or.inl (List.append_nil _)

theorem updateStatus_adds (P : Platform) (verbose : Bool) (w : World) (now : ℕ) :
    Adds P w (updateStatus P verbose w now) := by
  rw [Adds, updateStatus_statuses]
  split_ifs
  · exact Or.inr ⟨_, rfl⟩
  · exact Or.inl (List.append_nil _)

def Begun : State → Prop
  | (_, .wait .send) => True
  | (_, .wait (.sendto _)) => True
  | (_, .stop _) => True
  | (w, _) => 0 < w.wire.length

section Steps
variable {P : Platform} {ρ : ℕ → ℕ} {verbose : Bool} {w v : World} {p : MainPos} {e : Event}
  {c : Outcome MainPos ℕ}

theorem step_wire (h : Step P ρ verbose w p e v c) : w.wire <+: v.wire := by
  cases h with
  | @send now r _ hr hb =>
    subst hb
    rw [(beginBlast_keeps P ρ { w with name := r.1.1, type := r.1.2, draws := r.2 } now).2.2]
  | accept time packetSize => exact List.prefix_append _ _
  | throttle ht => rw [(throttledReceive_quiet ht).wire]
  | @iterate before q e u r ht =>
    have hu : u.wire = w.wire := (throttledReceive_quiet ht).wire
    exact hu ▸ List.prefix_rfl
  | abort ht => rw [(throttledReceive_quiet ht).wire]
  | sent now v hv =>
    subst hv
    exact List.prefix_rfl
  | drain ht => rw [(throttledReceive_quiet ht).wire]
  | done now v hv =>
    subst hv
    exact List.prefix_rfl
  | _ => exact List.prefix_rfl

theorem begun_away (hw : 0 < w.wire.length) : Begun (w, c) := by
  cases c with
  | wait p =>
    cases p with
    | send => trivial
    | sendto n => trivial
    | _ => exact hw
  | ret r => exact hw
  | stop k => trivial

theorem step_begun (hs : Begun (w, .wait p)) (h : Step P ρ verbose w p e v c) : Begun (v, c) := by
  have hgrows := (step_wire h).length_le
  cases h with
  | send hr hb => trivial
  | accept time packetSize =>
    have hmore : 0 < (endBlast P verbose w packetSize).wire.length := by simp [endBlast]
    exact hmore
  | retry time packetSize errno => trivial
  | fail time packetSize => trivial
  | _ => exact begun_away (lt_of_lt_of_le hs hgrows)

/-- A status line is printed only once a query has been sent. -/
theorem step_adds (hs : Begun (w, .wait p)) (h : Step P ρ verbose w p e v c) :
    statuses v = statuses w ∨
      0 < w.wire.length ∧ ∃ rate, statuses v = statuses w ++ [statusLine P w.context rate] := by
  have hthrottle : ∀ {q u d}, 0 < w.wire.length → throttledReceive P verbose w q e = some (u, d) →
      statuses u = statuses w ∨
        0 < w.wire.length ∧ ∃ rate, statuses u = statuses w ++ [statusLine P w.context rate] :=
    fun hw ht => (effect_adds (throttledReceive_effect ht)).imp_right fun hrate => ⟨hw, hrate⟩
  cases h with
  | @send now r _ hr hb =>
    subst hb
    obtain ⟨-, -, -, hconsole, -⟩ :=
      beginBlast_call P ρ { w with name := r.1.1, type := r.1.2, draws := r.2 } now
    exact Or.inl (congrArg (List.filter isStatus) hconsole)
  | accept time packetSize =>
    left
    simp only [statuses, endBlast, List.filter_append]
    split_ifs <;> simp [isStatus]
  | throttle ht => exact hthrottle hs ht
  | @iterate before q e u r ht =>
    have hlines : statuses (endIteration verbose before u).1 = statuses u := by
      simp only [statuses, endIteration, List.filter_append]
      split_ifs <;> simp [isStatus]
    rw [hlines]
    exact hthrottle hs ht
  | abort ht => exact hthrottle hs ht
  | sent now v hv =>
    subst hv
    exact (updateStatus_adds P verbose w now).imp_right fun hrate => ⟨hs, hrate⟩
  | drain ht => exact hthrottle hs ht
  | done now v hv =>
    subst hv
    have hnone : [Line.newline].filter isStatus = [] := rfl
    rw [statuses, List.filter_append, hnone, List.append_nil]
    exact (updateStatus_adds P verbose w now).imp_right fun hrate => ⟨hs, hrate⟩
  | _ => exact Or.inl rfl

/-- Datagrams received and, of these, datagrams done with do not become fewer. -/
theorem step_delivered (h : Step P ρ verbose w p e v c) :
    w.delivered.length ≤ v.delivered.length ∧
      w.delivered.length - (mainPending p).toNat ≤
        v.delivered.length - (c.holds mainPending).toNat := by
  constructor
  · refine step_replies (J := fun _ r => w.delivered.length ≤ r.delivered.length) ?_ le_rfl h
    intro w' v' p' c' hle hr
    cases receive_step hr with
    | arrive time d stale hid => exact hle.trans (by simp [World.replies])
    | _ => exact hle
  · refine step_replies (J := fun b r =>
      w.delivered.length - (mainPending p).toNat ≤ r.delivered.length - b.toNat) ?_ le_rfl h
    intro w' v' p' c' hle hr
    cases receive_step hr with
    | arrive time d stale hid =>
      simpa [World.replies, Outcome.holds, ReceivePos.pending] using hle
    | count recvv id start now => exact hle.trans (Nat.sub_le _ _)
    | _ => exact hle

end Steps

theorem execution_truthful {P : Platform} {ρ : ℕ → ℕ} {o : Options} {now : ℕ}
    {ok : State → Event → Prop} {es : List Event} {s : State}
    (h : Execution (next P ρ o.verbose) ok (start o now) es s) :
    Begun s ∧ (s.1.delivered.length < 2 ^ 64 → Truthful P s.1.context (statuses s.1)) := by
  induction h with
  | refl => exact ⟨trivial, fun _ => ⟨fun l hl => absurd hl List.not_mem_nil, .nil⟩⟩
  | @tail s t es e h he hn ih =>
    obtain ⟨hbegun, hs⟩ := ih
    have hsent := (execution_progressing h).sent.1
    have hsent' := (execution_progressing (h.tail he hn)).sent.1
    obtain ⟨-, hcount⟩ : Counted (s.2.holds mainPending) s.1.replies :=
      execution_replies counted_receive ⟨Nat.zero_le _, rfl⟩ h
    obtain ⟨-, hcount'⟩ : Counted (t.2.holds mainPending) t.1.replies :=
      execution_replies counted_receive ⟨Nat.zero_le _, rfl⟩ (h.tail he hn)
    obtain ⟨w, c⟩ := s
    obtain ⟨u, d⟩ := t
    obtain ⟨p, v, hp, hstep, ht⟩ := next_cases hn
    cases hp
    cases ht
    change Step P ρ o.verbose w p e v d at hstep
    have hbegun' := step_begun hbegun hstep
    refine ⟨?_, ?_⟩
    · cases d with
      | wait q => cases q <;> exact hbegun'
      | ret r => exact hbegun'
      | stop k => trivial
    · intro hfew
      obtain ⟨hmore, hdone⟩ := step_delivered hstep
      have hwire : w.wire.length ≤ v.wire.length := (step_wire hstep).length_le
      have hw : w.context.sentPackets = w.wire.length := hsent
      have hv : v.context.sentPackets = v.wire.length := hsent'
      have hfew' : v.delivered.length < 2 ^ 64 := hfew
      have hbefore : w.context.receivedPackets =
          (w.delivered.length - (mainPending p).toNat) % 2 ^ 64 := hcount
      have hafter : v.context.receivedPackets =
          (v.delivered.length - (d.holds mainPending).toNat) % 2 ^ 64 := hcount'
      have hlines : Truthful P w.context (statuses w) := hs (lt_of_le_of_lt hmore hfew)
      rw [Nat.mod_eq_of_lt (by omega)] at hbefore hafter
      have hgrow : w.context.sentPackets ≤ v.context.sentPackets ∧
          w.context.receivedPackets ≤ v.context.receivedPackets := by omega
      rcases step_adds hbegun hstep with hsame | ⟨hone, rate, hadd⟩
      · have hlater := hlines.later hgrow.1 hgrow.2
        rw [← hsame] at hlater
        exact hlater
      · have hlater := (hlines.status (by omega) rate).later hgrow.1 hgrow.2
        rw [← hadd] at hlater
        exact hlater

/-- main returns right after its last line. -/
theorem step_returns {P : Platform} {ρ : ℕ → ℕ} {verbose : Bool} {n : ℕ} {s t : State} {e : Event}
    {r : ℕ} (hs : Progressing n s) (hn : next P ρ verbose s e = some t) (hr : t.2 = .ret r) :
    ∃ before, t.1.console = before ++
      [statusLine P t.1.context t.1.context.rate, .newline] := by
  obtain ⟨w, c⟩ := s
  obtain ⟨u, d⟩ := t
  obtain ⟨p, v, hp, hstep, ht⟩ := next_cases hn
  cases hp
  cases ht
  cases hstep with
  | @drain first q e u c ht => cases c <;> cases hr
  | done now v hv =>
    subst hv
    have hover : w.context.sending = false := Progress.sending hs
    refine ⟨w.console, ?_⟩
    have hline := @updateStatus_console P verbose w now
    rw [hover, Bool.not_false, Bool.or_true, if_pos rfl] at hline
    rw [hline, List.append_assoc]
    rfl
  | _ => cases hr

/-- Every status line of a run, as long as the counters have not wrapped, was true when it
was printed, with a query sent by then, and neither counter ever goes back from one line to
the next. A run that returns ends with the final counters and a newline. -/
theorem status_lines_truthful {P : Platform} {ρ : RandStream P} {o : Options} {now : ℕ}
    {es : List Event} {s : State}
    (h : Execution (next P ρ.value o.verbose) Free (start o now) es s)
    (hfew : s.1.delivered.length < 2 ^ 64) :
    Truthful P s.1.context (s.1.console.filter isStatus) ∧
      ∀ r, s.2 = .ret r → ∃ before, s.1.console = before ++
        [.status o.sendCount s.1.context.receivedPackets s.1.context.rate
          (doubleDiv P (P.round (P.round s.1.context.receivedPackets * 100))
            (P.round o.sendCount)), .newline] := by
  refine ⟨(execution_truthful h).2 hfew, ?_⟩
  intro r hr
  obtain ⟨hsent, hall⟩ : s.1.context.sentPackets = s.1.wire.length ∧
      s.1.wire.length = o.sendCount := by
    have hprogress := execution_progressing h
    obtain ⟨u, d⟩ := s
    cases hr
    exact hprogress
  rw [← hall, ← hsent]
  cases h with
  | refl => cases hr
  | @tail s _ es e h he hn => exact step_returns (execution_progressing h) hn hr

/-- One query that nobody answers, up to the return of main. -/
theorem status_lines_truthful_unanswered : ∃ es s,
    Execution (next glibc (constantStream glibc 0 (by decide)).value oneQuery.verbose) Free
      (start oneQuery 0) es s ∧ s.2 = .ret 0 ∧
    ∃ before rate ratio, s.1.console = before ++ [.status 1 0 rate ratio, .newline] := by
  let ρ := constantStream glibc 0 (by decide)
  obtain ⟨es, w, h, hwire, hnone⟩ := drainStart_reachable glibc ρ.value oneQuery 0
  obtain ⟨hsending, hsent, hreceived⟩ := drainStart_facts h
  have htimeout : w.context.timeout = 600 := execution_timeout h
  have hone : w.context.sentPackets = 1 := hsent.trans hwire
  rw [hnone] at hreceived
  let fs : List Event := [⟨0, .clock⟩, ⟨0, .clock⟩, ⟨0, .timeout⟩, ⟨601, .clock⟩, ⟨601, .clock⟩]
  have hlate : wrapSub 64 601 0 = 601 := by decide
  obtain ⟨v, hrun, hdelivered, hzero⟩ : ∃ v,
      runTrace (next glibc ρ.value oneQuery.verbose) (w, .wait .drainStart) fs =
        some (v, .ret 0) ∧ v.delivered = [] ∧ v.context.receivedPackets = 0 := by
    simp [fs, runTrace, next, main, drainLoop, throttledReceive, call, updateStatus, hsending,
      htimeout, hone, hreceived, hlate, hnone]
  have hall := h.trans (free_trace_execution hrun)
  obtain ⟨-, hlast⟩ := status_lines_truthful (ρ := ρ) hall (by simp [hdelivered])
  obtain ⟨before, hconsole⟩ := hlast 0 rfl
  simp only [hzero] at hconsole
  exact ⟨_, _, hall, rfl, before, _, _, hconsole⟩

end BlastStatusLines
