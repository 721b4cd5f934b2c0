import DnsBlast.BlastActivity

/-! What the user reads. With --verbose there is a line for every query that sendto has
accepted and one for every datagram that receive has counted, in order; the status lines
report the counters of the process. -/
namespace BlastConsole

open WrappingIntegers ByteStores LabelledRuns BlastHeader BlastQuery BlastSyscalls BlastReceive
  BlastMain BlastTraffic BlastRealization BlastReplies BlastTable BlastActivity

def isQuestion : Line → Bool
  | .question .. => true
  | _ => false

def isAnswer : Line → Bool
  | .answer .. => true
  | _ => false

def isStatus : Line → Bool
  | .status .. => true
  | _ => false

def hostId (P : Platform) (bytes : List UInt8) : ℕ :=
  if P.littleEndian then (bytes.getD 1 0).toNat * 256 + (bytes.getD 0 0).toNat
  else (bytes.getD 0 0).toNat * 256 + (bytes.getD 1 0).toNat

def questionLine (P : Platform) (call : BlastCall) (bytes : List UInt8) : Line :=
  .question call.type call.name (hostId P bytes + 1) bytes.length

/-- A line that reports a datagram received. One of less than two bytes has no id. -/
def AnswerLine (l : Line) (d : Datagram) : Prop :=
  ∃ number elapsed, l = .answer number d.bytes.length elapsed ∧
    (2 ≤ d.bytes.length → number = answerId d + 1)

def statusLine (P : Platform) (c : Context) (rate : ℕ) : Line :=
  .status c.sentPackets c.receivedPackets rate
    (doubleDiv P (P.round (P.round c.receivedPackets * 100)) (P.round c.sentPackets))

section Lines
variable {P : Platform} {verbose : Bool} {w v : World} {e : Event} {a b : Activity}

theorem updateStatus_console (now : ℕ) : (updateStatus P verbose w now).console =
    w.console ++ if !verbose || !w.context.sending then
      [statusLine P w.context (updateStatus P verbose w now).context.rate] else [] := rfl

/-- A step below throttled_receive prints nothing, an answer or a status line. -/
theorem effect_console (h : Effect P verbose w e a v b) :
    v.console = w.console ∨
    (∃ recvv id start, a = .receiving (.clock recvv id start) ∧ v.console = w.console ++
      if verbose then [.answer (id + 1) recvv (wrapSub 64 e.time start), .newline] else []) ∨
    (∃ now, a = .reporting (.update now) ∧ v.console = w.console ++
      if !verbose || !w.context.sending then [statusLine P w.context v.context.rate] else []) := by
  cases h with
  | still hb => exact Or.inl rfl
  | missed hs => exact Or.inl rfl
  | receive h hb =>
    cases receive_step h with
    | arrive time d stale hid => exact Or.inl rfl
    | empty time => exact Or.inl rfl
    | interrupted time => exact Or.inl rfl
    | abort time => exact Or.inl rfl
    | count recvv id start now => exact Or.inr (Or.inl ⟨recvv, id, start, rfl, rfl⟩)
  | report h hb =>
    cases status_step h with
    | early now he => exact Or.inl rfl
    | due now he => exact Or.inl rfl
    | update now time v hv =>
      subst hv
      exact Or.inr (Or.inr ⟨now, rfl, rfl⟩)

theorem effect_questions (h : Effect P verbose w e a v b) :
    v.console.filter isQuestion = w.console.filter isQuestion := by
  rcases effect_console h with hc | ⟨_, _, _, -, hc⟩ | ⟨_, -, hc⟩
  · rw [hc]
  · rw [hc, List.filter_append]
    split_ifs <;> simp [isQuestion]
  · rw [hc, List.filter_append]
    split_ifs <;> simp [isQuestion, statusLine]

end Lines

/-- The id that blast prints is the one in the packet that it has sent. -/
theorem headerId_packet (P : Platform) (w : World) {packetSize : ℕ} (h : 2 ≤ packetSize) :
    headerId P w.context.question = hostId P (packet w packetSize) := by
  obtain ⟨k, rfl⟩ := Nat.exists_eq_add_of_le h
  have hpacket : packet w (2 + k) = [w.context.question 0, w.context.question 1] ++
      readBytes w.context.question 2 k := by
    rw [packet, readBytes_add]
    rfl
  simp [headerId, hostId, hpacket]

theorem beginBlast_call (P : Platform) (ρ : ℕ → ℕ) (w : World) (now : ℕ) :
    let b := beginBlast P ρ w now
    (∃ fuzzed, b.1.calls = w.calls ++ [⟨w.context.id, w.name, w.type, fuzzed⟩]) ∧
      b.1.name = w.name ∧ b.1.type = w.type ∧ b.1.console = w.console ∧ 2 ≤ b.2 := by
  have hsize := queryStores_size P w.context.id w.name w.type
  simp only [beginBlast, buildPacket, storeStart]
  split_ifs
  · exact ⟨⟨_, rfl⟩, rfl, rfl, rfl, le_trans (by decide) hsize⟩
  · exact ⟨⟨_, rfl⟩, rfl, rfl, rfl, le_trans (by decide) hsize⟩

/-- The question lines report the first calls of blast, as many as there are datagrams. -/
def QuestionsShown (P : Platform) (verbose : Bool) (w : World) (calls : List BlastCall) : Prop :=
  w.console.filter isQuestion = if verbose then List.zipWith (questionLine P) calls w.wire else []

def Asked (P : Platform) (verbose : Bool) : State → Prop
  | (w, .wait (.sendto packetSize)) => 2 ≤ packetSize ∧ ∃ calls call, w.calls = calls ++ [call] ∧
      calls.length = w.wire.length ∧ call.name = w.name ∧ call.type = w.type ∧
      QuestionsShown P verbose w calls
  | (w, .stop _) => QuestionsShown P verbose w w.calls
  | (w, _) => w.calls.length = w.wire.length ∧ QuestionsShown P verbose w w.calls

theorem asked_away {P : Platform} {verbose : Bool} {w : World} {c : Outcome MainPos ℕ}
    (hlength : w.calls.length = w.wire.length) (h : QuestionsShown P verbose w w.calls)
    (hc : ∀ n, c ≠ .wait (.sendto n)) : Asked P verbose (w, c) := by
  cases c with
  | wait p =>
    cases p with
    | sendto n => exact absurd rfl (hc n)
    | _ => exact ⟨hlength, h⟩
  | ret r => exact ⟨hlength, h⟩
  | stop k => exact h

/-- Lines that are no questions may be added. -/
theorem QuestionsShown.more {P : Platform} {verbose : Bool} {w v : World} {calls : List BlastCall}
    (h : QuestionsShown P verbose w calls) (hwire : v.wire = w.wire)
    (hmore : v.console.filter isQuestion = w.console.filter isQuestion) :
    QuestionsShown P verbose v calls := by
  rw [QuestionsShown, hmore, hwire]
  exact h

/-- A call whose packet is not accepted yet has no line. -/
theorem zipWith_unsent {α β γ : Type*} (f : α → β → γ) {as : List α} {bs : List β} (a : α)
    (h : as.length = bs.length) : List.zipWith f (as ++ [a]) bs = List.zipWith f as bs := by
  have happend : List.zipWith f (as ++ [a]) (bs ++ []) = List.zipWith f as bs ++ [] :=
    List.zipWith_append h
  simpa using happend

/-- The packet that sendto accepts is reported. -/
theorem asked_accept {P : Platform} {verbose : Bool} {w : World} {packetSize : ℕ}
    (h : Asked P verbose (w, .wait (.sendto packetSize))) :
    let v := endBlast P verbose w packetSize
    v.calls.length = v.wire.length ∧ QuestionsShown P verbose v v.calls := by
  obtain ⟨hsize, calls, call, hcalls, hlength, hname, htype, hshown⟩ := h
  have hbytes : (packet w packetSize).length = packetSize := readBytes_length _ _ _
  constructor
  · simp [endBlast, hcalls, hlength]
  · simp only [QuestionsShown, endBlast, hcalls] at hshown ⊢
    rw [List.filter_append, hshown]
    cases verbose with
    | false => simp
    | true =>
      rw [if_pos rfl, if_pos rfl, if_pos rfl, List.zipWith_append hlength]
      simp [isQuestion, questionLine, hname, htype, hbytes, headerId_packet P w hsize]

theorem updateStatus_questions (P : Platform) (verbose : Bool) (w : World) (now : ℕ) :
    (updateStatus P verbose w now).console.filter isQuestion = w.console.filter isQuestion := by
  rw [updateStatus_console, List.filter_append]
  split_ifs <;> simp [isQuestion, statusLine]

theorem asked_main {P : Platform} {ρ : ℕ → ℕ} {verbose : Bool} {w v : World} {p : MainPos}
    {e : Event} {c : Outcome MainPos ℕ} (hs : Asked P verbose (w, .wait p))
    (h : Step P ρ verbose w p e v c) : Asked P verbose (v, c) := by
  have hthrottle : ∀ {q u d}, (∀ n, p ≠ .sendto n) →
      throttledReceive P verbose w q e = some (u, d) →
      u.calls.length = u.wire.length ∧ QuestionsShown P verbose u u.calls := by
    intro q u d hp ht
    obtain ⟨hlength, hshown⟩ : w.calls.length = w.wire.length ∧
        QuestionsShown P verbose w w.calls := by
      cases p with
      | sendto n => exact absurd rfl (hp n)
      | _ => exact hs
    have hq := throttledReceive_quiet ht
    have hcalls : u.calls = w.calls := congrArg Sender.calls hq.sender
    rw [hcalls]
    exact ⟨hq.wire.symm ▸ hlength,
      hshown.more hq.wire (effect_questions (throttledReceive_effect ht))⟩
  cases h with
  | @send now r _ hr hb =>
    subst hb
    obtain ⟨⟨fuzzed, hcalls⟩, hname, htype, hconsole, hsize⟩ :=
      beginBlast_call P ρ { w with name := r.1.1, type := r.1.2, draws := r.2 } now
    obtain ⟨-, -, hwire⟩ :=
      beginBlast_keeps P ρ { w with name := r.1.1, type := r.1.2, draws := r.2 } now
    refine ⟨hsize, _, _, hcalls, ?_, hname.symm, htype.symm, ?_⟩
    · rw [hwire]
      exact hs.1
    · exact hs.2.more hwire (by rw [hconsole])
  | accept time packetSize => exact asked_accept hs
  | retry time packetSize errno => exact hs
  | fail time packetSize =>
    obtain ⟨-, calls, call, hcalls, hlength, -, -, hshown⟩ := hs
    rw [QuestionsShown] at hshown
    rw [Asked, QuestionsShown, hcalls, zipWith_unsent _ call hlength]
    exact hshown
  | throttle ht => exact hthrottle (by simp) ht
  | @iterate before p e u r ht =>
    obtain ⟨hlength, hshown⟩ := hthrottle (by simp) ht
    refine asked_away hlength (hshown.more rfl ?_) (endIteration_away _ _ _)
    simp only [endIteration, List.filter_append]
    split_ifs <;> simp [isQuestion]
  | abort ht => exact (hthrottle (by simp) ht).2
  | sent now v hv =>
    subst hv
    exact ⟨hs.1, hs.2.more rfl (updateStatus_questions P verbose w now)⟩
  | drainStart now => exact asked_away hs.1 hs.2 (drainLoop_away _ _)
  | @drain first q e u d ht =>
    obtain ⟨hlength, hshown⟩ := hthrottle (by simp) ht
    exact asked_away hlength hshown fun n => by cases d <;> simp [drainOutcome]
  | giveUp first now hn => exact hs
  | drainOn first now hn => exact asked_away hs.1 hs.2 (drainLoop_away _ _)
  | done now v hv =>
    subst hv
    refine ⟨hs.1, hs.2.more rfl ?_⟩
    rw [List.filter_append, updateStatus_questions]
    simp [isQuestion]

theorem Asked.at_time {P : Platform} {verbose : Bool} {w : World} {c : Outcome MainPos ℕ}
    (h : Asked P verbose (w, c)) (time : ℕ) : Asked P verbose ({ w with time := time }, c) := by
  cases c with
  | wait p => cases p <;> exact h
  | ret r => exact h
  | stop k => exact h

def Shown (verbose : Bool) (w : World) (ds : List Datagram) : Prop :=
  List.Forall₂ AnswerLine (w.console.filter isAnswer) (if verbose then ds else [])

/-- Every datagram has its line, but for one that receive is still at. -/
def AnswersShown (verbose : Bool) (w : World) : Activity → Prop
  | .receiving (.clock recvv id _) => ∃ ds d, w.delivered = ds ++ [d] ∧
      recvv = d.bytes.length ∧ (2 ≤ d.bytes.length → id = answerId d) ∧ Shown verbose w ds
  | _ => Shown verbose w w.delivered

theorem answersShown_fresh {verbose : Bool} {w : World} {b : Activity} (hb : b.Fresh)
    (h : Shown verbose w w.delivered) : AnswersShown verbose w b := by
  cases b with
  | idle => exact h
  | receiving p =>
    cases p with
    | recv => exact h
    | clock recvv id start => exact hb.elim
  | reporting p => exact h

theorem Shown.more {verbose : Bool} {w v : World} {ds : List Datagram} (h : Shown verbose w ds)
    (hmore : v.console.filter isAnswer = w.console.filter isAnswer) : Shown verbose v ds := by
  rw [Shown, hmore]
  exact h

theorem updateStatus_shown {P : Platform} {verbose : Bool} {w : World} {ds : List Datagram}
    (now : ℕ) (h : Shown verbose w ds) : Shown verbose (updateStatus P verbose w now) ds := by
  refine h.more ?_
  rw [updateStatus_console, List.filter_append]
  split_ifs <;> simp [isAnswer, statusLine]

theorem effect_answers {P : Platform} {verbose : Bool} {w v : World} {e : Event} {a b : Activity}
    (hs : AnswersShown verbose w a) (h : Effect P verbose w e a v b) :
    AnswersShown verbose v b := by
  cases h with
  | still hb => exact answersShown_fresh hb hs
  | missed hmissed => exact hs
  | receive h hb =>
    cases receive_step h with
    | arrive time d stale hid =>
      subst hb
      exact ⟨w.delivered, d, rfl, rfl, hid, hs⟩
    | empty time => exact answersShown_fresh hb hs
    | interrupted time =>
      subst hb
      exact hs
    | abort time => exact answersShown_fresh hb hs
    | count recvv id start now =>
      obtain ⟨ds, d, hdelivered, hrecvv, hid, hshown⟩ := hs
      apply answersShown_fresh hb
      simp only [Shown, List.filter_append, hdelivered] at hshown ⊢
      cases verbose with
      | false => simpa using hshown
      | true =>
        have hline : AnswerLine (.answer (id + 1) recvv (wrapSub 64 now start)) d :=
          ⟨_, _, by rw [hrecvv], fun hlen => by rw [hid hlen]⟩
        exact List.rel_append hshown (.cons hline .nil)
  | report h hb =>
    cases status_step h with
    | early now he => exact answersShown_fresh hb hs
    | due now he =>
      subst hb
      exact hs
    | update now time v hv =>
      subst hv
      exact answersShown_fresh hb (updateStatus_shown time hs)

theorem answers_main {P : Platform} {ρ : ℕ → ℕ} {verbose : Bool} {w v : World} {p : MainPos}
    {e : Event} {c : Outcome MainPos ℕ} (hs : AnswersShown verbose w (mainActivity p))
    (h : Step P ρ verbose w p e v c) : AnswersShown verbose v (activity mainActivity c) := by
  have hthrottle : ∀ {q u d}, AnswersShown verbose w (throttleActivity q) →
      throttledReceive P verbose w q e = some (u, d) →
      AnswersShown verbose u (activity throttleActivity d) :=
    fun hq ht => effect_answers hq (throttledReceive_effect ht)
  have hloop : ∀ first, Shown verbose w w.delivered →
      AnswersShown verbose w (activity mainActivity (drainLoop first w)) := by
    intro first hw
    rcases drainLoop_cases first w with hd | hd <;> rw [hd] <;> exact hw
  cases h with
  | @send now r _ hr hb =>
    subst hb
    obtain ⟨-, -, -, hconsole, -⟩ :=
      beginBlast_call P ρ { w with name := r.1.1, type := r.1.2, draws := r.2 } now
    obtain ⟨-, hreplies, -⟩ :=
      beginBlast_keeps P ρ { w with name := r.1.1, type := r.1.2, draws := r.2 } now
    have hdelivered := congrArg Replies.delivered hreplies
    simp only [World.replies] at hdelivered
    have hshown : Shown verbose w w.delivered := hs
    refine answersShown_fresh trivial ?_
    rw [hdelivered]
    exact hshown.more (by rw [hconsole])
  | accept time packetSize =>
    refine answersShown_fresh trivial (Shown.more hs ?_)
    simp only [endBlast, List.filter_append]
    split_ifs <;> simp [isAnswer]
  | retry time packetSize errno => exact hs
  | fail time packetSize => exact hs
  | throttle ht => exact hthrottle hs ht
  | @iterate before p e u r ht =>
    have hu : Shown verbose u u.delivered := hthrottle hs ht
    have hv : Shown verbose (endIteration verbose before u).1 u.delivered := by
      refine hu.more ?_
      simp only [endIteration, List.filter_append]
      split_ifs <;> simp [isAnswer]
    refine answersShown_fresh ?_ hv
    simp only [endIteration]
    split_ifs
    · trivial
    · trivial
  | abort ht => exact hthrottle hs ht
  | sent now v hv =>
    subst hv
    exact updateStatus_shown (w := w) now hs
  | drainStart now => exact hloop now hs
  | @drain first q e u d ht =>
    have hu := hthrottle hs ht
    cases d <;> exact hu
  | giveUp first now hn => exact hs
  | drainOn first now hn => exact hloop first hs
  | done now v hv =>
    subst hv
    refine (updateStatus_shown (P := P) (w := w) now hs).more ?_
    rw [List.filter_append]
    simp [isAnswer]

theorem AnswersShown.at_time {verbose : Bool} {w : World} {a : Activity}
    (h : AnswersShown verbose w a) (time : ℕ) : AnswersShown verbose { w with time := time } a := by
  cases a with
  | receiving p => cases p <;> exact h
  | _ => exact h

def counted (s : State) : List Datagram :=
  s.1.delivered.take (s.1.delivered.length - (s.2.holds mainPending).toNat)

theorem queue_pending {q : QueuePos} : q.pending = true ↔
    ∃ recvv id start, queueActivity q = .receiving (.clock recvv id start) := by
  rcases q with (_ | _) | _ <;> simp [QueuePos.pending, ReceivePos.pending, queueActivity]

theorem throttle_pending {q : ThrottlePos} : q.pending = true ↔
    ∃ recvv id start, throttleActivity q = .receiving (.clock recvv id start) := by
  cases q with
  | first q now max => exact queue_pending
  | queue q now remainingTime => exact queue_pending
  | _ => simp [ThrottlePos.pending, throttleActivity]

theorem holds_pending {c : Outcome MainPos ℕ} : c.holds mainPending = true ↔
    ∃ recvv id start, activity mainActivity c = .receiving (.clock recvv id start) := by
  cases c with
  | wait p =>
    cases p with
    | throttle before q => exact throttle_pending
    | drain first q => exact throttle_pending
    | _ => simp [Outcome.holds, mainPending, activity, mainActivity]
  | _ => simp [Outcome.holds, activity]

theorem AnswersShown.counted {verbose : Bool} {s : State}
    (h : AnswersShown verbose s.1 (activity mainActivity s.2)) :
    Shown verbose s.1 (counted s) := by
  rw [BlastConsole.counted]
  by_cases hp : s.2.holds mainPending = true
  · obtain ⟨recvv, id, start, ha⟩ := holds_pending.mp hp
    rw [ha] at h
    obtain ⟨ds, d, hdelivered, -, -, hshown⟩ := h
    rw [hp, hdelivered, Bool.toNat_true, List.length_append, List.length_singleton,
      Nat.add_sub_cancel, List.take_left]
    exact hshown
  · have hnone : ∀ recvv id start,
        activity mainActivity s.2 ≠ .receiving (.clock recvv id start) :=
      fun recvv id start ha => hp (holds_pending.mpr ⟨recvv, id, start, ha⟩)
    rw [Bool.eq_false_of_not_eq_true hp, Bool.toNat_false, Nat.sub_zero, List.take_length]
    generalize activity mainActivity s.2 = a at h hnone
    rcases a with _ | (_ | _) | _
    · exact h
    · exact h
    · exact absurd rfl (hnone _ _ _)
    · exact h

theorem question_lines {P : Platform} {ρ : RandStream P} {o : Options} {now : ℕ}
    {es : List Event} {s : State}
    (h : Execution (next P ρ.value o.verbose) Free (start o now) es s) :
    s.1.console.filter isQuestion =
      if o.verbose then List.zipWith (questionLine P) s.1.calls s.1.wire else [] := by
  have hasked : Asked P o.verbose s := by
    apply h.invariant (I := Asked P o.verbose)
    · exact ⟨rfl, by cases o.verbose <;> rfl⟩
    · rintro ⟨w, c⟩ e ⟨u, d⟩ hs - hn
      obtain ⟨p, v, hp, hstep, ht⟩ := next_cases hn
      cases hp
      cases ht
      exact (asked_main hs hstep).at_time _
  obtain ⟨w, c⟩ := s
  cases c with
  | wait p =>
    cases p with
    | sendto n =>
      obtain ⟨-, calls, call, hcalls, hlength, -, -, hshown⟩ := hasked
      rw [hcalls, zipWith_unsent _ call hlength]
      exact hshown
    | _ => exact hasked.2
  | ret r => exact hasked.2
  | stop k => exact hasked

/-- With --verbose the console has, in order, one line for each datagram that sendto has
accepted, with its type, name, id and size, and one for each datagram received; without
it, neither. This holds with fuzzing too: the id printed is the one sent. -/
theorem verbose_log {P : Platform} {ρ : RandStream P} {o : Options} {now : ℕ}
    {es : List Event} {s : State}
    (h : Execution (next P ρ.value o.verbose) Free (start o now) es s) :
    s.1.console.filter isQuestion =
        (if o.verbose then List.zipWith (questionLine P) s.1.calls s.1.wire else []) ∧
      List.Forall₂ AnswerLine (s.1.console.filter isAnswer)
        (if o.verbose then counted s else []) := by
  have hanswers : AnswersShown o.verbose s.1 (activity mainActivity s.2) := by
    apply h.invariant (I := fun s => AnswersShown o.verbose s.1 (activity mainActivity s.2))
    · simp [start, activity, mainActivity, AnswersShown, Shown]
    · rintro ⟨w, c⟩ e ⟨u, d⟩ hs - hn
      obtain ⟨p, v, hp, hstep, ht⟩ := next_cases hn
      cases hp
      cases ht
      exact (answers_main hs hstep).at_time _
  exact ⟨question_lines h, hanswers.counted⟩

/-- One query and the answer 00 00, with --verbose. -/
theorem verbose_log_one_answer : ∃ es s,
    Execution (next glibc (constantStream glibc 0 (by decide)).value fast.verbose) Free
      (start fast 0) es s ∧
    (s.1.console.filter isQuestion).length = 1 ∧
    List.Forall₂ AnswerLine (s.1.console.filter isAnswer) [⟨[0, 0], by decide, some 0⟩] := by
  let ρ := constantStream glibc 0 (by decide)
  let answer : Datagram := ⟨[0, 0], by decide, some 0⟩
  obtain ⟨es, ⟨w, c⟩, h, hdelivered, hwire, before, now', remainingTime, hpos⟩ :=
    arrivals_possible glibc ρ.value fast 0 [answer]
  cases hpos
  have hcalls : w.calls.length = 1 := (calls_length h rfl).trans hwire
  obtain ⟨hquestions, hanswers⟩ := verbose_log (ρ := ρ) h
  have hcounted : counted (w, .wait (.throttle before
      (.queue (.receive .recv) now' remainingTime))) = [answer] :=
    (List.take_length (l := w.delivered)).trans hdelivered
  refine ⟨es, _, h, ?_, hcounted ▸ hanswers⟩
  have hverbose : fast.verbose = true := rfl
  rw [hquestions, if_pos hverbose, List.length_zipWith, hcalls, hwire]
  rfl

end BlastConsole
