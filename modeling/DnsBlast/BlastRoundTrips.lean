import DnsBlast.BlastNetwork

/-! The elapsed times that dnsblast.c prints. With a server that keeps the id of a query,
each is the round trip of the very query answered, however the network treats the others. -/
namespace BlastRoundTrips

open WrappingIntegers LabelledRuns DatagramChannels BlastHeader BlastQuery BlastSyscalls
  BlastReceive BlastMain BlastTraffic BlastReplies BlastTable BlastLatency BlastActivity
  BlastConsole BlastStatusLines BlastNetwork

def answerLine (verbose : Bool) (s : State) (e : Event) : Option Line :=
  match activity mainActivity s.2 with
  | .receiving (.clock recvv id start) =>
    if verbose then some (.answer (id + 1) recvv (wrapSub 64 e.time start)) else none
  | _ => none

def reception (s : State) (e : Event) : Option (Datagram × ℕ) :=
  match activity mainActivity s.2 with
  | .receiving (.clock ..) => s.1.delivered.getLast?.map fun d => (d, e.time)
  | _ => none

def receptions (P : Platform) (ρ : ℕ → ℕ) (verbose : Bool) (s : State) (es : List Event) :
    List (Datagram × ℕ) :=
  observe (next P ρ verbose) reception s es

/-- The line `l` tells the time from the sending of query `k`, which stands at `k` in
`times`, to the reading taken for its answer. -/
def RoundTrip (times : List ℕ) (l : Line) (r : Datagram × ℕ) : Prop :=
  ∃ k sentAt, r.1.query = some k ∧ times[k]? = some sentAt ∧ sentAt ≤ r.2 ∧
    l = .answer (k + 1) r.1.bytes.length (r.2 - sentAt)

theorem RoundTrip.later {times times' : List ℕ} {l : Line} {r : Datagram × ℕ}
    (h : RoundTrip times l r) : RoundTrip (times ++ times') l r := by
  obtain ⟨k, sentAt, hk, htime, hle, hl⟩ := h
  have hlt : k < times.length := (List.getElem?_eq_some_iff.mp htime).1
  exact ⟨k, sentAt, hk, by rwa [List.getElem?_append_left hlt], hle, hl⟩

section Steps
variable {P : Platform} {ρ : ℕ → ℕ} {verbose : Bool} {w v : World} {e : Event}

theorem throttleReceiving_activity {p : ThrottlePos} {r : ReceivePos} :
    throttleActivity p = .receiving r ↔ throttleReceiving p = some r := by
  rcases p with _ | ⟨_ | _, _, _⟩ | _ | _ | ⟨_ | _, _, _⟩ | _ <;>
    simp [throttleActivity, throttleReceiving, queueActivity, queueReceiving]

/-- A position is one of receive's in either way of looking at it. -/
theorem receiving_activity {c : Outcome MainPos ℕ} {r : ReceivePos} :
    activity mainActivity c = .receiving r ↔ receiving c = some r := by
  cases c with
  | wait p =>
    cases p with
    | throttle before p => exact throttleReceiving_activity
    | drain first p => exact throttleReceiving_activity
    | _ => simp [activity, mainActivity, receiving]
  | _ => simp [activity, receiving]

theorem effect_answerLine {a b : Activity} {s : State} (hs : activity mainActivity s.2 = a)
    (h : Effect P verbose w e a v b) : v.console.filter isAnswer =
      w.console.filter isAnswer ++ (answerLine verbose s e).toList := by
  unfold answerLine
  rw [hs]
  cases h with
  | still hb => exact (List.append_nil _).symm
  | missed hq => exact (List.append_nil _).symm
  | receive h hb =>
    cases receive_step h with
    | count recvv id start now =>
      cases verbose with
      | false => simp
      | true =>
        rw [if_pos rfl, List.filter_append]
        rfl
    | _ => exact (List.append_nil _).symm
  | report h hb =>
    cases status_step h with
    | update now time v hv =>
      subst hv
      simp only [updateStatus_console, List.filter_append]
      split_ifs <;> simp [isAnswer, statusLine]
    | _ => exact (List.append_nil _).symm

theorem step_answerLine {p : MainPos} {c : Outcome MainPos ℕ} (h : Step P ρ verbose w p e v c) :
    v.console.filter isAnswer =
      w.console.filter isAnswer ++ (answerLine verbose (w, .wait p) e).toList := by
  have hthrottle : ∀ {p : ThrottlePos} {q : MainPos} {u : World} {d : Outcome ThrottlePos ℕ},
      mainActivity q = throttleActivity p → throttledReceive P verbose w p e = some (u, d) →
      u.console.filter isAnswer =
        w.console.filter isAnswer ++ (answerLine verbose (w, .wait q) e).toList :=
    fun hq ht => effect_answerLine (s := (w, .wait _)) hq (throttledReceive_effect ht)
  have hsame : ∀ l : List Line, l = l ++ (none : Option Line).toList :=
    fun l => (List.append_nil l).symm
  have hupdate : ∀ now, (updateStatus P verbose w now).console.filter isAnswer =
      w.console.filter isAnswer := by
    intro now
    rw [updateStatus_console, List.filter_append]
    split_ifs <;> simp [isAnswer, statusLine]
  cases h with
  | @send now r _ hr hb =>
    subst hb
    obtain ⟨-, -, -, hconsole, -⟩ :=
      beginBlast_call P ρ { w with name := r.1.1, type := r.1.2, draws := r.2 } now
    rw [hconsole]
    exact hsame _
  | accept time packetSize =>
    simp only [endBlast, List.filter_append]
    split_ifs <;> simp [isAnswer, answerLine, activity, mainActivity]
  | @throttle before q _ _ _ ht => exact hthrottle (q := .throttle before q) rfl ht
  | @iterate before q _ u r ht =>
    have hu := hthrottle (q := .throttle before q) rfl ht
    rw [← hu]
    simp only [endIteration, List.filter_append]
    split_ifs <;> simp [isAnswer]
  | @abort before q _ _ _ ht => exact hthrottle (q := .throttle before q) rfl ht
  | sent now v hv =>
    subst hv
    exact (hupdate now).trans (hsame _)
  | @drain first q _ _ _ ht => exact hthrottle (q := .drain first q) rfl ht
  | done now v hv =>
    subst hv
    rw [List.filter_append, hupdate]
    simp [isAnswer, answerLine, activity, mainActivity]
  | _ => exact hsame _

theorem next_answerLine {s t : State} (h : next P ρ verbose s e = some t) :
    t.1.console.filter isAnswer =
      s.1.console.filter isAnswer ++ (answerLine verbose s e).toList := by
  obtain ⟨w, c⟩ := s
  obtain ⟨p, v, hp, hstep, ht⟩ := next_cases h
  cases hp
  simp only [ht]
  exact step_answerLine hstep

end Steps

section Runs
variable {P : Platform} {ρ : ℕ → ℕ} {o : Options} {now : ℕ} {s : State}

/-- The readings noted lie in the past. -/
theorem execution_sendTimes_le {es : List Event}
    (h : Execution (next P ρ o.verbose) Networked (start o now) es s) :
    ∀ t ∈ sendTimes P ρ o.verbose (start o now) es, t ≤ s.1.time := by
  apply h.observed (I := fun s l => ∀ t ∈ l, t ≤ s.1.time)
  · intro t ht
    cases ht
  · intro s e u l hl he hn t ht
    obtain ⟨p, v, hp, hstep, hu⟩ := next_cases hn
    have htime : u.1.time = e.time := by rw [hu]
    rw [htime]
    rcases List.mem_append.mp ht with ht | ht
    · exact (hl t ht).trans he.steady.monotone
    · obtain ⟨w, c⟩ := s
      obtain ⟨u, d⟩ := u
      cases hp
      cases hstep with
      | send hr hb => exact (List.mem_singleton.mp ht).le
      | _ => cases ht

variable {serves : Bytes → Bytes → Prop} {es : List (Event ⊕ Transit Bytes Bytes)}
  {c : Channel Bytes Bytes}

/-- The answer being processed carries the id of its own query, no later query has that id,
and the table still holds the reading taken for it. -/
theorem answered_query (hP : P.littleEndian = true) (hfuzz : o.fuzz = false)
    (hfew : o.sendCount ≤ maxUdpDataSize) (hserves : ∀ q a, serves q a → KeepsId q a)
    (h : Execution (client P ρ o.verbose).network (promise serves Networked)
      (start o now, .empty) es (s, c)) {recvv id entry : ℕ}
    (hpos : receiving s.2 = some (.clock recvv id entry)) :
    ∃ d, s.1.delivered.getLast? = some d ∧ d.query = some id ∧ recvv = d.bytes.length ∧
      (sendTimes P ρ o.verbose (start o now) (clientEvents es))[id]? = some entry ∧
      entry ≤ s.1.time := by
  have hexchanged := network_exchanged (fun _ _ he => he.answers) h
  have hacc := network_accounted accounted_empty h
  have hrun := network_client h
  obtain ⟨d, hlast, hrecvv, hid, hentry⟩ := execution_arrived hrun recvv id entry hpos
  obtain ⟨k, hk, hquery, hserved⟩ := hexchanged.answers hacc (List.mem_of_getLast? hlast)
  have hmax : maxUdpDataSize = 65507 := rfl
  have hle := (execution_progressing hrun).sent.2
  have hmod : k % 2 ^ 16 = k := Nat.mod_eq_of_lt (by omega)
  have hcarries : d.bytes.take 2 = hostU16 P k := by
    have hids := execution_ids hfuzz hrun k hk
    rw [hmod] at hids
    exact (hserves _ _ hserved).trans hids
  have hlong : 2 ≤ d.bytes.length := by
    have hlength := congrArg List.length hcarries
    rw [List.length_take, hostU16_length] at hlength
    omega
  have hanswer : id = k := (hid hlong).trans (answerId_of_idBytes hP (by omega) hcarries)
  subst hanswer
  have htabled := execution_tabled hrun
  obtain ⟨p, hp, haway⟩ := receiving_wait hpos
  have hlength : (sendTimes P ρ o.verbose (start o now) (clientEvents es)).length =
      s.1.wire.length := by
    rw [htabled.length_eq, calls_length hrun hp, handed_of_away (by simpa [hp] using haway)]
  have hlt : id < (sendTimes P ρ o.verbose (start o now) (clientEvents es)).length := hlength ▸ hk
  have htime : (sendTimes P ρ o.verbose (start o now) (clientEvents es))[id] = entry := by
    rw [← htabled.entry id hlt, hentry, hmod]
    intro j hj hlater heq
    rw [Nat.mod_eq_of_lt (by omega), hmod] at heq
    omega
  refine ⟨d, hlast, hquery, hrecvv, ?_, ?_⟩
  · rw [List.getElem?_eq_getElem hlt, htime]
  · rw [← htime]
    exact execution_sendTimes_le hrun _ (List.getElem_mem hlt)

theorem answered_roundTrip (hP : P.littleEndian = true) (hfuzz : o.fuzz = false)
    (hverbose : o.verbose = true) (hfew : o.sendCount ≤ maxUdpDataSize)
    (hserves : ∀ q a, serves q a → KeepsId q a)
    (h : Execution (client P ρ o.verbose).network (promise serves Networked)
      (start o now, .empty) es (s, c)) {e : Event} (he : Networked s e) :
    List.Forall₂ (RoundTrip (sendTimes P ρ o.verbose (start o now) (clientEvents es)))
      (answerLine o.verbose s e).toList (reception s e).toList := by
  unfold answerLine reception
  cases ha : activity mainActivity s.2 with
  | receiving p =>
    cases p with
    | recv => exact .nil
    | clock recvv id entry =>
      obtain ⟨d, hlast, hquery, hrecvv, htime, hle⟩ :=
        answered_query hP hfuzz hfew hserves h (receiving_activity.mp ha)
      have hlater : entry ≤ e.time := hle.trans he.steady.monotone
      simp only [if_pos hverbose, hlast, Option.map_some, Option.toList_some, hrecvv,
        wrapSub_of_le hlater he.steady.representable]
      exact .cons ⟨id, entry, hquery, htime, hlater, rfl⟩ .nil
  | _ => exact .nil

/-- With --verbose and without --fuzz on a little-endian host, for a count within the table
of send times and a server that keeps the id of a query: every answer line of a run gives
the number of the query that was really answered, the size of the answer and the
milliseconds from the sending of that query to the answer, for any network that loses,
delays, reorders or copies. -/
theorem round_trips_reported {ρ : RandStream P} (hP : P.littleEndian = true)
    (hfuzz : o.fuzz = false) (hverbose : o.verbose = true) (hfew : o.sendCount ≤ maxUdpDataSize)
    (hserves : ∀ q a, serves q a → KeepsId q a)
    (h : Execution (client P ρ.value o.verbose).network (promise serves Networked)
      (start o now, .empty) es (s, c)) :
    List.Forall₂ (RoundTrip (sendTimes P ρ.value o.verbose (start o now) (clientEvents es)))
      (s.1.console.filter isAnswer)
      (receptions P ρ.value o.verbose (start o now) (clientEvents es)) := by
  generalize hx : (s, c) = x at h
  induction h generalizing s c with
  | refl =>
    cases hx
    exact .nil
  | @tail y z es e h he hn ih =>
    obtain ⟨t, d⟩ := y
    subst hx
    have hshown := ih rfl
    have hrun : Execution (next P ρ.value o.verbose) Networked (start o now) (clientEvents es) t :=
      network_client h
    cases e with
    | inl e =>
      obtain ⟨u, hu, hn⟩ := Option.bind_eq_some_iff.mp hn
      obtain ⟨_, -, hn⟩ := Option.map_eq_some_iff.mp hn
      cases hn
      have hnext : next P ρ.value o.verbose t e = some s := hu
      rw [clientEvents_client, next_answerLine hnext, sendTimes, receptions, hrun.observe_append,
        hrun.observe_append]
      apply List.rel_append (hshown.imp fun _ _ hr => hr.later)
      have hone := answered_roundTrip hP hfuzz hverbose hfew hserves h he
      simp only [observe, hnext, Option.map_some, Option.getD_some, List.append_nil]
      exact hone.imp fun _ _ hr => hr.later
    | inr x =>
      obtain ⟨_, -, hn⟩ := Option.map_eq_some_iff.mp hn
      cases hn
      rw [clientEvents_transit]
      exact hshown

end Runs

/-- Query 0, answered after 7 ms. -/
theorem round_trips_reported_seven_milliseconds : ∃ es s c,
    Execution (client glibc (constantStream glibc 0 (by decide)).value fast.verbose).network
      (promise KeepsId Networked) (start fast 0, .empty) es (s, c) ∧
    s.1.delivered = [answer] ∧
    List.Forall₂ (RoundTrip (sendTimes glibc (constantStream glibc 0 (by decide)).value
        fast.verbose (start fast 0) (clientEvents es)))
      (s.1.console.filter isAnswer)
      (receptions glibc (constantStream glibc 0 (by decide)).value fast.verbose (start fast 0)
        (clientEvents es)) := by
  let ρ := constantStream glibc 0 (by decide)
  obtain ⟨es, s, c, h, hdelivered, -⟩ := exchange_possible
  exact ⟨es, s, c, h, hdelivered,
    round_trips_reported (ρ := ρ) rfl rfl rfl (by decide) (fun _ _ h => h) h⟩

end BlastRoundTrips
