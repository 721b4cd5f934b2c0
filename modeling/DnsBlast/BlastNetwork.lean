import DnsBlast.DatagramChannels
import DnsBlast.BlastLatency
import DnsBlast.BlastStatusLines

/-! dnsblast.c and a server at the two ends of a network. What the process counts is tied
to what happened to its datagrams on the way. -/
namespace BlastNetwork

open LabelledRuns DatagramChannels BlastHeader BlastQuery BlastSyscalls BlastReceive BlastMain
  BlastTraffic BlastReplies BlastLatency BlastActivity BlastStatusLines

abbrev Bytes := List UInt8

def token (d : Datagram) : Option (ℕ × Bytes) := d.query.map fun k => (k, d.bytes)

theorem map_token {a : Option Datagram} (h : ∀ d, a = some d → d.query.isSome = true) :
    a.toList.map token = (a.bind token).toList.map some := by
  cases a with
  | none => rfl
  | some d =>
    obtain ⟨k, hk⟩ := Option.isSome_iff_exists.mp (h d rfl)
    simp [token, hk]

theorem map_query {ds : List Datagram} {ms : List (ℕ × Bytes)}
    (h : ds.map token = ms.map some) : ds.map Datagram.query = (ms.map Prod.fst).map some := by
  have htokens := congrArg (List.map (Option.map Prod.fst)) h
  simpa [Function.comp_def, token] using htokens

section Clients
variable {σ : Type} (k : Socket σ)

def takesAt (s : σ) (e : Event) : Option (ℕ × Bytes) := (k.arrival s e).bind token

def AnswersAt (s : σ) (e : Event) : Prop := ∀ d, k.arrival s e = some d → d.query.isSome = true

def clientAt (next : σ → Event → Option σ) : Client σ Event Bytes Bytes :=
  ⟨next, k.emits, takesAt k⟩

theorem answersAt_of_none {s : σ} {e : Event} (h : k.arrival s e = none) : AnswersAt k s e := by
  intro d hd
  rw [h] at hd
  cases hd

theorem silent_of_local (s : σ) {e : Event} (h : isLocal e = true) :
    k.emits s e = none ∧ takesAt k s e = none ∧ AnswersAt k s e := by
  obtain ⟨hemits, harrival⟩ := k.of_local s h
  refine ⟨hemits, ?_, answersAt_of_none k harrival⟩
  rw [takesAt, harrival, Option.bind_none]

end Clients

def client (P : Platform) (ρ : ℕ → ℕ) (verbose : Bool) : Client State Event Bytes Bytes :=
  clientAt socket (next P ρ verbose)

def Answers : State → Event → Prop := AnswersAt socket

section Runs
variable {P : Platform} {ρ : ℕ → ℕ} {o : Options} {now : ℕ} {serves : Bytes → Bytes → Prop}
  {ok : State → Event → Prop} {es : List (Event ⊕ Transit Bytes Bytes)} {s : State}
  {c : Channel Bytes Bytes}

structure Exchanged (s : State) (c : Channel Bytes Bytes) : Prop where
  sent : c.sent = s.1.wire
  arrived : s.1.delivered.map token = c.arrived.map some

theorem network_exchanged (hok : ∀ s e, ok s e → Answers s e)
    (h : Execution (client P ρ o.verbose).network (promise serves ok) (start o now, .empty) es
      (s, c)) : Exchanged s c := by
  obtain ⟨hsent, harrived⟩ := network_history (fun s => s.1.wire)
    (fun s => s.1.delivered.map token) rfl rfl (fun s e t he hn => by
      rw [(next_exchange hn).1, (next_exchange hn).2, List.map_append, map_token (hok s e he)]
      exact ⟨rfl, rfl⟩) h
  exact ⟨hsent.symm, harrived⟩

theorem Exchanged.delivered_length (h : Exchanged s c) :
    s.1.delivered.length = c.arrived.length := by
  simpa using congrArg List.length h.arrived

theorem Exchanged.queries_nodup (h : Exchanged s c) (hd : (c.arrived.map Prod.fst).Nodup) :
    (s.1.delivered.map Datagram.query).Nodup := by
  rw [map_query h.arrived]
  exact hd.map (Option.some_injective ℕ)

/-- Every datagram received answers a query that was sent, in the way the server answers. -/
theorem Exchanged.answers (h : Exchanged s c) (hc : Accounted serves c) {d : Datagram}
    (hd : d ∈ s.1.delivered) :
    ∃ k, ∃ hk : k < s.1.wire.length, d.query = some k ∧ serves s.1.wire[k] d.bytes := by
  have htoken : token d ∈ c.arrived.map some := h.arrived ▸ List.mem_map_of_mem hd
  obtain ⟨m, hm, heq⟩ := List.mem_map.mp htoken
  obtain ⟨q, hq, hserves⟩ := hc.arrival m hm
  rw [h.sent] at hq
  obtain ⟨hk, hget⟩ := List.getElem?_eq_some_iff.mp hq
  obtain ⟨k, hk', hpair⟩ := Option.map_eq_some_iff.mp heq.symm
  subst hpair
  exact ⟨k, hk, hk', hget ▸ hserves⟩

/-- As many datagrams as were sent or copied are on their way, lost or received; what is
received and not being processed is what received_packets counts. Where nothing is copied
the process can tell how many answers are missing, and main's drain test turns false
exactly when nothing is on its way or lost any more and nothing is being processed. -/
theorem datagrams_conserved {ρ : RandStream P}
    (h : Execution (client P ρ.value o.verbose).network (promise serves Answers)
      (start o now, .empty) es (s, c)) :
    let x := s.1.context
    let pending := (s.2.holds mainPending).toNat
    c.requests.card + c.replies.card + c.lost.card + s.1.delivered.length =
      x.sentPackets + c.copied.card ∧
    x.receivedPackets = (s.1.delivered.length - pending) % 2 ^ 64 ∧
    (c.copied = 0 → (s.1.delivered.map Datagram.query).Nodup ∧
      x.receivedPackets + pending + c.requests.card + c.replies.card + c.lost.card =
        x.sentPackets ∧
      (x.sentPackets = x.receivedPackets ↔
        pending = 0 ∧ c.requests = 0 ∧ c.replies = 0 ∧ c.lost = 0)) := by
  have hexchanged := network_exchanged (fun _ _ he => he) h
  have hacc := network_accounted accounted_empty h
  have hrun := network_client h
  obtain ⟨hpending, hcount⟩ : Counted (s.2.holds mainPending) s.1.replies :=
    execution_replies counted_receive ⟨Nat.zero_le _, rfl⟩ hrun
  obtain ⟨hsent, hle⟩ := (execution_progressing hrun).sent
  simp only [World.replies] at hpending hcount
  have hsmall := o.sendCount_lt
  have hconserved : c.requests.card + c.replies.card + c.lost.card + s.1.delivered.length =
      s.1.context.sentPackets + c.copied.card := by
    rw [hsent, ← hexchanged.sent, hexchanged.delivered_length]
    linarith only [hacc.count]
  refine ⟨hconserved, hcount, ?_⟩
  intro hcopied
  rw [hcopied, Multiset.card_zero, add_zero] at hconserved
  rw [Nat.mod_eq_of_lt (by omega)] at hcount
  refine ⟨hexchanged.queries_nodup (hacc.arrived_nodup hcopied), by omega, ?_⟩
  rw [← Multiset.card_eq_zero, ← Multiset.card_eq_zero, ← Multiset.card_eq_zero]
  omega

end Runs

def KeepsId (query answer : Bytes) : Prop := answer.take 2 = query.take 2

/-- Datagrams from the network only, and a clock that does not go back. -/
structure Networked (s : State) (e : Event) : Prop where
  answers : Answers s e
  steady : Steady s e

/-- The answer 00 00 to query 0, and its arrival at 7 ms. -/
def answer : Datagram := ⟨[0, 0], by decide, some 0⟩
def answered : Event := ⟨7, .received answer fun _ => 0⟩

section Exchange
variable {P : Platform} {ρ : ℕ → ℕ} {verbose : Bool} {s t : State} {serves : Bytes → Bytes → Prop}
  {c : Channel Bytes Bytes}

theorem networked_trace {es : List Event} (hlocal : es.all isLocal = true)
    (h : (s.1.time :: es.map Event.time).IsChain (· ≤ ·)) (hrep : ∀ e ∈ es, e.time < 2 ^ 64) :
    ValidTrace (next P ρ verbose) Networked s es := by
  induction es generalizing s with
  | nil => trivial
  | cons e es ih =>
    obtain ⟨hle, hrest⟩ := List.isChain_cons_cons.mp h
    obtain ⟨he, hes⟩ := Bool.and_eq_true_iff.mp hlocal
    refine ⟨⟨(silent_of_local socket s he).2.2, hle, hrep e List.mem_cons_self⟩, ?_⟩
    intro t hn
    obtain ⟨p, v, hp, hstep, ht⟩ := next_cases hn
    apply ih hes
    · rw [ht]
      exact hrest
    · intro f hf
      exact hrep f (List.mem_cons_of_mem e hf)

variable (serves) in
theorem network_local {es : List Event} (hr : runTrace (next P ρ verbose) s es = some t)
    (hlocal : es.all isLocal = true) (h : (s.1.time :: es.map Event.time).IsChain (· ≤ ·))
    (hrep : ∀ e ∈ es, e.time < 2 ^ 64) :
    Execution (client P ρ verbose).network (promise serves Networked) (s, c) (es.map .inl)
      (t, c) := by
  apply network_silent hr (networked_trace hlocal h hrep)
  intro e he s
  have hone : isLocal e = true := List.all_eq_true.mp hlocal e he
  obtain ⟨hemits, htakes, -⟩ := silent_of_local socket s hone
  exact ⟨hemits, htakes⟩

end Exchange

/-- At 90 queries a second the process is not behind its schedule at 0 and gets a reply. -/
theorem ready_poll (ρ : ℕ → ℕ) (verbose : Bool) {u : World} (before : ℕ)
    (hstart : u.context.startupDate = 0) (hpps : u.context.pps = 90)
    (hsent : u.context.sentPackets = 1) : ∃ wait,
    runTrace (next glibc ρ verbose) (u, .wait (.throttle before .now))
      [⟨0, .clock⟩, ⟨7, .ready⟩] =
    some ({ u with time := 7 }, .wait (.throttle before (.queue (.receive .recv) 0 wait))) := by
  have hearly : ¬ glibc.round 1 ≤ maxPackets glibc 90 0 := by
    simp [maxPackets, glibc]
  refine ⟨firstTimeout glibc u.context (maxPackets glibc 90 0), ?_⟩
  simp [runTrace, next, main, throttledReceive, call, hstart, hpps, hsent, hearly]

theorem exchange_possible : ∃ es s c,
    Execution (client glibc (constantStream glibc 0 (by decide)).value fast.verbose).network
      (promise KeepsId Networked) (start fast 0, .empty) es (s, c) ∧
    s.1.delivered = [answer] ∧ s.1.wire.length = 1 ∧ c.copied = 0 := by
  let ρ := constantStream glibc 0 (by decide)
  obtain ⟨w, size, hsend, htime, hsending, hstart, hpps, hsent, hwire, hnone⟩ :
      ∃ w size, runTrace (next glibc ρ.value fast.verbose) (start fast 0) [⟨0, .clock⟩] =
        some (w, .wait (.sendto size)) ∧ w.time = 0 ∧ w.context.sending = true ∧
      w.context.startupDate = 0 ∧ w.context.pps = 90 ∧ w.context.sentPackets = 0 ∧
      w.wire = [] ∧ w.delivered = [] :=
    ⟨_, _, rfl, rfl, rfl, rfl, rfl, rfl, rfl, rfl⟩
  let query := packet w size
  let before := w.context.receivedPackets
  let u : World := { endBlast glibc fast.verbose w size with time := 0 }
  have huwire : u.wire = [query] := congrArg (· ++ [query]) hwire
  have haccept : next glibc ρ.value fast.verbose (w, .wait (.sendto size)) ⟨0, .accepted⟩ =
      some (u, .wait (.throttle before .now)) := rfl
  have hids : query.take 2 = [0, 0] := by
    have hrun := (free_trace_execution hsend).tail trivial haccept
    have hid := execution_ids rfl hrun 0 (by simp [huwire])
    simp only [huwire, List.getElem_cons_zero] at hid
    exact hid.trans (by decide)
  have hu : u.context.startupDate = 0 ∧ u.context.pps = 90 ∧ u.context.sentPackets = 1 := by
    simp [u, endBlast, hstart, hpps, hsent]
  obtain ⟨wait, hpoll⟩ := ready_poll ρ.value fast.verbose before hu.1 hu.2.1 hu.2.2
  let v : World := { u with time := 7 }
  obtain ⟨x, recvv, id, entry, hreceive, hxtime, hxdelivered, hxwire⟩ : ∃ x recvv id entry,
      next glibc ρ.value fast.verbose
        (v, .wait (.throttle before (.queue (.receive .recv) 0 wait))) answered =
      some (x, .wait (.throttle before (.queue (.receive (.clock recvv id entry)) 0 wait))) ∧
      x.time = 7 ∧ x.delivered = [answer] ∧ x.wire = [query] :=
    ⟨_, _, _, _, rfl, rfl, congrArg (· ++ [answer]) hnone, huwire⟩
  obtain ⟨y, hcount, hydelivered, hywire⟩ : ∃ y, runTrace (next glibc ρ.value fast.verbose)
      (x, .wait (.throttle before (.queue (.receive (.clock recvv id entry)) 0 wait)))
        [⟨7, .clock⟩] = some (y, .wait (.throttle before (.queue (.receive .recv) 0 wait))) ∧
      y.delivered = [answer] ∧ y.wire = [query] := ⟨_, rfl, hxdelivered, hxwire⟩
  have hasked := network_local KeepsId (c := .empty) hsend rfl (by simp [start])
    (by simp)
  have hsent := hasked.trans (network_sends (m := client glibc ρ.value fast.verbose)
    (e := ⟨0, .accepted⟩) ⟨answersAt_of_none socket rfl, htime.le, Nat.two_pow_pos 64⟩ haccept rfl)
  have hquery : (0, query) ∈ (Channel.empty.send (some query) : Channel Bytes Bytes).requests := by
    simp [Channel.send, Channel.empty]
  have hkeeps : KeepsId query [0, 0] := hids.symm
  have hback : (0, answer.bytes) ∈ (0, [0, 0]) ::ₘ (0 : Multiset (ℕ × Bytes)) :=
    Multiset.mem_cons_self _ _
  have hserved := hsent.trans (network_responds hkeeps hquery)
  have hwoken := hserved.trans (network_local KeepsId hpoll rfl (by simp [u]) (by simp))
  have hreceived := hwoken.trans (network_receives (m := client glibc ρ.value fast.verbose)
    (e := answered) ⟨by rintro d ⟨⟩; rfl, le_rfl, by norm_num [answered]⟩ hreceive rfl rfl hback)
  have hcounted := hreceived.trans (network_local KeepsId hcount rfl (by simp [hxtime]) (by simp))
  exact ⟨_, _, _, hcounted, hydelivered, by simp [hywire], rfl⟩

/-- The state in which receive looks for a second answer. -/
theorem datagrams_conserved_one_answer : ∃ es s c,
    Execution (client glibc (constantStream glibc 0 (by decide)).value fast.verbose).network
      (promise KeepsId Answers) (start fast 0, .empty) es (s, c) ∧
    s.1.delivered = [answer] ∧ c.requests = 0 ∧ c.replies = 0 ∧ c.lost = 0 := by
  let ρ := constantStream glibc 0 (by decide)
  obtain ⟨es, s, c, h, hdelivered, hwire, hcopied⟩ := exchange_possible
  have hrun := h.weaken (promise_weaken fun _ _ he => he.answers)
  obtain ⟨hconserved, -, -⟩ := datagrams_conserved (ρ := ρ) hrun
  have hsent := (execution_progressing (network_client h)).sent.1
  rw [hsent, hwire, hdelivered, hcopied] at hconserved
  simp only [List.length_singleton, Multiset.card_zero] at hconserved
  refine ⟨es, s, c, hrun, hdelivered, ?_, ?_, ?_⟩
  · exact Multiset.card_eq_zero.mp (by omega)
  · exact Multiset.card_eq_zero.mp (by omega)
  · exact Multiset.card_eq_zero.mp (by omega)

end BlastNetwork
