import DnsBlast.BlastTable

/-! The elapsed time that receive computes. The table is indexed by the id, which blast
counts modulo 2^16 and stores in host order; on a little-endian host receive puts the
same number together from the first two bytes of an answer. -/
namespace BlastLatency

open WrappingIntegers ByteStores LabelledRuns BlastHeader BlastQuery BlastSyscalls BlastReceive
  BlastMain BlastTraffic BlastRealization BlastReplies BlastTable

def sendTime : State → Event → Option ℕ
  | (_, .wait .send), ⟨now, .clock⟩ => some now
  | _, _ => none

theorem sendTime_send {s : State} {e : Event} {time : ℕ} (h : sendTime s e = some time) :
    s.2 = .wait .send ∧ e.time = time := by
  unfold sendTime at h
  split at h
  · cases h
    exact ⟨rfl, rfl⟩
  · cases h

/-- The readings of the calls of blast in a run, oldest first: entry `k` belongs to query `k`. -/
def sendTimes (P : Platform) (ρ : ℕ → ℕ) (verbose : Bool) (s : State) (es : List Event) : List ℕ :=
  observe (next P ρ verbose) sendTime s es

/-- Query `k` is the last one sent whose datagram begins with `idBytes`. -/
structure LatestSend (wire : List (List UInt8)) (idBytes : List UInt8) (k : ℕ) : Prop where
  sent : k < wire.length
  carries : wire[k].take 2 = idBytes
  latest : ∀ j (hj : j < wire.length), k < j → wire[j].take 2 ≠ idBytes

theorem exists_latestSend {wire : List (List UInt8)} {idBytes : List UInt8}
    (h : ∃ bytes ∈ wire, bytes.take 2 = idBytes) : ∃ k, LatestSend wire idBytes k := by
  classical
  let Q : ℕ → Prop := fun k => ∃ hk : k < wire.length, wire[k].take 2 = idBytes
  obtain ⟨_, hmem, hbytes⟩ := h
  obtain ⟨j, hj, rfl⟩ := List.mem_iff_getElem.mp hmem
  obtain ⟨hk, hcarries⟩ := Nat.findGreatest_spec (P := Q) hj.le ⟨hj, hbytes⟩
  refine ⟨Nat.findGreatest Q wire.length, hk, hcarries, ?_⟩
  intro i hi hlt heq
  exact Nat.findGreatest_is_greatest hlt hi.le ⟨hi, heq⟩

theorem quiet_table {w v : World} (h : Quiet w v) :
    v.context.datagramStart = w.context.datagramStart ∧ v.context.id = w.context.id ∧
      v.calls = w.calls :=
  ⟨h.starts, congrArg Sender.id h.sender, congrArg Sender.calls h.sender⟩

/-- blast stores its reading under the id of its query. -/
theorem beginBlast_table (P : Platform) (ρ : ℕ → ℕ) (w : World) (now : ℕ) :
    let b := (beginBlast P ρ w now).1
    (w.context.id < 2 ^ 16 →
      b.context.datagramStart = Function.update w.context.datagramStart w.context.id now) ∧
    b.context.id = (w.context.id + 1) % 2 ^ 16 ∧ b.calls.length = w.calls.length + 1 := by
  have hindex := @tableIndex_eq P w
  simp only [beginBlast, buildPacket, storeStart]
  split_ifs
  · exact ⟨fun hid => by rw [hindex hid], rfl, List.length_append⟩
  · exact ⟨fun hid => by rw [hindex hid], rfl, List.length_append⟩

/-- Only a call of blast touches the table, and it is noted. -/
theorem step_table {P : Platform} {ρ : ℕ → ℕ} {verbose : Bool} {w v : World} {p : MainPos}
    {e : Event} {c : Outcome MainPos ℕ} (h : Step P ρ verbose w p e v c) :
    (sendTime (w, .wait p) e = some e.time ∧
      (w.context.id < 2 ^ 16 →
        v.context.datagramStart = Function.update w.context.datagramStart w.context.id e.time) ∧
      v.context.id = (w.context.id + 1) % 2 ^ 16 ∧ v.calls.length = w.calls.length + 1) ∨
    (sendTime (w, .wait p) e = none ∧ v.context.datagramStart = w.context.datagramStart ∧
      v.context.id = w.context.id ∧ v.calls = w.calls) := by
  cases h with
  | @send now r _ hr hb =>
    left
    subst hb
    exact ⟨rfl, beginBlast_table P ρ { w with name := r.1.1, type := r.1.2, draws := r.2 } now⟩
  | accept time packetSize => exact Or.inr ⟨rfl, rfl, rfl, rfl⟩
  | retry time packetSize errno => exact Or.inr ⟨rfl, rfl, rfl, rfl⟩
  | fail time packetSize => exact Or.inr ⟨rfl, rfl, rfl, rfl⟩
  | throttle ht => exact Or.inr ⟨rfl, quiet_table (throttledReceive_quiet ht)⟩
  | iterate ht =>
    right
    obtain ⟨hstarts, hid, hcalls⟩ := quiet_table (throttledReceive_quiet ht)
    exact ⟨rfl, hstarts, hid, hcalls⟩
  | abort ht => exact Or.inr ⟨rfl, quiet_table (throttledReceive_quiet ht)⟩
  | sent now v hv =>
    subst hv
    exact Or.inr ⟨rfl, rfl, rfl, rfl⟩
  | drainStart now => exact Or.inr ⟨rfl, rfl, rfl, rfl⟩
  | drain ht => exact Or.inr ⟨rfl, quiet_table (throttledReceive_quiet ht)⟩
  | giveUp first now hn => exact Or.inr ⟨rfl, rfl, rfl, rfl⟩
  | drainOn first now hn => exact Or.inr ⟨rfl, rfl, rfl, rfl⟩
  | done now v hv =>
    subst hv
    exact Or.inr ⟨rfl, rfl, rfl, rfl⟩

structure Tabled (s : State) (times : List ℕ) : Prop where
  length_eq : times.length = s.1.calls.length
  id : s.1.context.id = times.length % 2 ^ 16
  entry : ∀ k (hk : k < times.length),
    (∀ j < times.length, k < j → j % 2 ^ 16 ≠ k % 2 ^ 16) →
      s.1.context.datagramStart (k % 2 ^ 16) = times[k]

theorem tabled_step {P : Platform} {ρ : ℕ → ℕ} {verbose : Bool} {s t : State} {e : Event}
    {times : List ℕ} (hs : Tabled s times) (hn : next P ρ verbose s e = some t) :
    Tabled t (times ++ (sendTime s e).toList) := by
  obtain ⟨w, c⟩ := s
  obtain ⟨u, d⟩ := t
  obtain ⟨p, v, hp, hstep, ht⟩ := next_cases hn
  cases hp
  cases ht
  have hcount : w.context.id = times.length % 2 ^ 16 := hs.id
  have hid : w.context.id < 2 ^ 16 := hcount ▸ Nat.mod_lt _ (by decide)
  rcases step_table hstep with ⟨htime, hstarts, hid', hcalls⟩ | ⟨htime, hstarts, hid', hcalls⟩
  · rw [htime]
    refine ⟨?_, ?_, ?_⟩
    · simp [hs.length_eq, hcalls]
    · simp only [Option.toList_some, List.length_append, List.length_singleton, hid',
        hcount, Nat.mod_add_mod]
    · intro k hk hlatest
      simp only [Option.toList_some, List.length_append, List.length_singleton] at hk hlatest
      by_cases hlast : k = times.length
      · simp [hstarts hid, hcount, hlast]
      · have hlt : k < times.length := by omega
        have hne := hlatest times.length (by omega) hlt
        rw [List.getElem_append_left hlt]
        simp only [hstarts hid, hcount, Function.update_of_ne hne.symm]
        exact hs.entry k hlt fun j hj => hlatest j (by omega)
  · rw [htime, Option.toList_none, List.append_nil]
    refine ⟨?_, ?_, ?_⟩
    · simp only [hcalls]
      exact hs.length_eq
    · simp only [hid']
      exact hs.id
    · simp only [hstarts]
      exact hs.entry

theorem execution_tabled {P : Platform} {ρ : ℕ → ℕ} {o : Options} {now : ℕ}
    {ok : State → Event → Prop} {es : List Event} {s : State}
    (h : Execution (next P ρ o.verbose) ok (start o now) es s) :
    Tabled s (sendTimes P ρ o.verbose (start o now) es) :=
  h.observed ⟨rfl, rfl, fun _ hk => absurd hk (Nat.not_lt_zero _)⟩
    fun _ _ _ _ hs _ hn => tabled_step hs hn

/-- The first two bytes of a packet are the id, as the host stores it. -/
theorem query_idBytes (P : Platform) (m : Memory) (id : ℕ) (name : List UInt8) (type : ℕ) :
    (readBytes (applyStores m (queryStores P id name type).1) 0
      (queryStores P id name type).2).take 2 = hostU16 P id := by
  obtain ⟨bs, hs, hp⟩ := encodeName_stores sizeofHeader questionRoom name
  obtain ⟨k, hk⟩ := Nat.exists_eq_add_of_le
    (show 2 ≤ (queryStores P id name type).2 from
      le_trans (by decide) (queryStores_size P id name type))
  have hread := readBytes_storesAt m 0 (hostU16 P id)
  have hhead : sizeofHeader = 12 := rfl
  rw [hostU16_length] at hread
  rw [hk, readBytes_add, List.take_left' (readBytes_length _ 0 2)]
  simp only [queryStores, hs, applyStores_append]
  rw [readBytes_frame, readBytes_frame, hread]
  · intro w hw
    have := mem_storesAt_bounds hw
    omega
  · intro w hw
    have := mem_storesAt_bounds hw
    omega

/-- Without fuzzing datagram `k` carries id `k`, modulo 2^16. -/
theorem traffic_ids (P : Platform) (ρ : ℕ → ℕ) (ask : Asker) (n : ℕ) :
    let g := traffic P ρ ask (firstSender false) n
    ∀ k (hk : k < g.sent.length), g.sent[k].take 2 = hostU16 P (k % 2 ^ 16) := by
  have hall := @traffic_invariant P ρ ask (firstSender false)
    (fun n g => Numbered n g.sender ∧ g.sender.fuzz = false ∧
      ∀ k (hk : k < g.sent.length), g.sent[k].take 2 = hostU16 P (k % 2 ^ 16))
    ⟨⟨rfl, rfl, rfl⟩, rfl, fun k hk => absurd hk (Nat.not_lt_zero k)⟩
  refine (hall ?_ n).2.2
  rintro n g hlen ⟨hnumbered, hfuzz, hids⟩
  refine ⟨hnumbered.next, ?_, ?_⟩
  · simp only [Traffic.step, nextSender, hfuzz, Bool.false_eq_true, if_false]
  · intro k hk
    simp only [Traffic.step, List.getElem_append]
    split_ifs with hlt
    · exact hids k hlt
    · simp only [Traffic.step, List.length_append, List.length_singleton] at hk
      have hkn : k = n := by omega
      simp only [nextSender, hfuzz, Bool.false_eq_true, if_false, List.getElem_singleton,
        hnumbered.id, hkn]
      exact query_idBytes P _ _ _ _

theorem execution_ids {P : Platform} {ρ : ℕ → ℕ} {o : Options} {now : ℕ}
    {ok : State → Event → Prop} {es : List Event} {s : State} (hfuzz : o.fuzz = false)
    (h : Execution (next P ρ o.verbose) ok (start o now) es s) (k : ℕ)
    (hk : k < s.1.wire.length) : s.1.wire[k].take 2 = hostU16 P (k % 2 ^ 16) := by
  obtain ⟨n, hn⟩ := execution_emits h
  rw [hfuzz] at hn
  have hbegins := (wire_isPrefix_handed s).trans hn.handed_isPrefix
  rw [hbegins.getElem hk]
  exact traffic_ids P ρ (ask P ρ) n k (lt_of_lt_of_le hk hbegins.length_le)

/-- On a little-endian host received_id is the id whose bytes the datagram begins with. -/
theorem answerId_of_idBytes {P : Platform} (hP : P.littleEndian = true) {d : Datagram} {id : ℕ}
    (hid : id < 2 ^ 16) (h : d.bytes.take 2 = hostU16 P id) : answerId d = id := by
  rw [hostU16, if_pos hP] at h
  rcases d with ⟨_ | ⟨b₀, _ | ⟨b₁, rest⟩⟩, hsize, query⟩
  · simp [putHtons] at h
  · simp [putHtons] at h
  · simp only [putHtons, List.take_succ_cons, List.take_zero, List.reverse_cons, List.reverse_nil,
      List.nil_append, List.cons_append, List.cons.injEq, and_true] at h
    simp only [answerId, List.getD_cons_zero, List.getD_cons_succ, h.1, h.2, Nat.shiftLeft_eq]
    exact toNat_putHtons hid

def queueReceiving : QueuePos → Option ReceivePos
  | .receive p => some p
  | .status _ => none

def throttleReceiving : ThrottlePos → Option ReceivePos
  | .first p _ _ => queueReceiving p
  | .queue p _ _ => queueReceiving p
  | _ => none

def receiving : Outcome MainPos ℕ → Option ReceivePos
  | .wait (.throttle _ p) => throttleReceiving p
  | .wait (.drain _ p) => throttleReceiving p
  | _ => none

section Arrivals
variable {P : Platform} {ρ : ℕ → ℕ} {verbose : Bool} {w v : World} {e : Event}
  {recvv id entry : ℕ}

theorem queue_arrival {p q : QueuePos} (hq : queueReceiving q = some (.clock recvv id entry))
    (h : emptyReceiveQueue P verbose w p e = some (v, .wait q)) :
    ∃ r, receive verbose w r e = some (v, .wait (.clock recvv id entry)) := by
  cases p with
  | receive p =>
    rcases call_cases h with ⟨r, hr, hk⟩ | ⟨u, r, hr, hk⟩ | ⟨k, hr, hk⟩
    · cases hk
      cases hq
      exact ⟨p, hr⟩
    · cases hk
      split_ifs at hq
      · cases hq
      · cases hq
    · cases hk
  | status p =>
    rcases call_cases h with ⟨r, hr, hk⟩ | ⟨u, r, hr, hk⟩ | ⟨k, hr, hk⟩
    · cases hk
      cases hq
    · cases hk
    · cases hk

theorem throttle_arrival {p q : ThrottlePos}
    (hq : throttleReceiving q = some (.clock recvv id entry))
    (h : throttledReceive P verbose w p e = some (v, .wait q)) :
    ∃ r, receive verbose w r e = some (v, .wait (.clock recvv id entry)) := by
  have hagain : ∀ now remainingTime, .wait q ≠ pollAgain now remainingTime := by
    intro now remainingTime
    unfold pollAgain
    split_ifs
    · intro hc
      cases hc
      cases hq
    · simp
  have hstep := throttledReceive_step h
  generalize hc : Outcome.wait q = c at hstep
  cases hstep with
  | @first _ _ _ d now max hr =>
    cases d with
    | wait r =>
      cases hc
      exact queue_arrival hq hr
    | ret r =>
      cases hc
      cases hq
    | stop k => cases hc
  | @queue _ _ _ d now remainingTime hr =>
    cases d with
    | wait r =>
      cases hc
      exact queue_arrival hq hr
    | ret r =>
      cases hc
      cases hq
    | stop k => cases hc
  | @status _ _ _ d hr =>
    cases d with
    | wait r =>
      cases hc
      cases hq
    | _ => cases hc
  | interrupted time now remainingTime errno he => exact (hagain _ _ hc).elim
  | again now remainingTime now2 => exact (hagain _ _ hc).elim
  | missed time now remainingTime hs => cases hc
  | failure time now remainingTime => cases hc
  | _ =>
    cases hc
    cases hq

theorem step_arrival {p : MainPos} {c : Outcome MainPos ℕ}
    (hc : receiving c = some (.clock recvv id entry)) (h : Step P ρ verbose w p e v c) :
    ∃ r, receive verbose w r e = some (v, .wait (.clock recvv id entry)) := by
  have haway : ∀ first u, receiving (drainLoop first u) ≠ some (.clock recvv id entry) := by
    intro first u
    rcases drainLoop_cases first u with hd | hd <;> rw [hd] <;> simp [receiving, throttleReceiving]
  cases h with
  | throttle ht => exact throttle_arrival hc ht
  | @iterate before p e v r ht =>
    simp only [endIteration] at hc
    split_ifs at hc
    · cases hc
    · cases hc
  | drainStart now => exact (haway _ _ hc).elim
  | @drain first p e v c ht =>
    cases c with
    | wait q => exact throttle_arrival hc ht
    | ret r => cases hc
    | stop k => cases hc
  | drainOn first now hn => exact (haway _ _ hc).elim
  | _ => cases hc

/-- What receive remembers of the datagram while it reads the clock. -/
theorem receive_arrival {r : ReceivePos}
    (h : receive verbose w r e = some (v, .wait (.clock recvv id entry))) :
    ∃ d, v.delivered = w.delivered ++ [d] ∧ recvv = d.bytes.length ∧
      (2 ≤ d.bytes.length → id = answerId d) ∧ entry = v.context.datagramStart id := by
  unfold receive at h
  split at h
  all_goals cases h
  exact ⟨_, rfl, rfl, fun hlen => buffer_id hlen, rfl⟩

/-- The clock step of receive, wherever main was when the datagram came. -/
theorem next_elapsed {c : Outcome MainPos ℕ} (hc : receiving c = some (.clock recvv id entry))
    (now : ℕ) : ∃ v d, next P ρ verbose (w, c) ⟨now, .clock⟩ = some (v, d) ∧
      v.console = w.console ++
        if verbose then [.answer (id + 1) recvv (wrapSub 64 now entry), .newline] else [] := by
  have hinner : ∀ p, throttleReceiving p = some (.clock recvv id entry) →
      (∃ now' max, p = .first (.receive (.clock recvv id entry)) now' max) ∨
        ∃ now' remainingTime, p = .queue (.receive (.clock recvv id entry)) now' remainingTime := by
    intro p hp
    rcases p with _ | ⟨q, now', max⟩ | _ | _ | ⟨q, now', remainingTime⟩ | _
    all_goals try cases hp
    · left
      cases q with
      | receive r =>
        cases hp
        exact ⟨now', max, rfl⟩
      | status r => cases hp
    · right
      cases q with
      | receive r =>
        cases hp
        exact ⟨now', remainingTime, rfl⟩
      | status r => cases hp
  cases c with
  | wait p =>
    cases p with
    | throttle before p =>
      rcases hinner p hc with ⟨now', max, rfl⟩ | ⟨now', remainingTime, rfl⟩
      · exact ⟨_, _, rfl, rfl⟩
      · exact ⟨_, _, rfl, rfl⟩
    | drain first p =>
      rcases hinner p hc with ⟨now', max, rfl⟩ | ⟨now', remainingTime, rfl⟩
      · exact ⟨_, _, rfl, rfl⟩
      · exact ⟨_, _, rfl, rfl⟩
    | _ => cases hc
  | ret r => cases hc
  | stop k => cases hc

end Arrivals

/-- A process that reads the clock for an answer has that answer as its last delivered
datagram and the table entry of its id at hand. -/
def Arrived (s : State) : Prop :=
  ∀ recvv id entry, receiving s.2 = some (.clock recvv id entry) →
    ∃ d, s.1.delivered.getLast? = some d ∧ recvv = d.bytes.length ∧
      (2 ≤ d.bytes.length → id = answerId d) ∧ entry = s.1.context.datagramStart id

theorem execution_arrived {P : Platform} {ρ : ℕ → ℕ} {o : Options} {now : ℕ}
    {ok : State → Event → Prop} {es : List Event} {s : State}
    (h : Execution (next P ρ o.verbose) ok (start o now) es s) : Arrived s := by
  apply h.invariant (I := Arrived)
  · intro recvv id entry hr
    cases hr
  · rintro ⟨w, c⟩ e ⟨u, d⟩ - - hn recvv id entry hr
    obtain ⟨p, v, hp, hstep, ht⟩ := next_cases hn
    cases ht
    obtain ⟨r, hreceive⟩ := step_arrival hr hstep
    obtain ⟨d, hdelivered, hrecvv, hid, hentry⟩ := receive_arrival hreceive
    refine ⟨d, ?_, hrecvv, hid, hentry⟩
    simp only [hdelivered, List.getLast?_append, List.getLast?_singleton, Option.some_or]

theorem receiving_wait {c : Outcome MainPos ℕ} {r : ReceivePos} (h : receiving c = some r) :
    ∃ p, c = .wait p ∧ ∀ n, p ≠ .sendto n := by
  cases c with
  | wait p =>
    refine ⟨p, rfl, ?_⟩
    rintro n rfl
    cases h
  | ret r => cases h
  | stop k => cases h

/-- Little-endian and without fuzzing: for an answer that carries the id of a query already
sent, receive subtracts the reading that blast took for the last query with this id, in
any run and whatever was sent and received in between. -/
theorem latency_of_latest_send {P : Platform} {ρ : RandStream P} {o : Options} {now : ℕ}
    {es : List Event} {s : State} {recvv id entry : ℕ} {d : Datagram}
    (hP : P.littleEndian = true) (hfuzz : o.fuzz = false)
    (h : Execution (next P ρ.value o.verbose) Free (start o now) es s)
    (hpos : receiving s.2 = some (.clock recvv id entry))
    (hlast : s.1.delivered.getLast? = some d) (hlen : 2 ≤ d.bytes.length)
    (hsent : ∃ bytes ∈ s.1.wire, bytes.take 2 = d.bytes.take 2) :
    ∃ k sentAt, LatestSend s.1.wire (d.bytes.take 2) k ∧
      (sendTimes P ρ.value o.verbose (start o now) es)[k]? = some sentAt ∧ entry = sentAt ∧
      ∀ reading, ∃ v c, next P ρ.value o.verbose s ⟨reading, .clock⟩ = some (v, c) ∧
        v.console = s.1.console ++ if o.verbose then
          [.answer (id + 1) recvv (wrapSub 64 reading sentAt), .newline] else [] := by
  obtain ⟨k, hk⟩ := exists_latestSend hsent
  have hids := execution_ids hfuzz h
  have htabled := execution_tabled h
  obtain ⟨d', hd', -, hid, hentry⟩ := execution_arrived h recvv id entry hpos
  cases hlast.symm.trans hd'
  obtain ⟨p, hp, haway⟩ := receiving_wait hpos
  have hlength : (sendTimes P ρ.value o.verbose (start o now) es).length = s.1.wire.length := by
    rw [htabled.length_eq, calls_length h hp, handed_of_away (by simpa [hp] using haway)]
  have hanswer : id = k % 2 ^ 16 := by
    rw [hid hlen]
    exact answerId_of_idBytes hP (Nat.mod_lt _ (by decide)) (hk.carries ▸ hids k hk.sent)
  have hkt : k < (sendTimes P ρ.value o.verbose (start o now) es).length := hlength ▸ hk.sent
  refine ⟨k, entry, hk, ?_, rfl, ?_⟩
  · rw [List.getElem?_eq_getElem hkt, ← htabled.entry k hkt, hentry, hanswer]
    intro j hj hkj heq
    rw [hlength] at hj
    apply hk.latest j hj hkj
    rw [hids j hj, heq, ← hids k hk.sent]
    exact hk.carries
  · intro reading
    exact next_elapsed hpos reading

/-- The answer 00 00 to the only query sent. -/
theorem latency_of_latest_send_one_query : ∃ es s k sentAt, ∃ d : Datagram,
    Execution (next glibc (constantStream glibc 0 (by decide)).value slow.verbose) Free
      (start slow 0) es s ∧
    s.1.delivered = [d] ∧ LatestSend s.1.wire (d.bytes.take 2) k ∧
    (sendTimes glibc (constantStream glibc 0 (by decide)).value slow.verbose
      (start slow 0) es)[k]? = some sentAt := by
  let ρ := constantStream glibc 0 (by decide)
  let answer : Datagram := ⟨[0, 0], by decide, some 0⟩
  obtain ⟨es, ⟨w, c⟩, h, hdelivered, hwire, before, now', remainingTime, hpos⟩ :=
    arrivals_possible glibc ρ.value slow 0 []
  cases hpos
  have hnone : w.delivered = [] := hdelivered
  obtain ⟨v, recvv, id, entry, hn, hv, hvwire⟩ : ∃ v recvv id entry,
      next glibc ρ.value slow.verbose
        (w, .wait (.throttle before (.queue (.receive .recv) now' remainingTime)))
        ⟨0, .received answer fun _ => 0⟩ =
      some (v, .wait (.throttle before
        (.queue (.receive (.clock recvv id entry)) now' remainingTime))) ∧
      v.delivered = w.delivered ++ [answer] ∧ v.wire = w.wire := ⟨_, _, _, _, rfl, rfl, rfl⟩
  have hrun := h.tail trivial hn
  have hone : 0 < v.wire.length := by
    rw [hvwire]
    exact hwire.symm ▸ Nat.zero_lt_one
  have hids := execution_ids rfl hrun 0 hone
  obtain ⟨k, sentAt, hk, htime, -⟩ := @latency_of_latest_send glibc ρ slow 0 _ _ recvv id entry
    answer rfl rfl hrun rfl (by simp [hv, hnone]) (by decide)
    ⟨v.wire[0], List.getElem_mem _, hids.trans (by decide)⟩
  exact ⟨_, _, k, sentAt, answer, hrun, by simp [hv, hnone], hk, htime⟩

end BlastLatency
