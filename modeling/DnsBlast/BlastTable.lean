import DnsBlast.BlastReplies

/-! The indices used on datagram_start. The table has MAX_UDP_DATA_SIZE entries, the
16-bit ids that index it run up to 65535. -/
namespace BlastTable

open ByteStores LabelledRuns BlastHeader BlastQuery BlastSyscalls BlastReceive BlastMain
  BlastTraffic BlastRealization BlastReplies

/-- The fields of Context from datagram_start on, in units of an unsigned long long. -/
inductive ContextSlot where
  | datagramStart
  | failedPackets
  | timeout
  | rate
  | sockIdFuzzSending
  | pastTheEnd
  deriving DecidableEq

def contextSlot (i : ℕ) : ContextSlot :=
  if i < maxUdpDataSize then .datagramStart
  else if i = maxUdpDataSize then .failedPackets
  else if i = maxUdpDataSize + 1 then .timeout
  else if i = maxUdpDataSize + 2 then .rate
  else if i = maxUdpDataSize + 3 then .sockIdFuzzSending
  else .pastTheEnd

def answerId (d : Datagram) : ℕ := (d.bytes.getD 1 0).toNat <<< 8 + (d.bytes.getD 0 0).toNat

theorem headerId_query (P : Platform) (m : Memory) {id : ℕ} (hid : id < 2 ^ 16)
    (name : List UInt8) (type : ℕ) :
    headerId P (applyStores m (queryStores P id name type).1) = id := by
  obtain ⟨bs, hs, hp⟩ := encodeName_stores sizeofHeader questionRoom name
  have hbody : ∀ a < 2, applyStores m (queryStores P id name type).1 a =
      applyStores m (storesAt 0 (hostU16 P id)) a := by
    intro a ha
    simp only [queryStores, hs, applyStores_append]
    have hh : sizeofHeader = 12 := rfl
    rw [applyStores_storesAt_outside (by omega), applyStores_storesAt_outside (by omega)]
  rw [headerId, hbody 0 (by decide), hbody 1 (by decide)]
  unfold hostU16
  split_ifs
  · exact toNat_putHtons hid
  · exact toNat_putHtons hid

/-- blast stores under the id of its query. -/
theorem tableIndex_eq (P : Platform) {w : World} (hid : w.context.id < 2 ^ 16) :
    tableIndex P w = w.context.id :=
  headerId_query P w.context.question hid w.name w.type

structure Numbered (n : ℕ) (s : Sender) : Prop where
  id : s.id = n % 2 ^ 16
  calls : s.calls.length = n
  stores : s.tableStores = (List.range n).map (· % 2 ^ 16)

theorem Numbered.next {P : Platform} {ρ : ℕ → ℕ} {ask : Asker} {n : ℕ} {s : Sender}
    (h : Numbered n s) : Numbered (n + 1) (nextSender P ρ ask s).1 := by
  have hid : s.id < 2 ^ 16 := h.id ▸ Nat.mod_lt _ (by decide)
  have hnext : (s.id + 1) % 2 ^ 16 = (n + 1) % 2 ^ 16 := by
    rw [h.id, Nat.mod_add_mod]
  have hstores : s.tableStores ++ [s.id] = (List.range (n + 1)).map (· % 2 ^ 16) := by
    rw [h.stores, h.id, List.range_succ, List.map_append]
    rfl
  simp only [nextSender, headerId_query P s.question hid]
  split_ifs
  · exact ⟨hnext, by simp [h.calls], hstores⟩
  · exact ⟨hnext, by simp [h.calls], hstores⟩

theorem traffic_numbered (P : Platform) (ρ : ℕ → ℕ) (ask : Asker) (fuzz : Bool) (n : ℕ) :
    Numbered n (traffic P ρ ask (firstSender fuzz) n).sender := by
  apply traffic_invariant (I := fun n g => Numbered n g.sender)
  · exact ⟨rfl, rfl, rfl⟩
  · intro n g _ h
    exact h.next

theorem execution_numbered {P : Platform} {ρ : ℕ → ℕ} {o : Options} {now : ℕ}
    {ok : State → Event → Prop} {es : List Event} {s : State}
    (h : Execution (next P ρ o.verbose) ok (start o now) es s) :
    Numbered s.1.calls.length s.1.sender := by
  obtain ⟨n, hn⟩ := execution_emits h
  have hnumbered := traffic_numbered P ρ (ask P ρ) o.fuzz n
  rw [hn.sender] at hnumbered
  have hcalls : s.1.calls.length = n := hnumbered.calls
  rw [hcalls]
  exact hnumbered

/-- A call of blast has handed a datagram to sendto. -/
theorem calls_length {P : Platform} {ρ : ℕ → ℕ} {o : Options} {now : ℕ}
    {ok : State → Event → Prop} {es : List Event} {s : State}
    (h : Execution (next P ρ o.verbose) ok (start o now) es s) {p : MainPos}
    (hp : s.2 = .wait p) : s.1.calls.length = (handed s).length := by
  obtain ⟨n, hn⟩ := execution_emits h
  have hcalls := (traffic_numbered P ρ (ask P ρ) o.fuzz n).calls
  rw [hn.sender] at hcalls
  rw [← hn.running p hp, traffic_length]
  exact hcalls

/-- The indices stay in the table until id 65507 comes up. -/
theorem Numbered.in_table_iff {n : ℕ} {s : Sender} (h : Numbered n s) :
    (∀ i ∈ s.tableStores, i < maxUdpDataSize) ↔ n ≤ maxUdpDataSize := by
  have hmax : maxUdpDataSize = 65507 := rfl
  simp only [h.stores, List.forall_mem_map, List.mem_range]
  constructor
  · intro hall
    by_contra hn
    have := hall 65507 (by omega)
    omega
  · intro hn i hi
    have := Nat.mod_le i (2 ^ 16)
    omega

/-- received_id of datagrams that are long enough to have one. -/
def LoadsOwnIds (_ : Bool) (r : Replies) : Prop :=
  (∀ d ∈ r.delivered, 2 ≤ d.bytes.length) → r.tableLoads = r.delivered.map answerId

theorem buffer_id {d : Datagram} {stale : Memory} (hd : 2 ≤ d.bytes.length) :
    let buf := Function.update (applyStores stale (storesAt 0 d.bytes)) d.bytes.length 0
    (buf 1).toNat <<< 8 + (buf 0).toNat = answerId d := by
  have hbyte : ∀ i, i < 2 →
      Function.update (applyStores stale (storesAt 0 d.bytes)) d.bytes.length 0 i =
        d.bytes.getD i 0 := by
    intro i hi
    have hlt : i < d.bytes.length := by omega
    rw [Function.update_of_ne (by omega), List.getD_eq_getElem _ _ hlt]
    have hread := @applyStores_storesAt_getElem stale 0 i d.bytes hlt
    rwa [Nat.zero_add] at hread
  simp only [answerId]
  rw [hbyte 0 (by decide), hbyte 1 (by decide)]

theorem loadsOwnIds_receive {verbose : Bool} {w v : World} {p : ReceivePos} {e : Event}
    {c : Outcome ReceivePos ℕ} (h : LoadsOwnIds p.pending w.replies)
    (hr : receive verbose w p e = some (v, c)) :
    LoadsOwnIds (c.holds ReceivePos.pending) v.replies := by
  unfold receive at hr
  split at hr
  all_goals cases hr
  · intro hlong
    simp only [World.replies, List.forall_mem_append, List.forall_mem_singleton] at hlong
    have hold : w.tableLoads = w.delivered.map answerId := h hlong.1
    simp only [World.replies, hold, buffer_id hlong.2, List.map_append, List.map_singleton]
  · exact h
  · exact h
  · exact h
  · exact h

/-- When every datagram received has an id, all indices lie in the table, and no send
time falls on a field behind it, exactly while blast has been called at most
MAX_UDP_DATA_SIZE times and every id received is below MAX_UDP_DATA_SIZE. -/
theorem indices_in_table_iff {P : Platform} {ρ : RandStream P} {o : Options} {now : ℕ}
    {es : List Event} {s : State}
    (h : Execution (next P ρ.value o.verbose) Free (start o now) es s)
    (hd : ∀ d ∈ s.1.delivered, 2 ≤ d.bytes.length) :
    ((∀ i ∈ s.1.tableStores ++ s.1.tableLoads, i < maxUdpDataSize) ∧
      ∀ i ∈ s.1.tableStores, contextSlot i = .datagramStart) ↔
    s.1.calls.length ≤ maxUdpDataSize ∧ ∀ d ∈ s.1.delivered, answerId d < maxUdpDataSize := by
  have hloads : s.1.tableLoads = s.1.delivered.map answerId :=
    execution_replies (J := LoadsOwnIds) loadsOwnIds_receive (fun _ => rfl) h hd
  have hstores : (∀ i ∈ s.1.tableStores, i < maxUdpDataSize) ↔ _ :=
    (execution_numbered h).in_table_iff
  have hslots : (∀ i ∈ s.1.tableStores, i < maxUdpDataSize) →
      ∀ i ∈ s.1.tableStores, contextSlot i = .datagramStart :=
    fun hlt i hi => if_pos (hlt i hi)
  rw [List.forall_mem_append, hloads, List.forall_mem_map, ← hstores]
  exact ⟨fun h => h.1, fun h => ⟨h, hslots h.1⟩⟩

/-- A reply whose first two bytes are ff fe, low byte first. -/
theorem indices_in_table_iff_small_reply : ∃ es s,
    Execution (next glibc (constantStream glibc 0 (by decide)).value slow.verbose) Free
      (start slow 0) es s ∧
    s.1.delivered.map answerId = [0xfeff] ∧
    ((∀ i ∈ s.1.tableStores ++ s.1.tableLoads, i < maxUdpDataSize) ∧
      ∀ i ∈ s.1.tableStores, contextSlot i = .datagramStart) := by
  let ρ := constantStream glibc 0 (by decide)
  let answer : Datagram := ⟨[0xff, 0xfe], by decide, none⟩
  obtain ⟨es, s, h, hdelivered, hwire, _, _, _, hpos⟩ :=
    arrivals_possible glibc ρ.value slow 0 [answer]
  have hcalls : s.1.calls.length = 1 := by
    rw [calls_length h hpos, handed_of_away (by simp [hpos]), hwire]
  refine ⟨es, s, h, by rw [hdelivered]; decide, (indices_in_table_iff h ?_).mpr ⟨?_, ?_⟩⟩
  · simp [hdelivered, answer]
  · rw [hcalls]
    decide
  · rw [hdelivered, List.forall_mem_singleton]
    decide

/-- `-c 65508 -s 1`. -/
def pastTheTable : Options :=
  { slow with sendCount := 65508, sendCount_pos := by decide, sendCount_lt := by decide }

/-- With no reply at all, the send time of query 65508 falls on failed_packets. -/
theorem send_time_overwrites_failedPackets : ∃ es s,
    Execution (next glibc (constantStream glibc 0 (by decide)).value pastTheTable.verbose) Free
      (start pastTheTable 0) es s ∧ s.1.delivered = [] ∧
    ∃ i ∈ s.1.tableStores, ¬ i < maxUdpDataSize ∧ contextSlot i = .failedPackets := by
  let ρ := constantStream glibc 0 (by decide)
  have hcount : 65507 < pastTheTable.sendCount := Nat.lt_succ_self 65507
  obtain ⟨es, w, size, h, hlen, hnone⟩ := packet_reachable glibc ρ.value pastTheTable 0 hcount
  have hcalls : w.calls.length = 65508 := by
    have hlength : (handed (w, .wait (.sendto size))).length = w.wire.length + 1 :=
      List.length_append
    rw [calls_length h rfl, hlength, hlen]
  have hstores : w.tableStores = (List.range 65508).map (· % 2 ^ 16) :=
    hcalls ▸ (execution_numbered h).stores
  refine ⟨es, _, h, hnone, 65507, ?_, by decide, by decide⟩
  rw [hstores]
  exact List.mem_map.mpr ⟨65507, List.mem_range.mpr (Nat.lt_succ_self 65507), rfl⟩

end BlastTable
