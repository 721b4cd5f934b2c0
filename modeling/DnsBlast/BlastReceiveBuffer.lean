import DnsBlast.BlastTraffic

/-! The local buffer of receive. It has MAX_UDP_DATA_SIZE bytes and is not initialised;
recv fills as much of it as the datagram is long, a zero is stored behind that, and the
first two bytes are read, however many have arrived. -/
namespace BlastReceiveBuffer

open ByteStores BlastHeader BlastQuery BlastSyscalls BlastReceive BlastMain BlastTraffic

def bufStores (d : Datagram) : List Store := storesAt 0 d.bytes ++ [(d.bytes.length, 0)]

/-- The indices at which receive accesses buf: these stores and the two bytes of the id. -/
def bufAccesses (d : Datagram) : List ℕ := (bufStores d).map Prod.fst ++ [1, 0]

def receivedId (d : Datagram) (stale : Memory) : ℕ :=
  (applyStores stale (bufStores d) 1).toNat <<< 8 + (applyStores stale (bufStores d) 0).toNat

/-- receive reads the table at received_id and passes on nothing else of buf. -/
theorem receive_datagram (verbose : Bool) (w : World) (time : ℕ) (d : Datagram) (stale : Memory) :
    receive verbose w .recv ⟨time, .received d stale⟩ =
      some ({ w with tableLoads := w.tableLoads ++ [receivedId d stale]
                     delivered := w.delivered ++ [d] },
        .wait (.clock d.bytes.length (receivedId d stale)
          (w.context.datagramStart (receivedId d stale)))) := by
  simp only [receive, receivedId, bufStores, applyStores_append]
  rfl

theorem bufAccesses_inside_iff (d : Datagram) :
    (∀ i ∈ bufAccesses d, i < maxUdpDataSize) ↔ d.bytes.length < maxUdpDataSize := by
  have hmax : maxUdpDataSize = 65507 := rfl
  simp only [bufAccesses, bufStores, List.map_append, List.forall_mem_append, List.forall_mem_map,
    storesAt_below_iff]
  constructor
  · intro h
    simpa using h.1.2
  · intro h
    refine ⟨⟨Or.inr (by omega), by simpa using h⟩, ?_⟩
    simp [hmax]

theorem buf_covered {d : Datagram} {i : ℕ} (hi : i ≤ d.bytes.length) (stale stale' : Memory) :
    applyStores stale (bufStores d) i = applyStores stale' (bufStores d) i := by
  apply applyStores_congr
  right
  by_cases hend : i = d.bytes.length
  · exact ⟨(i, 0), by simp [bufStores, hend], rfl⟩
  · obtain ⟨b, hb⟩ := exists_mem_storesAt (Nat.zero_le i)
      (show i < 0 + d.bytes.length by omega)
    exact ⟨(i, b), List.mem_append_left _ hb, rfl⟩

theorem buf_uncovered {d : Datagram} {i : ℕ} (hi : d.bytes.length < i) (stale : Memory) :
    applyStores stale (bufStores d) i = stale i := by
  apply applyStores_frame
  simp only [bufStores, List.forall_mem_append, List.forall_mem_singleton]
  constructor
  · intro w hw
    have := mem_storesAt_bounds hw
    omega
  · exact hi.ne

/-- An empty datagram leaves the second byte of the id as it was. -/
theorem receivedId_stale_free_iff (d : Datagram) :
    (∀ stale stale', receivedId d stale = receivedId d stale') ↔ 1 ≤ d.bytes.length := by
  constructor
  · intro h
    by_contra hlen
    have heq := h (fun _ => 0) (Function.update (fun _ => 0) 1 1)
    simp only [receivedId, buf_uncovered (show d.bytes.length < 1 by omega),
      buf_covered (Nat.zero_le _) (Function.update (fun _ => 0) 1 1) (fun _ => 0)] at heq
    simp at heq
  · intro hlen stale stale'
    rw [receivedId, receivedId, buf_covered hlen stale stale',
      buf_covered (Nat.zero_le _) stale stale']

theorem receive_stale_free_iff (d : Datagram) :
    (∀ verbose w time stale stale', receive verbose w .recv ⟨time, .received d stale⟩ =
      receive verbose w .recv ⟨time, .received d stale'⟩) ↔ 1 ≤ d.bytes.length := by
  rw [← receivedId_stale_free_iff]
  constructor
  · intro h stale stale'
    have heq := h false (start slow 0).1 0 stale stale'
    rw [receive_datagram, receive_datagram, Option.some.injEq] at heq
    have hloads := congrArg (fun r => r.1.tableLoads) heq
    simpa using hloads
  · intro h verbose w time stale stale'
    rw [receive_datagram, receive_datagram, h stale stale']

/-- receive stays inside buf, and what it does depends on the datagram alone, exactly for
datagrams that are neither empty nor as long as the buffer. -/
theorem receive_buffer_iff (d : Datagram) :
    ((∀ i ∈ bufAccesses d, i < maxUdpDataSize) ∧
      ∀ verbose w time stale stale', receive verbose w .recv ⟨time, .received d stale⟩ =
        receive verbose w .recv ⟨time, .received d stale'⟩) ↔
    1 ≤ d.bytes.length ∧ d.bytes.length < maxUdpDataSize := by
  rw [bufAccesses_inside_iff, receive_stale_free_iff]
  exact and_comm

/-- The largest datagram pushes the terminating zero out of the buffer, and the empty one
leaves the id to chance. -/
theorem extreme_datagrams :
    (¬ ∀ d : Datagram, ∀ i ∈ bufAccesses d, i < maxUdpDataSize) ∧
    ¬ ∀ (d : Datagram) verbose w time stale stale',
      receive verbose w .recv ⟨time, .received d stale⟩ =
        receive verbose w .recv ⟨time, .received d stale'⟩ := by
  constructor
  · intro h
    let d : Datagram := ⟨List.replicate maxUdpDataSize 0, List.length_replicate.le, none⟩
    have hlen : d.bytes.length = maxUdpDataSize := List.length_replicate
    have hlt := (bufAccesses_inside_iff d).mp (h d)
    omega
  · intro h
    have hlen := (receive_stale_free_iff ⟨[], Nat.zero_le _, none⟩).mp (h _)
    exact absurd hlen (by decide)

end BlastReceiveBuffer
