import DnsBlast.BlastWellFormed

/-! The datagram as a function of the query. The question buffer keeps the remains of
earlier queries behind the current one and is never cleared, but nothing of them is sent;
and without fuzzing a datagram tells which id, name and type it was made from. -/
namespace BlastDatagram

open ByteStores DnsReader LabelledRuns BlastHeader BlastEncodeName BlastQuery BlastSyscalls
  BlastMain BlastTraffic BlastWellFormed

theorem putHtons_injOn {x y : ℕ} (hx : x < 2 ^ 16) (hy : y < 2 ^ 16)
    (h : putHtons x = putHtons y) : x = y := by
  simp only [putHtons, List.cons.injEq] at h
  rw [← toNat_putHtons hx, ← toNat_putHtons hy, h.1, h.2.1]

theorem hostU16_injOn {P : Platform} {x y : ℕ} (hx : x < 2 ^ 16) (hy : y < 2 ^ 16)
    (h : hostU16 P x = hostU16 P y) : x = y := by
  unfold hostU16 at h
  split_ifs at h
  · exact putHtons_injOn hx hy (List.reverse_injective h)
  · exact putHtons_injOn hx hy h

end BlastDatagram
