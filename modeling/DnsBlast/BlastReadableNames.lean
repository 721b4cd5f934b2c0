import DnsBlast.BlastEncodeOverrun
import DnsBlast.BlastQuestion

/-! What a reader of DNS names makes of the bytes that encode_name leaves behind when it
returns 0. The encoder gives every label its length byte, also an empty one and one of
64 to 255 bytes; a reader takes the first for the end of the name and refuses the second. -/
namespace BlastReadableNames

open ByteStores DnsReader BlastHeader BlastEncodeName BlastEncodeOverrun BlastQuestion

def written (m : Memory) (p n : ℕ) (name : List UInt8) : List UInt8 :=
  let r := encodeName p n name
  readBytes (applyStores m r.stores) p (r.encodedPtr - p)

/-- encode_name refuses none of the labels: none is too long for its length byte, and
the counter in front of each is a size_t that covers it. -/
structure Admits (n : ℕ) (ls : List Label) : Prop where
  short : ∀ l ∈ ls, l.length ≤ ucharMax
  counted : ∀ i < ls.length, n - 1 + 2 * i < 2 ^ 64 + prefixBytes ls i
  room : ∀ i < ls.length, prefixBytes ls (i + 1) ≤ n - 1 + 2 * i

theorem encodeLabels_admits {n : ℕ} (hn : n - 1 < 2 ^ 64) (ls : List Label) :
    (encodeLabels (n - 1) ls).2 = true ↔ Admits n ls := by
  obtain ⟨hle, hb, -⟩ := encodeLabels_accepted (n - 1) ls
  have hall : (encodeLabels (n - 1) ls).2 = true ↔ ls.length ≤ accepted (n - 1) ls := by
    rw [hb]
    omega
  rw [hall, le_accepted_iff hn, List.take_length]
  constructor
  · rintro ⟨-, hshort, hroom⟩
    exact ⟨hshort, fun i hi => (hroom i hi).1, fun i hi => (hroom i hi).2⟩
  · intro h
    exact ⟨le_rfl, h.short, fun i hi => ⟨h.counted i hi, h.room i hi⟩⟩

theorem encodeName_admits {n : ℕ} (hn : n - 1 < 2 ^ 64) (p : ℕ) (name : List UInt8) :
    (encodeName p n name).ret = 0 ↔ Admits n (labels name) := by
  rw [← encodeLabels_admits hn, encodeName_eq]
  simp only [resultOf]
  split_ifs with hb
  · simp [hb]
  · simp [hb]

theorem written_of_success {m : Memory} {p n : ℕ} {name : List UInt8}
    (h : (encodeName p n name).ret = 0) : written m p n name = wireName (labels name) := by
  obtain ⟨he, -⟩ := encodeName_success h
  simp only [written, he, Nat.add_sub_cancel_left, ← wireName_length]
  exact readBytes_storesAt m p _

/-- A return value of 0 means one readable name exactly when every label is proper, or
the name is rejected in the first place. -/
theorem encode_name_readable_iff {n : ℕ} (hn : 1 ≤ n) (hmax : n ≤ maxUdpDataSize) (m : Memory)
    (p : ℕ) (name : List UInt8) :
    ((encodeName p n name).ret = 0 → ∃ ls, readName (written m p n name) = some (ls, [])) ↔
    (∀ l ∈ labels name, ProperLabel l) ∨ ¬ Admits n (labels name) := by
  have hroom : n - 1 < 2 ^ 64 := by
    have : maxUdpDataSize = 65507 := rfl
    omega
  rw [encodeName_admits hroom]
  by_cases ha : Admits n (labels name)
  · have hret := (encodeName_admits hroom p name).mpr ha
    rw [written_of_success hret, readName_wireName_iff ha.short]
    simp [ha]
  · simp [ha]

theorem encode_name_readable_iff_one_label :
    (1 ≤ 3 ∧ 3 ≤ maxUdpDataSize) ∧ ((encodeName 0 3 [97]).ret = 0 →
      ∃ ls, readName (written (fun _ => 0) 0 3 [97]) = some (ls, [])) :=
  ⟨by decide, (encode_name_readable_iff (n := 3) (by decide) (by decide) _ 0 [97]).mpr
    (Or.inl (by decide))⟩

/-- The name "." that main starts with: three zero bytes, of which the first ends the name. -/
theorem root_name_unreadable :
    ¬ ∀ n : ℕ, 1 ≤ n → n ≤ maxUdpDataSize → ∀ (m : Memory) (p : ℕ) (name : List UInt8),
      (encodeName p n name).ret = 0 →
      ∃ ls, readName (written m p n name) = some (ls, []) := by
  intro h
  have hrun : encodeName 0 512 initialName = ⟨0, [(0, 0), (1, 0), (2, 0)], 3⟩ := by
    rw [encodeName_eq]
    decide
  obtain ⟨ls, hread⟩ := h 512 (by decide) (by decide) (fun _ => 0) 0 initialName (by rw [hrun])
  have hbytes : written (fun _ => 0) 0 512 initialName = [0, 0, 0] := by
    rw [written, hrun]
    decide
  rw [hbytes, readName, if_pos rfl] at hread
  cases hread

end BlastReadableNames
