import Mathlib
import DnsBlast.PrefixCodes

/-! A reader for the query part of the DNS message format: a 12-byte header and
one question. Names are labels of 1 to 63 bytes closed by the first zero length
byte; compression pointers are rejected, since a query has nothing to point to. -/
namespace DnsReader

open PrefixCodes

abbrev Label := List UInt8

def readName : List UInt8 → Option (List Label × List UInt8)
  | [] => none
  | len :: rest =>
    if len = 0 then some ([], rest)
    else if len.toNat ≤ 63 ∧ len.toNat ≤ rest.length then
      (readName (rest.drop len.toNat)).map fun (ls, suffix) =>
        (rest.take len.toNat :: ls, suffix)
    else none
termination_by bytes => bytes.length
decreasing_by simp only [List.length_drop, List.length_cons]; omega

def wireLabel (l : Label) : List UInt8 := UInt8.ofNat l.length :: l

def wireName (ls : List Label) : List UInt8 := ls.flatMap wireLabel ++ [0]

@[simp] theorem wireName_nil : wireName [] = [0] := rfl

@[simp] theorem wireName_cons (l : Label) (ls : List Label) :
    wireName (l :: ls) = UInt8.ofNat l.length :: (l ++ wireName ls) := by
  simp [wireName, wireLabel]

def wireLength (ls : List Label) : ℕ := 1 + (ls.map fun l => l.length + 1).sum

theorem wireName_length (ls : List Label) : (wireName ls).length = wireLength ls := by
  induction ls with
  | nil => rfl
  | cons l ls ih => simp [ih, wireLength]; omega

theorem wireLength_cons (l : Label) (ls : List Label) :
    wireLength (l :: ls) = l.length + 1 + wireLength ls := by
  simp [wireLength]; omega

theorem length_le_wireLength {l : Label} {ls : List Label} (h : l ∈ ls) :
    l.length + 2 ≤ wireLength ls := by
  induction ls with
  | nil => simp at h
  | cons k ls ih =>
    rw [wireLength_cons]
    rcases List.mem_cons.mp h with rfl | h
    · simp only [wireLength]; omega
    · have := ih h; omega

theorem count_le_wireLength (ls : List Label) : ls.length + 1 ≤ wireLength ls := by
  induction ls with
  | nil => simp [wireLength]
  | cons l ls ih => rw [wireLength_cons, List.length_cons]; omega

def ProperLabel (l : Label) : Prop := 1 ≤ l.length ∧ l.length ≤ 63

instance (l : Label) : Decidable (ProperLabel l) :=
  inferInstanceAs (Decidable (_ ∧ _))

theorem toNat_ofNat_length {l : Label} (h : l.length ≤ 255) :
    (UInt8.ofNat l.length).toNat = l.length := by
  rw [UInt8.toNat_ofNat']
  omega

/-- The reader inverts the encoding of proper labels, whatever follows them. -/
theorem readName_wireName {ls : List Label} (h : ∀ l ∈ ls, ProperLabel l)
    (suffix : List UInt8) : readName (wireName ls ++ suffix) = some (ls, suffix) := by
  induction ls with
  | nil => simp [readName]
  | cons l ls ih =>
    have hl : ProperLabel l := h l List.mem_cons_self
    have hn : (UInt8.ofNat l.length).toNat = l.length :=
      toNat_ofNat_length (by have := hl.2; omega)
    have hz : UInt8.ofNat l.length ≠ 0 := by
      intro hz
      rw [hz] at hn
      have := hl.1
      simp at hn
      omega
    have hr := ih fun k hk => h k (List.mem_cons_of_mem _ hk)
    rw [wireName_cons, List.cons_append, readName, if_neg hz, if_pos, hn, List.append_assoc,
      List.drop_left, List.take_left, hr]
    · rfl
    · rw [hn]
      exact ⟨hl.2, by simp⟩

/-- What the reader consumes is the encoding of the labels it returns. -/
theorem readName_sound {bytes : List UInt8} {ls : List Label} {suffix : List UInt8}
    (h : readName bytes = some (ls, suffix)) :
    bytes = wireName ls ++ suffix ∧ ∀ l ∈ ls, ProperLabel l := by
  induction bytes using readName.induct generalizing ls suffix with
  | case1 => simp [readName] at h
  | case2 rest =>
    simp only [readName, if_pos, Option.some.injEq, Prod.mk.injEq] at h
    obtain ⟨rfl, rfl⟩ := h
    simp
  | case3 len rest hz hb ih =>
    rw [readName, if_neg hz, if_pos hb] at h
    obtain ⟨⟨ks, tail⟩, hr, hk⟩ := Option.map_eq_some_iff.mp h
    simp only [Prod.mk.injEq] at hk
    obtain ⟨rfl, rfl⟩ := hk
    obtain ⟨hrest, hks⟩ := ih hr
    have hlen : (rest.take len.toNat).length = len.toNat := by
      simp only [List.length_take]; omega
    constructor
    · rw [wireName_cons, hlen, UInt8.ofNat_toNat, List.cons_append, List.append_assoc,
        ← hrest, List.take_append_drop]
    · intro l hl
      rcases List.mem_cons.mp hl with rfl | hl
      · refine ⟨?_, by omega⟩
        have : len.toNat ≠ 0 := fun h0 => hz (UInt8.toNat_inj.mp (by simpa using h0))
        omega
      · exact hks l hl
  | case4 len rest hz hb => simp [readName, hz, hb] at h

/-- Length bytes tell any labels apart that they can count, empty ones included. -/
theorem wireLabel_prefixFree : PrefixFree (wireLabel '' {l | l.length ≤ 255}) := by
  have htag : ∀ k ∈ {l : Label | l.length ≤ 255}, ∀ l ∈ {l : Label | l.length ≤ 255},
      UInt8.ofNat k.length = UInt8.ofNat l.length → k.length = l.length := by
    intro k hk l hl h
    rw [← toNat_ofNat_length hk, ← toNat_ofNat_length hl, h]
  exact tagged_prefixFree htag

theorem wireLabel_injective : Function.Injective wireLabel := by
  intro k l h
  exact (List.cons.inj h).2

theorem wireName_injOn {ks ls : List Label} (hk : ∀ l ∈ ks, l.length ≤ 255)
    (hl : ∀ l ∈ ls, l.length ≤ 255) (h : wireName ks = wireName ls) : ks = ls := by
  have hne : [] ∉ wireLabel '' {l | l.length ≤ 255} := by
    rintro ⟨l, -, hnil⟩
    cases hnil
  exact flatMap_injOn (wireLabel_prefixFree.uniquelyDecodable hne) wireLabel_injective.injOn hk hl
    (List.append_cancel_right h)

/-- The reader takes the encoding to its end only if every label is proper: an empty label
ends the name early, a longer one is no label. -/
theorem readName_wireName_iff {ls : List Label} (h : ∀ l ∈ ls, l.length ≤ 255) :
    (∃ ks, readName (wireName ls) = some (ks, [])) ↔ ∀ l ∈ ls, ProperLabel l := by
  constructor
  · rintro ⟨ks, hread⟩
    obtain ⟨hbytes, hks⟩ := readName_sound hread
    rw [List.append_nil] at hbytes
    have hle : ∀ l ∈ ks, l.length ≤ 255 := by
      intro l hl
      have := (hks l hl).2
      omega
    rw [wireName_injOn h hle hbytes]
    exact hks
  · intro hp
    have hread := readName_wireName hp []
    rw [List.append_nil] at hread
    exact ⟨ls, hread⟩

structure Header where
  id : ℕ
  flags : ℕ
  qdcount : ℕ
  ancount : ℕ
  nscount : ℕ
  arcount : ℕ
  deriving DecidableEq, Repr

structure Question where
  labels : List Label
  qtype : ℕ
  qclass : ℕ
  deriving DecidableEq, Repr

def readU16 : List UInt8 → Option (ℕ × List UInt8)
  | hi :: lo :: rest => some (hi.toNat * 256 + lo.toNat, rest)
  | _ => none

def readHeader (bytes : List UInt8) : Option (Header × List UInt8) := do
  let (id, bytes) ← readU16 bytes
  let (flags, bytes) ← readU16 bytes
  let (qdcount, bytes) ← readU16 bytes
  let (ancount, bytes) ← readU16 bytes
  let (nscount, bytes) ← readU16 bytes
  let (arcount, bytes) ← readU16 bytes
  return (⟨id, flags, qdcount, ancount, nscount, arcount⟩, bytes)

def readQuestion (bytes : List UInt8) : Option (Question × List UInt8) := do
  let (labels, bytes) ← readName bytes
  let (qtype, bytes) ← readU16 bytes
  let (qclass, bytes) ← readU16 bytes
  return (⟨labels, qtype, qclass⟩, bytes)

def readMessage (bytes : List UInt8) : Option (Header × Question × List UInt8) := do
  let (header, bytes) ← readHeader bytes
  let (question, bytes) ← readQuestion bytes
  return (header, question, bytes)

/-- A recursive query with exactly one question, of one of `types` and of class
`qclass`, and nothing after it. -/
def WellFormedQuery (types : List ℕ) (qclass : ℕ) (bytes : List UInt8) : Prop :=
  ∃ header question, readMessage bytes = some (header, question, []) ∧
    header.flags = 0x0100 ∧ header.qdcount = 1 ∧ header.ancount = 0 ∧
    header.nscount = 0 ∧ header.arcount = 0 ∧
    question.qtype ∈ types ∧ question.qclass = qclass

theorem readQuestion_wireName {ls : List Label} (h : ∀ l ∈ ls, ProperLabel l)
    (t₁ t₀ c₁ c₀ : UInt8) (suffix : List UInt8) :
    readQuestion (wireName ls ++ t₁ :: t₀ :: c₁ :: c₀ :: suffix) =
      some (⟨ls, t₁.toNat * 256 + t₀.toNat, c₁.toNat * 256 + c₀.toNat⟩, suffix) := by
  simp [readQuestion, readName_wireName h, readU16]

end DnsReader
