import DnsBlast.WrappingIntegers
import DnsBlast.ByteStores
import DnsBlast.DnsReader
import DnsBlast.BlastHeader

/-! The label encoder of dnsblast.c. A NUL-terminated name is a list of bytes; its
characters are those before the first zero byte or the end of the list, so a
buffer with stale bytes behind its terminator is a name as well. -/
namespace BlastEncodeName

open WrappingIntegers ByteStores DnsReader BlastHeader

def ucharMax : ℕ := 255

def dot : UInt8 := 46

/-- `name[i]`; the terminating zero stands behind the last byte of the list. -/
def charAt (name : List UInt8) (i : ℕ) : UInt8 := name.getD i 0

theorem charAt_past_end {name : List UInt8} {i : ℕ} (h : name.length ≤ i) :
    charAt name i = 0 := by
  simp [charAt, List.getElem?_eq_none h]

def componentLenFrom (namePos : ℕ) : List UInt8 → Option ℕ
  | [] => some namePos
  | c :: rest =>
    if c = dot ∨ c = 0 then some namePos
    else if ucharMax ≤ namePos then none
    else componentLenFrom (namePos + 1) rest

/-- `none` is EOF. -/
def findNameComponentLen (name : List UInt8) : Option ℕ := componentLenFrom 0 name

structure EncodeResult where
  ret : ℤ
  stores : List Store
  encodedPtr : ℕ
  deriving DecidableEq

/-- The loop of encode_name. `encodedSize` is a size_t and is adjusted without sign. -/
def encodeNameLoop (encodedPtr encoded encodedSize : ℕ) (nameCurrent : List UInt8) :
    EncodeResult :=
  match findNameComponentLen nameCurrent with
  | none => ⟨-1, [], encodedPtr⟩
  | some pos =>
    if encodedSize ≤ pos then ⟨-1, [], encodedPtr⟩
    else
      let stores := storesAt encoded (UInt8.ofNat pos :: nameCurrent.take pos)
      if _h : charAt nameCurrent pos = 0 then
        ⟨0, stores ++ [(encoded + 1 + pos, 0)], encoded + 1 + pos + 1⟩
      else
        let r := encodeNameLoop encodedPtr (encoded + 1 + pos)
          (wrapSub 64 encodedSize (wrapSub 64 pos 1)) (nameCurrent.drop (pos + 1))
        ⟨r.ret, stores ++ r.stores, r.encodedPtr⟩
termination_by nameCurrent.length
decreasing_by
  have hpos : pos < nameCurrent.length := by
    by_contra hn
    exact _h (charAt_past_end (by omega))
  simp only [List.length_drop]
  omega

/-- encode_name with `*encoded_ptr = encodedPtr`. Its assertion stops a zero capacity. -/
def encodeName (encodedPtr encodedSize : ℕ) (name : List UInt8) : EncodeResult :=
  encodeNameLoop encodedPtr encodedPtr (encodedSize - 1) name

def cstring (name : List UInt8) : List UInt8 := name.takeWhile (· ≠ 0)

/-- The labels between the dots of a name, empty ones included. -/
def labels (name : List UInt8) : List Label := (cstring name).splitOn dot

def component (name : List UInt8) : Label := name.takeWhile fun c => c ≠ dot ∧ c ≠ 0

theorem component_cons (c : UInt8) (rest : List UInt8) :
    component (c :: rest) = if c = dot ∨ c = 0 then [] else c :: component rest := by
  by_cases hd : c = dot <;> by_cases hz : c = 0 <;> simp [component, hd, hz]

theorem component_isPrefix (name : List UInt8) : component name <+: name :=
  List.takeWhile_prefix _

theorem take_component (name : List UInt8) : name.take (component name).length = component name :=
  (List.prefix_iff_eq_take.mp (component_isPrefix name)).symm

theorem componentLenFrom_eq (name : List UInt8) {namePos : ℕ} (h : namePos ≤ ucharMax) :
    componentLenFrom namePos name =
      if namePos + (component name).length ≤ ucharMax
      then some (namePos + (component name).length) else none := by
  induction name generalizing namePos with
  | nil => simp [componentLenFrom, component, h]
  | cons c rest ih =>
    by_cases hc : c = dot ∨ c = 0
    · simp [componentLenFrom, component_cons, hc, h]
    · by_cases hm : ucharMax ≤ namePos
      · simp only [componentLenFrom, component_cons, if_neg hc, if_pos hm, List.length_cons]
        rw [if_neg (by omega)]
      · simp only [componentLenFrom, component_cons, if_neg hc, if_neg hm, List.length_cons]
        rw [ih (by omega), show namePos + 1 + (component rest).length =
          namePos + ((component rest).length + 1) by omega]

theorem findNameComponentLen_eq (name : List UInt8) :
    findNameComponentLen name =
      if (component name).length ≤ ucharMax then some (component name).length else none := by
  simpa [findNameComponentLen] using componentLenFrom_eq name (Nat.zero_le ucharMax)

/-- The character behind the first component decides whether another label follows. -/
theorem labels_unfold (name : List UInt8) :
    labels name =
      if charAt name (component name).length = 0 then [component name]
      else component name :: labels (name.drop ((component name).length + 1)) := by
  induction name with
  | nil => simp [labels, cstring, component, charAt]
  | cons c rest ih =>
    by_cases hz : c = 0
    · simp [hz, labels, cstring, charAt, component]
    · have hs : cstring (c :: rest) = c :: cstring rest := by simp [cstring, hz]
      by_cases hd : c = dot
      · have hc : component (c :: rest) = [] := by simp [component_cons, hd]
        have ht : labels (c :: rest) = [] :: labels rest := by
          rw [labels, hs, List.splitOn_cons_eq_if_modifyHead, if_pos (by simp [hd])]
          rfl
        rw [hc, ht, if_neg]
        · rfl
        · simpa [charAt] using hz
      · have hc : component (c :: rest) = c :: component rest := by
          simp [component_cons, hd, hz]
        have hl : labels (c :: rest) = (labels rest).modifyHead (List.cons c) := by
          simp [labels, hs, List.splitOn_cons_eq_if_modifyHead, hd]
        have ha : charAt (c :: rest) (component (c :: rest)).length =
            charAt rest (component rest).length := by simp [hc, charAt]
        rw [ha, hc, hl, ih]
        split_ifs <;> rfl

theorem nonzero_intercalate {ls : List Label} (h : ∀ l ∈ ls, ∀ c ∈ l, c ≠ 0) :
    ∀ c ∈ [dot].intercalate ls, c ≠ 0 := by
  induction ls with
  | nil => simp
  | cons l ls ih =>
    intro c hc
    have hl := h l List.mem_cons_self
    have hls := ih fun k hk => h k (List.mem_cons_of_mem _ hk)
    cases ls with
    | nil => exact hl c (by simpa using hc)
    | cons k ls =>
      rw [List.intercalate_cons_cons, List.mem_append, List.mem_append] at hc
      rcases hc with (hc | hc) | hc
      · exact hl c hc
      · rw [List.mem_singleton.mp hc]
        decide
      · exact hls c hc

/-- Labels without dots and zeros make a name with these labels. -/
theorem labels_intercalate {ls : List Label} (hne : ls ≠ [])
    (h : ∀ l ∈ ls, ∀ c ∈ l, c ≠ dot ∧ c ≠ 0) : labels ([dot].intercalate ls) = ls := by
  have hnonzero := nonzero_intercalate fun l hl c hc => (h l hl c hc).2
  have hcstring : cstring ([dot].intercalate ls) = [dot].intercalate ls := by
    rw [cstring, List.takeWhile_eq_self_iff]
    intro c hc
    simpa using hnonzero c hc
  rw [labels, hcstring, List.splitOn_intercalate]
  · intro l hl hdot
    exact (h l hl dot hdot).1 rfl
  · exact hne

/-- The encoder over the labels of a name: the bytes written and whether the closing
zero was reached. `room` is the value of `encodedSize` in front of the next label. -/
def encodeLabels (room : ℕ) : List Label → List UInt8 × Bool
  | [] => ([0], true)
  | l :: ls =>
    if ucharMax < l.length ∨ room ≤ l.length then ([], false)
    else
      let r := encodeLabels ((room + 1 - l.length) % 2 ^ 64) ls
      (wireLabel l ++ r.1, r.2)

theorem encodeLabels_cons_refused {room : ℕ} {l : Label} {ls : List Label}
    (h : ucharMax < l.length ∨ room ≤ l.length) : encodeLabels room (l :: ls) = ([], false) := by
  rw [encodeLabels, if_pos h]

theorem encodeLabels_cons_accepted {room : ℕ} {l : Label} {ls : List Label}
    (hm : l.length ≤ ucharMax) (hr : l.length < room) :
    encodeLabels room (l :: ls) =
      (wireLabel l ++ (encodeLabels ((room + 1 - l.length) % 2 ^ 64) ls).1,
        (encodeLabels ((room + 1 - l.length) % 2 ^ 64) ls).2) := by
  rw [encodeLabels, if_neg (by omega)]

def resultOf (encodedPtr encoded : ℕ) (r : List UInt8 × Bool) : EncodeResult :=
  ⟨if r.2 then 0 else -1, storesAt encoded r.1,
    if r.2 then encoded + r.1.length else encodedPtr⟩

theorem component_of_found {name : List UInt8} {pos : ℕ}
    (h : findNameComponentLen name = some pos) :
    pos = (component name).length ∧ pos ≤ ucharMax := by
  rw [findNameComponentLen_eq] at h
  split_ifs at h with hm
  cases h
  exact ⟨rfl, hm⟩

theorem component_of_not_found {name : List UInt8} (h : findNameComponentLen name = none) :
    ucharMax < (component name).length := by
  rw [findNameComponentLen_eq] at h
  split_ifs at h with hm
  omega

theorem exists_labels_cons (name : List UInt8) :
    ∃ ls, labels name = component name :: ls := by
  rw [labels_unfold]
  split_ifs
  · exact ⟨[], rfl⟩
  · exact ⟨_, rfl⟩

theorem encodeNameLoop_eq (encodedPtr encoded room : ℕ) (name : List UInt8) :
    encodeNameLoop encodedPtr encoded room name =
      resultOf encodedPtr encoded (encodeLabels room (labels name)) := by
  induction encoded, room, name using encodeNameLoop.induct encodedPtr with
  | case1 encoded room name hf =>
    obtain ⟨ls, hls⟩ := exists_labels_cons name
    rw [encodeNameLoop, hf, hls, encodeLabels_cons_refused (.inl (component_of_not_found hf))]
    rfl
  | case2 encoded room name pos hf hr =>
    obtain ⟨ls, hls⟩ := exists_labels_cons name
    obtain ⟨rfl, _⟩ := component_of_found hf
    rw [encodeNameLoop, hf, hls, encodeLabels_cons_refused (.inr hr)]
    simp only [if_pos hr]
    rfl
  | case3 encoded room name pos hf hr hz =>
    obtain ⟨rfl, hm⟩ := component_of_found hf
    rw [encodeNameLoop, hf, labels_unfold, if_pos hz,
      encodeLabels_cons_accepted hm (by omega)]
    simp only [if_neg hr, dif_pos hz, take_component]
    simp [resultOf, encodeLabels, wireLabel, storesAt, storesAt_append]
    omega
  | case4 encoded room name pos hf hr hz ih =>
    obtain ⟨rfl, hm⟩ := component_of_found hf
    have hroom : wrapSub 64 room (wrapSub 64 (component name).length 1) =
        (room + 1 - (component name).length) % 2 ^ 64 := wrapSub_wrapSub_one (by omega)
    rw [encodeNameLoop, hf, labels_unfold, if_neg hz,
      encodeLabels_cons_accepted hm (by omega)]
    rw [hroom] at ih
    simp only [if_neg hr, dif_neg hz, take_component, hroom, ih]
    simp only [resultOf, wireLabel, storesAt_append, List.length_append, List.length_cons,
      Nat.add_assoc, Nat.add_comm 1]

theorem encodeName_eq (p n : ℕ) (name : List UInt8) :
    encodeName p n name = resultOf p p (encodeLabels (n - 1) (labels name)) :=
  encodeNameLoop_eq p p (n - 1) name

/-- With room for the whole encoding no label is refused. The counter grows only on
empty labels, so it is enough that these do not push it past the end of a size_t. -/
theorem encodeLabels_fits {room : ℕ} {ls : List Label} (hm : ∀ l ∈ ls, l.length ≤ ucharMax)
    (hfit : wireLength ls ≤ room + 1) (hroom : room + ls.count [] < 2 ^ 64) :
    encodeLabels room ls = (wireName ls, true) := by
  induction ls generalizing room with
  | nil => rfl
  | cons l ls ih =>
    have hlen := length_le_wireLength (List.mem_cons_self (a := l) (l := ls))
    rw [wireLength_cons] at hfit hlen
    have hnext : room + 1 - l.length + ls.count [] < 2 ^ 64 := by
      cases l with
      | nil => simp at hroom ⊢; omega
      | cons x xs => simp at hroom ⊢; omega
    have hmod : (room + 1 - l.length) % 2 ^ 64 = room + 1 - l.length :=
      Nat.mod_eq_of_lt (by omega)
    rw [encodeLabels_cons_accepted (hm l List.mem_cons_self) (by omega), hmod,
      ih (fun k hk => hm k (List.mem_cons_of_mem _ hk)) (by omega) hnext]
    simp [wireLabel]

theorem encodeName_fits {p n : ℕ} {name : List UInt8}
    (hm : ∀ l ∈ labels name, l.length ≤ ucharMax) (hfit : wireLength (labels name) ≤ n)
    (hn : n + (labels name).count [] ≤ 2 ^ 64) :
    encodeName p n name =
      ⟨0, storesAt p (wireName (labels name)), p + wireLength (labels name)⟩ := by
  have hpos := count_le_wireLength (labels name)
  rw [encodeName_eq, encodeLabels_fits hm (by omega) (by omega)]
  simp [resultOf, wireName_length]

/-- An encoding that reaches its closing zero is complete, and no label in it was too long. -/
theorem encodeLabels_complete {room : ℕ} {ls : List Label} (h : (encodeLabels room ls).2 = true) :
    (encodeLabels room ls).1 = wireName ls ∧ ∀ l ∈ ls, l.length ≤ ucharMax := by
  induction ls generalizing room with
  | nil => simp [encodeLabels]
  | cons l ls ih =>
    by_cases hr : ucharMax < l.length ∨ room ≤ l.length
    · rw [encodeLabels_cons_refused hr] at h
      cases h
    · have hl : l.length ≤ ucharMax := by omega
      rw [encodeLabels_cons_accepted hl (by omega)] at h ⊢
      obtain ⟨hbytes, hls⟩ := ih h
      constructor
      · rw [hbytes, wireName_cons]
        rfl
      · intro k hk
        rcases List.mem_cons.mp hk with rfl | hk
        · exact hl
        · exact hls k hk

theorem encodeName_success {p n : ℕ} {name : List UInt8} (h : (encodeName p n name).ret = 0) :
    encodeName p n name =
      ⟨0, storesAt p (wireName (labels name)), p + wireLength (labels name)⟩ ∧
    ∀ l ∈ labels name, l.length ≤ ucharMax := by
  rw [encodeName_eq] at h ⊢
  have hb : (encodeLabels (n - 1) (labels name)).2 = true := by
    by_contra hb
    simp [resultOf, hb] at h
  obtain ⟨hbytes, hls⟩ := encodeLabels_complete hb
  constructor
  · simp only [resultOf, hb, hbytes, wireName_length, if_true]
  · exact hls

/-- The caller's pointer moves only on success. -/
theorem encodeName_failure {p n : ℕ} {name : List UInt8} (h : (encodeName p n name).ret = -1) :
    (encodeName p n name).encodedPtr = p := by
  rw [encodeName_eq] at h ⊢
  simp only [resultOf] at h ⊢
  split_ifs at h ⊢ with hb
  · rfl

/-- The documented purpose of encode_name, for names that fit in the capacity. -/
theorem encode_name_exact {n : ℕ} (hn : 1 ≤ n) (hmax : n ≤ maxUdpDataSize) (p : ℕ)
    (name : List UInt8) :
    ((∀ l ∈ labels name, l.length ≤ 255) → 1 + ((labels name).map fun l => l.length + 1).sum ≤ n →
      (encodeName p n name).ret = 0 ∧
      (encodeName p n name).stores = storesAt p (wireName (labels name)) ∧
      (encodeName p n name).encodedPtr = p + (wireName (labels name)).length ∧
      (∀ m : Memory,
        readBytes (applyStores m (encodeName p n name).stores) p (wireName (labels name)).length =
          wireName (labels name) ∧
        ∀ a, a < p ∨ p + (wireName (labels name)).length ≤ a →
          applyStores m (encodeName p n name).stores a = m a) ∧
      ((∀ l ∈ labels name, 1 ≤ l.length ∧ l.length ≤ 63) → ∀ (m : Memory) (suffix : List UInt8),
        readName (readBytes (applyStores m (encodeName p n name).stores) p
          (wireName (labels name)).length ++ suffix) = some (labels name, suffix))) ∧
    ((encodeName p n name).ret = -1 → (encodeName p n name).encodedPtr = p) := by
  refine ⟨?_, encodeName_failure⟩
  intro hm hfit
  have hcount := count_le_wireLength (labels name)
  have hfit' : wireLength (labels name) ≤ n := hfit
  have hempty : (labels name).count [] ≤ (labels name).length := List.count_le_length
  have he := encodeName_fits (p := p) hm hfit' (by unfold maxUdpDataSize at hmax; omega)
  rw [he]
  refine ⟨rfl, rfl, by rw [wireName_length], ?_, ?_⟩
  · intro m
    refine ⟨readBytes_storesAt m p _, ?_⟩
    intro a ha
    exact applyStores_storesAt_outside ha
  · intro hp m suffix
    rw [readBytes_storesAt]
    exact readName_wireName hp suffix

theorem encode_name_exact_two_labels :
    (1 ≤ 5 ∧ 5 ≤ maxUdpDataSize) ∧ (encodeName 0 5 [97, 46, 98]).ret = 0 :=
  ⟨by decide, ((encode_name_exact (n := 5) (by decide) (by decide) 0 [97, 46, 98]).1
    (by decide) (by decide)).1⟩

end BlastEncodeName
