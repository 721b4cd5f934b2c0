import Mathlib.Algebra.Group.Nat.Defs
import Mathlib.Data.List.TakeWhile
import Mathlib.Tactic.SplitIfs

/-! getopt_long of the GNU C library, for options with a required argument or none.
Words are given without their terminator. Non-options are put behind the options, or end
them when POSIXLY_CORRECT is set. -/
namespace GetoptLong

abbrev Word := List UInt8

def hyphen : UInt8 := 45
def equals : UInt8 := 61
def colon : UInt8 := 58
def semicolon : UInt8 := 59

/-- An entry of longopts; `flag` is the variable it sets, if it sets one. -/
structure LongOption (φ : Type) where
  name : Word
  hasArg : Bool
  flag : Option φ
  val : UInt8
  deriving DecidableEq

/-- A call that does not return -1. It returns an option, or 0 for a variable set, or '?'
with optopt. -/
inductive Found (φ : Type) where
  | option (c : UInt8) (optarg : Option Word)
  | flag (f : φ) (val : UInt8)
  | unknown (optopt : UInt8)
  deriving DecidableEq

/-- The letters left of a cluster, the words put behind the options, and argv from the next
word on. -/
structure Scan where
  nextchar : Word
  skipped : List Word
  rest : List Word

/-- What a word at the head of argv is; `-` alone is no option. -/
inductive WordKind where
  | ending
  | long (text : Word)
  | short (c : UInt8) (cs : Word)
  | plain

def wordKind : Word → WordKind
  | [45, 45] => .ending
  | 45 :: 45 :: text => .long text
  | 45 :: c :: cs => .short c cs
  | _ => .plain

variable {φ : Type}

def LongOption.found (o : LongOption φ) (optarg : Option Word) : Found φ :=
  match o.flag with
  | some f => .flag f o.val
  | none => .option o.val optarg

def shortOption (optstring : Word) (c : UInt8) : Option Bool :=
  if c = colon ∨ c = semicolon then none
  else match optstring.dropWhile (· ≠ c) with
    | [] => none
    | _ :: next => some (next.head? = some colon)

/-- The long option of a name, or of an abbreviation that no two different options have. -/
def longOption [DecidableEq φ] (longopts : List (LongOption φ)) (name : Word) :
    Option (LongOption φ) :=
  match longopts.find? (·.name = name) with
  | some o => some o
  | none =>
    match longopts.filter (name.isPrefixOf ·.name) with
    | [] => none
    | o :: others =>
      if others.all fun p => p.hasArg = o.hasArg ∧ p.flag = o.flag ∧ p.val = o.val then some o
      else none

def shortCall (optstring : Word) (c : UInt8) (cs : Word) (skipped rest : List Word) :
    Found φ × Scan :=
  match shortOption optstring c with
  | none => (.unknown c, ⟨cs, skipped, rest⟩)
  | some false => (.option c none, ⟨cs, skipped, rest⟩)
  | some true =>
    match cs, rest with
    | [], [] => (.unknown c, ⟨[], skipped, []⟩)
    | [], w :: rest => (.option c (some w), ⟨[], skipped, rest⟩)
    | c' :: cs, rest => (.option c (some (c' :: cs)), ⟨[], skipped, rest⟩)

def longCall [DecidableEq φ] (longopts : List (LongOption φ)) (text : Word)
    (skipped rest : List Word) : Found φ × Scan :=
  match longOption longopts (text.takeWhile (· ≠ equals)) with
  | none => (.unknown 0, ⟨[], skipped, rest⟩)
  | some o =>
    match o.hasArg, text.dropWhile (· ≠ equals), rest with
    | false, [], rest => (o.found none, ⟨[], skipped, rest⟩)
    | false, _ :: _, rest => (.unknown o.val, ⟨[], skipped, rest⟩)
    | true, _ :: value, rest => (o.found (some value), ⟨[], skipped, rest⟩)
    | true, [], w :: rest => (o.found (some w), ⟨[], skipped, rest⟩)
    | true, [], [] => (.unknown o.val, ⟨[], skipped, []⟩)

/-- A call between two words; `none` is -1, and then `skipped` is argv from optind on. -/
def nextWord [DecidableEq φ] (posix : Bool) (optstring : Word) (longopts : List (LongOption φ))
    (skipped : List Word) : List Word → Option (Found φ) × Scan
  | [] => (none, ⟨[], skipped, []⟩)
  | w :: rest =>
    match wordKind w with
    | .ending => (none, ⟨[], skipped ++ rest, []⟩)
    | .long text =>
      let r := longCall longopts text skipped rest
      (some r.1, r.2)
    | .short c cs =>
      let r := shortCall optstring c cs skipped rest
      (some r.1, r.2)
    | .plain =>
      if posix then (none, ⟨[], skipped ++ w :: rest, []⟩)
      else nextWord posix optstring longopts (skipped ++ [w]) rest

def getoptLong [DecidableEq φ] (posix : Bool) (optstring : Word) (longopts : List (LongOption φ)) :
    Scan → Option (Found φ) × Scan
  | ⟨[], skipped, rest⟩ => nextWord posix optstring longopts skipped rest
  | ⟨c :: cs, skipped, rest⟩ =>
    let r := shortCall optstring c cs skipped rest
    (some r.1, r.2)

def Scan.size (s : Scan) : ℕ := s.nextchar.length + s.rest.flatten.length + s.rest.length

theorem Scan.size_word (cs w : Word) (skipped rest : List Word) :
    (⟨cs, skipped, w :: rest⟩ : Scan).size =
      (⟨cs, skipped, rest⟩ : Scan).size + w.length + 1 := by
  simp only [Scan.size, List.flatten_cons, List.length_append, List.length_cons]
  omega

theorem Scan.size_letters (cs ds : Word) (skipped rest : List Word) :
    (⟨cs ++ ds, skipped, rest⟩ : Scan).size =
      (⟨ds, skipped, rest⟩ : Scan).size + cs.length := by
  simp only [Scan.size, List.length_append]
  omega

section Termination
variable {optstring : Word}

theorem wordKind_ending {w : Word} (h : wordKind w = .ending) : w = [hyphen, hyphen] := by
  unfold wordKind at h
  split at h
  all_goals cases h
  rfl

theorem wordKind_long {w text : Word} (h : wordKind w = .long text) :
    w = hyphen :: hyphen :: text ∧ text ≠ [] := by
  unfold wordKind at h
  split at h
  all_goals cases h
  rename_i hnot
  refine ⟨rfl, ?_⟩
  rintro rfl
  exact hnot rfl

theorem wordKind_short {w cs : Word} {c : UInt8} (h : wordKind w = .short c cs) :
    w = hyphen :: c :: cs ∧ c ≠ hyphen := by
  unfold wordKind at h
  split at h
  all_goals cases h
  rename_i hnot _
  exact ⟨rfl, hnot⟩

variable (optstring) in
theorem shortCall_size (c : UInt8) (cs : Word) (skipped rest : List Word) :
    (shortCall (φ := φ) optstring c cs skipped rest).2.size ≤
      (⟨cs, skipped, rest⟩ : Scan).size := by
  unfold shortCall
  split
  · exact le_rfl
  · exact le_rfl
  · split
    · exact le_rfl
    · rw [Scan.size_word]
      exact Nat.le_add_right_of_le (Nat.le_add_right _ _)
    · simp [Scan.size]

variable [DecidableEq φ] {posix : Bool} {longopts : List (LongOption φ)}

variable (longopts) in
theorem longCall_size (text : Word) (skipped rest : List Word) :
    (longCall longopts text skipped rest).2.size ≤ (⟨[], skipped, rest⟩ : Scan).size := by
  unfold longCall
  split
  · exact le_rfl
  · split
    · exact le_rfl
    · exact le_rfl
    · exact le_rfl
    · rw [Scan.size_word]
      exact Nat.le_add_right_of_le (Nat.le_add_right _ _)
    · exact le_rfl

theorem nextWord_size (skipped rest : List Word) {f : Found φ} {t : Scan}
    (h : nextWord posix optstring longopts skipped rest = (some f, t)) :
    t.size < (⟨[], skipped, rest⟩ : Scan).size := by
  induction rest generalizing skipped with
  | nil => cases h
  | cons w rest ih =>
    rw [nextWord] at h
    cases hw : wordKind w with
    | ending =>
      rw [hw] at h
      cases h
    | long text =>
      rw [hw] at h
      have ht : (longCall longopts text skipped rest).2 = t := congrArg Prod.snd h
      have hle := longCall_size longopts text skipped rest
      rw [ht] at hle
      refine lt_of_le_of_lt hle ?_
      rw [Scan.size_word]
      omega
    | short c cs =>
      rw [hw] at h
      have ht : (shortCall optstring c cs skipped rest).2 = t := congrArg Prod.snd h
      have hle := shortCall_size (φ := φ) optstring c cs skipped rest
      have hletters := Scan.size_letters cs [] skipped rest
      rw [List.append_nil] at hletters
      rw [ht, hletters] at hle
      rw [Scan.size_word, (wordKind_short hw).1, List.length_cons, List.length_cons]
      omega
    | plain =>
      rw [hw] at h
      by_cases hp : posix = true
      · rw [if_pos hp] at h
        cases h
      · rw [if_neg hp] at h
        have hrest := ih (skipped ++ [w]) h
        have hsame : (⟨[], skipped ++ [w], rest⟩ : Scan).size =
            (⟨[], skipped, rest⟩ : Scan).size := rfl
        rw [Scan.size_word]
        omega

/-- Every call that finds something reads on. -/
theorem getoptLong_size {s t : Scan} {f : Found φ}
    (h : getoptLong posix optstring longopts s = (some f, t)) : t.size < s.size := by
  obtain ⟨_ | ⟨c, cs⟩, skipped, rest⟩ := s
  · exact nextWord_size skipped rest h
  · have ht : (shortCall optstring c cs skipped rest).2 = t := congrArg Prod.snd h
    have hle := shortCall_size (φ := φ) optstring c cs skipped rest
    have hletter := Scan.size_letters [c] cs skipped rest
    rw [List.singleton_append, List.length_singleton] at hletter
    rw [ht] at hle
    omega

end Termination

/-- The calls until -1: what they find, and argv from optind on in the end. -/
def scanFor [DecidableEq φ] (posix : Bool) (optstring : Word) (longopts : List (LongOption φ)) :
    ℕ → Scan → List (Found φ) × List Word
  | 0, s => ([], s.skipped)
  | n + 1, s =>
    match getoptLong posix optstring longopts s with
    | (none, t) => ([], t.skipped)
    | (some f, t) =>
      let r := scanFor posix optstring longopts n t
      (f :: r.1, r.2)

/-- No call finds anything when nothing is left, so that these calls are enough. -/
def scan [DecidableEq φ] (posix : Bool) (optstring : Word) (longopts : List (LongOption φ))
    (s : Scan) : List (Found φ) × List Word :=
  scanFor posix optstring longopts (s.size + 1) s

section Scanning
variable [DecidableEq φ] {posix : Bool} {optstring : Word} {longopts : List (LongOption φ)}

theorem scanFor_eq {n : ℕ} {s : Scan} (h : s.size < n) :
    scanFor posix optstring longopts n s = scan posix optstring longopts s := by
  have hmore : ∀ (m n : ℕ) (s : Scan), s.size < m → s.size < n →
      scanFor posix optstring longopts m s = scanFor posix optstring longopts n s := by
    intro m
    induction m with
    | zero => intro n s hm; omega
    | succ m ih =>
      intro n s hm hn
      obtain ⟨n, rfl⟩ := Nat.exists_eq_add_of_lt (Nat.zero_lt_of_lt hn)
      rw [Nat.zero_add, scanFor, scanFor]
      rcases hcall : getoptLong posix optstring longopts s with ⟨_ | f, t⟩
      · rfl
      · have ht := getoptLong_size hcall
        simp only [ih n t (by omega) (by omega)]
  exact hmore _ _ s h (Nat.lt_succ_self _)

theorem scan_done {s t : Scan} (h : getoptLong posix optstring longopts s = (none, t)) :
    scan posix optstring longopts s = ([], t.skipped) := by
  rw [scan, scanFor, h]

theorem scan_found {s t : Scan} {f : Found φ}
    (h : getoptLong posix optstring longopts s = (some f, t)) :
    scan posix optstring longopts s =
      (f :: (scan posix optstring longopts t).1, (scan posix optstring longopts t).2) := by
  rw [scan, scanFor, h, ← scanFor_eq (getoptLong_size h)]

/-- What holds of every option that a call can find holds of all that a scan finds. -/
theorem scan_forall {V : Found φ → Prop}
    (hcall : ∀ {s t : Scan} {f : Found φ},
      getoptLong posix optstring longopts s = (some f, t) → V f)
    (s : Scan) : ∀ f ∈ (scan posix optstring longopts s).1, V f := by
  have hall : ∀ (n : ℕ) (s : Scan), ∀ f ∈ (scanFor posix optstring longopts n s).1, V f := by
    intro n
    induction n with
    | zero =>
      intro s f hf
      cases hf
    | succ n ih =>
      intro s f hf
      rw [scanFor] at hf
      rcases h : getoptLong posix optstring longopts s with ⟨_ | g, t⟩
      · rw [h] at hf
        cases hf
      · rw [h] at hf
        rcases List.mem_cons.mp hf with rfl | hf
        · exact hcall h
        · exact ih t f hf
  exact hall _ s

end Scanning

theorem shortOption_mem {optstring : Word} {c : UInt8} {b : Bool}
    (h : shortOption optstring c = some b) : c ∈ optstring := by
  obtain ⟨-, h⟩ := Option.ite_none_left_eq_some.mp h
  by_contra hc
  have hall : optstring.dropWhile (· ≠ c) = [] := by
    rw [List.dropWhile_eq_nil_iff]
    intro d hd
    exact decide_eq_true fun heq => hc (heq ▸ hd)
  rw [hall] at h
  cases h

section Declared
variable (optstring : Word) (longopts : List (LongOption φ))

def Declared : Found φ → Prop
  | .option c optarg => shortOption optstring c = some optarg.isSome ∨
      ∃ o ∈ longopts, o.flag = none ∧ o.val = c ∧ o.hasArg = optarg.isSome
  | .flag f val => ∃ o ∈ longopts, o.flag = some f ∧ o.val = val
  | .unknown _ => True

variable {optstring longopts} {posix : Bool}

theorem shortCall_declared (c : UInt8) (cs : Word) (skipped rest : List Word) :
    Declared optstring longopts (shortCall optstring c cs skipped rest).1 := by
  unfold shortCall
  split
  · trivial
  · rename_i h
    exact Or.inl h
  · rename_i h
    split
    · trivial
    · exact Or.inl h
    · exact Or.inl h

theorem LongOption.declared {o : LongOption φ} (ho : o ∈ longopts) {optarg : Option Word}
    (h : o.hasArg = optarg.isSome) : Declared optstring longopts (o.found optarg) := by
  unfold LongOption.found
  split
  · rename_i f hf
    exact ⟨o, ho, hf, rfl⟩
  · rename_i hf
    exact Or.inr ⟨o, ho, hf, rfl, h⟩

variable [DecidableEq φ]

theorem longOption_mem {name : Word} {o : LongOption φ} (h : longOption longopts name = some o) :
    o ∈ longopts := by
  unfold longOption at h
  split at h
  · rename_i p hp
    cases h
    exact List.mem_of_find?_eq_some hp
  · split at h
    · cases h
    · rename_i p others hp
      obtain ⟨-, h⟩ := Option.ite_none_right_eq_some.mp h
      cases h
      exact (List.mem_filter.mp (hp ▸ List.mem_cons_self)).1

theorem longCall_declared (text : Word) (skipped rest : List Word) :
    Declared optstring longopts (longCall longopts text skipped rest).1 := by
  unfold longCall
  split
  · trivial
  · rename_i o ho
    have hmem := longOption_mem ho
    split
    · rename_i harg _
      exact LongOption.declared hmem harg
    · trivial
    · rename_i harg _
      exact LongOption.declared hmem harg
    · rename_i harg _
      exact LongOption.declared hmem harg
    · trivial

/-- getopt_long makes up no option, and gives each its argument. -/
theorem scan_declared (s : Scan) :
    ∀ f ∈ (scan posix optstring longopts s).1, Declared optstring longopts f := by
  apply scan_forall
  intro s t f h
  have hnext : ∀ (skipped rest : List Word),
      nextWord posix optstring longopts skipped rest = (some f, t) →
      Declared optstring longopts f := by
    intro skipped rest h
    induction rest generalizing skipped with
    | nil => cases h
    | cons w rest ih =>
      rw [nextWord] at h
      cases hw : wordKind w with
      | ending =>
        rw [hw] at h
        cases h
      | long text =>
        rw [hw] at h
        cases h
        exact longCall_declared text skipped rest
      | short c cs =>
        rw [hw] at h
        cases h
        exact shortCall_declared c cs skipped rest
      | plain =>
        rw [hw] at h
        by_cases hp : posix = true
        · rw [if_pos hp] at h
          cases h
        · rw [if_neg hp] at h
          exact ih _ h
  obtain ⟨_ | ⟨c, cs⟩, skipped, rest⟩ := s
  · exact hnext skipped rest h
  · cases h
    exact shortCall_declared c cs skipped rest

end Declared

section Writing
variable [DecidableEq φ] (posix : Bool) (optstring : Word) (longopts : List (LongOption φ))

inductive Spelled : List Word → List (Found φ) → List Word → Prop where
  | plain {w} (hp : posix = false) (hw : wordKind w = .plain) : Spelled [w] [] [w]
  | cluster {c cs} (hc : c ≠ hyphen) (hcs : ∀ d ∈ c :: cs, shortOption optstring d = some false) :
      Spelled [hyphen :: c :: cs] ((c :: cs).map (.option · none)) []
  | joined {flags c value} (hfirst : (flags ++ [c]).head? ≠ some hyphen)
      (hflags : ∀ d ∈ flags, shortOption optstring d = some false)
      (hc : shortOption optstring c = some true) (hvalue : value ≠ []) :
      Spelled [hyphen :: (flags ++ c :: value)]
        (flags.map (.option · none) ++ [.option c (some value)]) []
  | separate {flags c value} (hfirst : (flags ++ [c]).head? ≠ some hyphen)
      (hflags : ∀ d ∈ flags, shortOption optstring d = some false)
      (hc : shortOption optstring c = some true) :
      Spelled [hyphen :: (flags ++ [c]), value]
        (flags.map (.option · none) ++ [.option c (some value)]) []
  | long {name o} (hne : name ≠ []) (hname : equals ∉ name)
      (ho : longOption longopts name = some o) (harg : o.hasArg = false) :
      Spelled [hyphen :: hyphen :: name] [o.found none] []
  | longJoined {name o value} (hname : equals ∉ name) (ho : longOption longopts name = some o)
      (harg : o.hasArg = true) :
      Spelled [hyphen :: hyphen :: (name ++ equals :: value)] [o.found (some value)] []
  | longSeparate {name o value} (hne : name ≠ []) (hname : equals ∉ name)
      (ho : longOption longopts name = some o) (harg : o.hasArg = true) :
      Spelled [hyphen :: hyphen :: name, value] [o.found (some value)] []

inductive Written : List Word → List (Found φ) → List Word → Prop where
  | nil : Written [] [] []
  | cons {us vs fs gs ps qs} (h : Spelled posix optstring longopts us fs ps)
      (hs : Written vs gs qs) : Written (us ++ vs) (fs ++ gs) (ps ++ qs)

variable {posix optstring longopts} {skipped rest : List Word}

theorem wordKind_cluster {c : UInt8} (hc : c ≠ hyphen) (cs : Word) :
    wordKind (hyphen :: c :: cs) = .short c cs := by
  have hne : c ≠ 45 := hc
  unfold wordKind
  split <;> simp_all [hyphen]

theorem wordKind_name {text : Word} (h : text ≠ []) :
    wordKind (hyphen :: hyphen :: text) = .long text := by
  unfold wordKind
  split <;> simp_all [hyphen]

/-- The letters of a word are read as they are read in the middle of it. -/
theorem scan_cluster {c : UInt8} (hc : c ≠ hyphen) (cs : Word) :
    scan posix optstring longopts ⟨[], skipped, (hyphen :: c :: cs) :: rest⟩ =
      scan posix optstring longopts ⟨c :: cs, skipped, rest⟩ := by
  have hsame : getoptLong posix optstring longopts ⟨[], skipped, (hyphen :: c :: cs) :: rest⟩ =
      getoptLong posix optstring longopts ⟨c :: cs, skipped, rest⟩ := by
    rw [getoptLong, nextWord, wordKind_cluster hc]
    rfl
  rcases h : getoptLong posix optstring longopts ⟨c :: cs, skipped, rest⟩ with ⟨_ | f, t⟩
  · rw [scan_done h, scan_done (hsame.trans h)]
  · rw [scan_found h, scan_found (hsame.trans h)]

theorem scan_flags {flags : Word} (h : ∀ d ∈ flags, shortOption optstring d = some false)
    (cs : Word) :
    scan posix optstring longopts ⟨flags ++ cs, skipped, rest⟩ =
      (flags.map (.option · none) ++ (scan posix optstring longopts ⟨cs, skipped, rest⟩).1,
        (scan posix optstring longopts ⟨cs, skipped, rest⟩).2) := by
  induction flags with
  | nil => rfl
  | cons c flags ih =>
    have hc := h c List.mem_cons_self
    have hcall : getoptLong posix optstring longopts ⟨c :: (flags ++ cs), skipped, rest⟩ =
        (some (.option c none), ⟨flags ++ cs, skipped, rest⟩) := by
      simp only [getoptLong, shortCall, hc]
    rw [List.cons_append, scan_found hcall, ih fun d hd => h d (List.mem_cons_of_mem c hd)]
    rfl

theorem name_takeWhile {name : Word} (h : equals ∉ name) (value : Word) :
    name.takeWhile (· ≠ equals) = name ∧ name.dropWhile (· ≠ equals) = [] ∧
      (name ++ equals :: value).takeWhile (· ≠ equals) = name ∧
      (name ++ equals :: value).dropWhile (· ≠ equals) = equals :: value := by
  have hall : ∀ c ∈ name, (fun c => decide (c ≠ equals)) c = true := by
    intro c hc
    exact decide_eq_true fun heq => h (heq ▸ hc)
  refine ⟨List.takeWhile_eq_self_iff.mpr hall, List.dropWhile_eq_nil_iff.mpr hall, ?_, ?_⟩
  · rw [List.takeWhile_append_of_pos hall]
    simp
  · rw [List.dropWhile_append_of_pos hall]
    simp

/-- getopt_long finds what was written, and goes on behind it. -/
theorem scan_spelled {us : List Word} {fs : List (Found φ)} {ps : List Word}
    (h : Spelled posix optstring longopts us fs ps) (skipped rest : List Word) :
    scan posix optstring longopts ⟨[], skipped, us ++ rest⟩ =
      (fs ++ (scan posix optstring longopts ⟨[], skipped ++ ps, rest⟩).1,
        (scan posix optstring longopts ⟨[], skipped ++ ps, rest⟩).2) := by
  have henter : ∀ {flags : Word} {c : UInt8} (value : Word) (rest : List Word),
      (flags ++ [c]).head? ≠ some hyphen →
      scan posix optstring longopts ⟨[], skipped, (hyphen :: (flags ++ c :: value)) :: rest⟩ =
        scan posix optstring longopts ⟨flags ++ c :: value, skipped, rest⟩ := by
    intro flags c value rest hfirst
    cases flags with
    | nil => exact scan_cluster (fun heq => hfirst (congrArg some heq)) value
    | cons d flags => exact scan_cluster (fun heq => hfirst (congrArg some heq)) _
  cases h with
  | @plain w hp hw =>
    have hcall : ∀ rest, getoptLong posix optstring longopts ⟨[], skipped, w :: rest⟩ =
        getoptLong posix optstring longopts ⟨[], skipped ++ [w], rest⟩ := by
      intro rest
      rw [getoptLong, nextWord, hw, hp]
      rfl
    rw [List.singleton_append, List.nil_append]
    rcases h : getoptLong posix optstring longopts ⟨[], skipped ++ [w], rest⟩ with ⟨_ | f, t⟩
    · rw [scan_done h, scan_done ((hcall rest).trans h)]
    · rw [scan_found h, scan_found ((hcall rest).trans h)]
  | @cluster c cs hc hcs =>
    have hflags : scan posix optstring longopts ⟨(c :: cs) ++ [], skipped, rest⟩ = _ :=
      scan_flags hcs []
    rw [List.append_nil] at hflags
    rw [List.singleton_append, scan_cluster hc, hflags, List.append_nil]
  | @joined flags c value hfirst hflags hc hvalue =>
    have hcall : getoptLong posix optstring longopts ⟨c :: value, skipped, rest⟩ =
        (some (.option c (some value)), ⟨[], skipped, rest⟩) := by
      cases value with
      | nil => exact absurd rfl hvalue
      | cons d value => simp only [getoptLong, shortCall, hc]
    rw [List.singleton_append, henter value rest hfirst, scan_flags hflags, scan_found hcall]
    simp
  | @separate flags c value hfirst hflags hc =>
    have hcall : getoptLong posix optstring longopts ⟨[c], skipped, value :: rest⟩ =
        (some (.option c (some value)), ⟨[], skipped, rest⟩) := by
      simp only [getoptLong, shortCall, hc]
    rw [List.cons_append, List.singleton_append, henter [] (value :: rest) hfirst,
      scan_flags hflags, scan_found hcall]
    simp
  | @long name o hne hname ho harg =>
    obtain ⟨htake, hdrop, -, -⟩ := name_takeWhile hname []
    have hcall : getoptLong posix optstring longopts
        ⟨[], skipped, (hyphen :: hyphen :: name) :: rest⟩ =
        (some (o.found none), ⟨[], skipped, rest⟩) := by
      rw [getoptLong, nextWord, wordKind_name hne]
      simp only [longCall, htake, hdrop, ho, harg]
    rw [List.singleton_append, scan_found hcall, List.append_nil]
    rfl
  | @longJoined name o value hname ho harg =>
    obtain ⟨-, -, htake, hdrop⟩ := name_takeWhile hname value
    have hcall : getoptLong posix optstring longopts
        ⟨[], skipped, (hyphen :: hyphen :: (name ++ equals :: value)) :: rest⟩ =
        (some (o.found (some value)), ⟨[], skipped, rest⟩) := by
      rw [getoptLong, nextWord, wordKind_name (by simp)]
      simp only [longCall, htake, hdrop, ho, harg]
    rw [List.singleton_append, scan_found hcall, List.append_nil]
    rfl
  | @longSeparate name o value hne hname ho harg =>
    obtain ⟨htake, hdrop, -, -⟩ := name_takeWhile hname []
    have hcall : getoptLong posix optstring longopts
        ⟨[], skipped, (hyphen :: hyphen :: name) :: value :: rest⟩ =
        (some (o.found (some value)), ⟨[], skipped, rest⟩) := by
      rw [getoptLong, nextWord, wordKind_name hne]
      simp only [longCall, htake, hdrop, ho, harg]
    rw [List.cons_append, List.singleton_append, scan_found hcall, List.append_nil]
    rfl

theorem scan_writing {us : List Word} {fs : List (Found φ)} {ps : List Word}
    (h : Written posix optstring longopts us fs ps) (skipped rest : List Word) :
    scan posix optstring longopts ⟨[], skipped, us ++ rest⟩ =
      (fs ++ (scan posix optstring longopts ⟨[], skipped ++ ps, rest⟩).1,
        (scan posix optstring longopts ⟨[], skipped ++ ps, rest⟩).2) := by
  induction h generalizing skipped with
  | nil => simp
  | @cons us vs fs gs ps qs h hs ih =>
    rw [List.append_assoc, scan_spelled h, ih, List.append_assoc, List.append_assoc]

variable (posix) in
/-- What may stand behind the last option: nothing, `--` and any words, or, when
POSIXLY_CORRECT is set, a plain word and any others. -/
inductive Ending : List Word → List Word → Prop where
  | nothing : Ending [] []
  | hyphens (tail : List Word) : Ending ([hyphen, hyphen] :: tail) tail
  | word {w} (hp : posix = true) (hw : wordKind w = .plain) (tail : List Word) :
      Ending (w :: tail) (w :: tail)

variable (posix optstring longopts) in
/-- A line as getopt_long should read it: the options in it, and the words left over. -/
def Grammar (line : List Word) (fs : List (Found φ)) (words : List Word) : Prop :=
  ∃ us ps vs qs, line = us ++ vs ∧ words = ps ++ qs ∧
    Written posix optstring longopts us fs ps ∧ Ending posix vs qs

theorem scan_ending {vs qs : List Word} (h : Ending posix vs qs) (skipped : List Word) :
    scan posix optstring longopts ⟨[], skipped, vs⟩ = ([], skipped ++ qs) := by
  cases h with
  | nothing =>
    have hend : scan posix optstring longopts ⟨[], skipped, []⟩ = ([], skipped) :=
      scan_done (t := ⟨[], skipped, []⟩) rfl
    rw [hend, List.append_nil]
  | hyphens => exact scan_done (t := ⟨[], skipped ++ qs, []⟩) rfl
  | @word w hp hw tail =>
    refine scan_done (t := ⟨[], skipped ++ w :: tail, []⟩) ?_
    rw [getoptLong, nextWord, hw, hp]
    rfl

/-- A line of the grammar is read as it is meant. -/
theorem scan_grammar {line : List Word} {fs : List (Found φ)} {words : List Word}
    (h : Grammar posix optstring longopts line fs words) :
    scan posix optstring longopts ⟨[], [], line⟩ = (fs, words) := by
  obtain ⟨us, ps, vs, qs, rfl, rfl, hw, he⟩ := h
  rw [scan_writing hw, scan_ending he, List.append_nil, List.nil_append]

def Clean (fs : List (Found φ)) : Prop := ∀ c, .unknown c ∉ fs

omit [DecidableEq φ] in
theorem Found.not_clean (c : UInt8) (fs : List (Found φ)) : ¬ Clean (.unknown c :: fs) :=
  fun h => h c List.mem_cons_self

/-- The letters of a cluster: each takes no argument, up to one that finds its own. -/
theorem letters_spelled {cs : Word}
    (h : Clean (scan posix optstring longopts ⟨cs, skipped, rest⟩).1) :
    (∀ d ∈ cs, shortOption optstring d = some false) ∨
      ∃ flags c value, cs = flags ++ c :: value ∧
        (∀ d ∈ flags, shortOption optstring d = some false) ∧
        shortOption optstring c = some true ∧ (value = [] → rest ≠ []) := by
  induction cs with
  | nil =>
    left
    intro d hd
    cases hd
  | cons c cs ih =>
    cases hc : shortOption optstring c with
    | none =>
      have hcall : getoptLong posix optstring longopts ⟨c :: cs, skipped, rest⟩ =
          (some (.unknown c), ⟨cs, skipped, rest⟩) := by
        simp only [getoptLong, shortCall, hc]
      rw [scan_found hcall] at h
      exact absurd h (Found.not_clean c _)
    | some takes =>
      cases takes with
      | false =>
        have hcall : getoptLong posix optstring longopts ⟨c :: cs, skipped, rest⟩ =
            (some (.option c none), ⟨cs, skipped, rest⟩) := by
          simp only [getoptLong, shortCall, hc]
        rw [scan_found hcall] at h
        rcases ih fun d hd => h d (List.mem_cons_of_mem _ hd) with
          hall | ⟨flags, d, value, rfl, hflags, hd, hvalue⟩
        · exact Or.inl (List.forall_mem_cons.mpr ⟨hc, hall⟩)
        · exact Or.inr ⟨c :: flags, d, value, rfl, List.forall_mem_cons.mpr ⟨hc, hflags⟩, hd,
            hvalue⟩
      | true =>
        refine Or.inr ⟨[], c, cs, rfl, ?_, hc, ?_⟩
        · intro d hd
          cases hd
        · rintro rfl rfl
          have hcall : getoptLong posix optstring longopts ⟨[c], skipped, []⟩ =
              (some (.unknown c), ⟨[], skipped, []⟩) := by
            simp only [getoptLong, shortCall, hc]
          rw [scan_found hcall] at h
          exact absurd h (Found.not_clean c _)

/-- The text of a long option is a name, with a value behind `=` or without. -/
theorem text_cases (text : Word) : ∃ name, equals ∉ name ∧ name = text.takeWhile (· ≠ equals) ∧
    (text = name ∧ text.dropWhile (· ≠ equals) = [] ∨
      ∃ value, text = name ++ equals :: value ∧ text.dropWhile (· ≠ equals) = equals :: value) := by
  have happ := List.takeWhile_append_dropWhile (p := (· ≠ equals)) (l := text)
  refine ⟨text.takeWhile (· ≠ equals), ?_, rfl, ?_⟩
  · intro h
    have hc := List.mem_takeWhile_imp h
    exact of_decide_eq_true hc rfl
  · cases hd : text.dropWhile (· ≠ equals) with
    | nil =>
      left
      rw [hd, List.append_nil] at happ
      exact ⟨happ.symm, rfl⟩
    | cons c value =>
      have hc : c = equals := by
        have hhead := List.head?_dropWhile_not (fun c => decide (c ≠ equals)) text
        rw [hd] at hhead
        simpa using hhead
      subst hc
      rw [hd] at happ
      exact Or.inr ⟨value, happ.symm, rfl⟩

/-- A long option read without a complaint. -/
theorem long_spelled {text : Word} {skipped rest : List Word} (htext : text ≠ [])
    (h : ∀ c, (longCall longopts text skipped rest).1 ≠ .unknown c) :
    ∃ us fs ps vs, us ≠ [] ∧ (hyphen :: hyphen :: text) :: rest = us ++ vs ∧
      Spelled posix optstring longopts us fs ps := by
  obtain ⟨name, hname, htake, hform⟩ := text_cases text
  cases ho : longOption longopts name with
  | none =>
    refine absurd ?_ (h 0)
    simp only [longCall, ← htake, ho]
  | some o =>
    rcases hform with ⟨rfl, hdrop⟩ | ⟨value, rfl, hdrop⟩
    · cases harg : o.hasArg with
      | false => exact ⟨[_], _, _, rest, by simp, rfl, .long htext hname ho harg⟩
      | true =>
        cases rest with
        | nil =>
          refine absurd ?_ (h o.val)
          simp only [longCall, ← htake, ho, harg, hdrop]
        | cons u rest => exact ⟨[_, u], _, _, rest, by simp, rfl, .longSeparate htext hname ho harg⟩
    · cases harg : o.hasArg with
      | false =>
        refine absurd ?_ (h o.val)
        simp only [longCall, ← htake, ho, harg, hdrop]
      | true => exact ⟨[_], _, _, rest, by simp, rfl, .longJoined hname ho harg⟩

/-- A cluster of letters read without a complaint. -/
theorem short_spelled {c : UInt8} {cs : Word} {skipped rest : List Word} (hfirst : c ≠ hyphen)
    (h : Clean (scan posix optstring longopts ⟨c :: cs, skipped, rest⟩).1) :
    ∃ us fs ps vs, us ≠ [] ∧ (hyphen :: c :: cs) :: rest = us ++ vs ∧
      Spelled posix optstring longopts us fs ps := by
  rcases letters_spelled h with hall | ⟨flags, d, value, hcs, hflags, hd, hvalue⟩
  · exact ⟨_, _, _, rest, by simp, rfl, .cluster hfirst hall⟩
  · have hhead : (flags ++ [d]).head? ≠ some hyphen := by
      have hsame : (flags ++ [d]).head? = some c := by
        cases flags with
        | nil => exact congrArg List.head? hcs.symm ▸ rfl
        | cons e flags => exact congrArg List.head? hcs.symm ▸ rfl
      rw [hsame]
      simpa using hfirst
    rw [hcs]
    by_cases hv : value = []
    · subst hv
      obtain ⟨u, us, rfl⟩ := List.exists_cons_of_ne_nil (hvalue rfl)
      exact ⟨[_, u], _, _, us, by simp, rfl, .separate hhead hflags hd⟩
    · exact ⟨[_], _, _, rest, by simp, rfl, .joined hhead hflags hd hv⟩

/-- The head of a line that getopt_long does not complain of is an option of the grammar, a
plain word or the end. -/
theorem spelled_of_clean {line : List Word} (hne : line ≠ [])
    (h : Clean (scan posix optstring longopts ⟨[], skipped, line⟩).1) :
    (∃ qs, Ending posix line qs) ∨ ∃ us fs ps vs, us ≠ [] ∧ line = us ++ vs ∧
      Spelled posix optstring longopts us fs ps := by
  obtain ⟨w, rest, rfl⟩ := List.exists_cons_of_ne_nil hne
  cases hw : wordKind w with
  | ending => exact Or.inl (wordKind_ending hw ▸ ⟨rest, .hyphens rest⟩)
  | plain =>
    by_cases hp : posix = true
    · exact Or.inl ⟨_, .word hp hw rest⟩
    · exact Or.inr ⟨[w], _, _, rest, by simp, rfl, .plain (Bool.eq_false_iff.mpr hp) hw⟩
  | short c cs =>
    obtain ⟨rfl, hfirst⟩ := wordKind_short hw
    rw [scan_cluster hfirst] at h
    exact Or.inr (short_spelled hfirst h)
  | long text =>
    obtain ⟨rfl, htext⟩ := wordKind_long hw
    have hcall : getoptLong posix optstring longopts
        ⟨[], skipped, (hyphen :: hyphen :: text) :: rest⟩ =
        (some (longCall longopts text skipped rest).1,
          (longCall longopts text skipped rest).2) := by
      rw [getoptLong, nextWord, hw]
    rw [scan_found hcall] at h
    have hknown : ∀ c, (longCall longopts text skipped rest).1 ≠ .unknown c := by
      intro c hc
      rw [hc] at h
      exact Found.not_clean c _ h
    exact Or.inr (long_spelled htext hknown)

theorem Spelled.clean {us : List Word} {fs : List (Found φ)} {ps : List Word}
    (h : Spelled posix optstring longopts us fs ps) : Clean fs := by
  have hfound : ∀ (o : LongOption φ) (optarg : Option Word) (c : UInt8),
      .unknown c ≠ o.found optarg := by
    intro o optarg c
    unfold LongOption.found
    split <;> simp
  intro c hc
  cases h with
  | plain => cases hc
  | cluster => simp at hc
  | joined => simp at hc
  | separate => simp at hc
  | long => exact hfound _ _ c (List.mem_singleton.mp hc)
  | longJoined => exact hfound _ _ c (List.mem_singleton.mp hc)
  | longSeparate => exact hfound _ _ c (List.mem_singleton.mp hc)

theorem Written.clean {us : List Word} {fs : List (Found φ)} {ps : List Word}
    (h : Written posix optstring longopts us fs ps) : Clean fs := by
  induction h with
  | nil =>
    intro c hc
    cases hc
  | cons hspelled _ ih =>
    intro c hc
    exact (List.mem_append.mp hc).elim (hspelled.clean c) (ih c)

/-- getopt_long complains of nothing in exactly the lines of the grammar, and it reads each of
them as it is meant. -/
theorem scan_eq_iff {line : List Word} {fs : List (Found φ)} {words : List Word} :
    scan posix optstring longopts ⟨[], [], line⟩ = (fs, words) ∧ Clean fs ↔
      Grammar posix optstring longopts line fs words := by
  refine ⟨fun ⟨h, hclean⟩ => ?_, fun h => ⟨scan_grammar h, ?_⟩⟩
  rotate_left
  · obtain ⟨us, ps, vs, qs, -, -, hw, -⟩ := h
    exact hw.clean
  have hall : ∀ (n : ℕ) (line skipped : List Word), line.length < n →
      Clean (scan posix optstring longopts ⟨[], skipped, line⟩).1 →
      ∃ gs qs, Grammar posix optstring longopts line gs qs := by
    intro n
    induction n with
    | zero => intro line skipped hn; omega
    | succ n ih =>
      intro line skipped hn hline
      by_cases hne : line = []
      · exact ⟨[], [], [], [], [], [], by rw [hne]; rfl, rfl, .nil, .nothing⟩
      · rcases spelled_of_clean hne hline with ⟨qs, he⟩ | ⟨us, gs, ps, vs, hus, rfl, hspelled⟩
        · exact ⟨[], qs, [], [], line, qs, rfl, rfl, .nil, he⟩
        · rw [scan_spelled hspelled] at hline
          have hpos := List.length_pos_iff.mpr hus
          rw [List.length_append] at hn
          obtain ⟨hs, _, ws, qs, vs, rs, rfl, rfl, hw, he⟩ := ih vs (skipped ++ ps) (by omega)
            fun c hc => hline c (List.mem_append_right _ hc)
          exact ⟨_, _, _, _, vs, rs, (List.append_assoc ..).symm, rfl, .cons hspelled hw, he⟩
  obtain ⟨gs, qs, hg⟩ := hall _ line [] (Nat.lt_succ_self _) (h ▸ hclean)
  have hsame := (scan_grammar hg).symm.trans h
  cases hsame
  exact hg

end Writing

end GetoptLong
