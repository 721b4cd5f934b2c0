import DnsBlast.CStrings
import DnsBlast.MattblastMain

/-! The command line of mattblast. main tests argc before and after it takes the word
"fuzz" off; the usage line asks for one to four arguments behind that word. -/
namespace MattblastArguments

open CStrings MattblastMain

def fuzzWord : CString := ⟨[102, 117, 122, 122], by decide⟩

def defaultPort : CString := ⟨[100, 111, 109, 97, 105, 110], by decide⟩

def number : Option CString → ℕ
  | some text => strtoul text.bytes
  | none => ulongMax

/-- main's variables behind the parsing; `none` is a null pointer. -/
structure Settings where
  host : Option CString
  sendCount : ℕ
  pps : ℕ
  port : CString
  fuzz : Bool

inductive Parsing where
  | usage
  | proceed (s : Settings)

/-- main up to get_sock, from the strings of argv; a call of usage does not return. -/
def parseArguments (argv : List CString) : Parsing :=
  let argc := argv.length
  if argc < 2 ∨ argc > 6 then .usage
  else
    let fuzz := strcasecmp ((argv[1]?).elim [] CString.bytes) fuzzWord.bytes = 0
    let argv := if fuzz then argv.tail else argv
    let argc := if fuzz then argc - 1 else argc
    if argc < 1 then .usage
    else .proceed
      { host := argv[1]?
        sendCount := if argc > 2 then number argv[2]? else ulongMax
        pps := if argc > 3 then number argv[3]? else ulongMax
        port := if argc > 4 then (argv[4]?).getD defaultPort else defaultPort
        fuzz := fuzz }

def IsFuzz (word : CString) : Prop := word.bytes.map tolower = fuzzWord.bytes

instance (word : CString) : Decidable (IsFuzz word) := inferInstanceAs (Decidable (_ = _))

/-- `<host> [<count>] [<pps>] [<port>]`. -/
def positional (fuzz : Bool) : List CString → Option Settings
  | [host] => some ⟨some host, ulongMax, ulongMax, defaultPort, fuzz⟩
  | [host, count] => some ⟨some host, strtoul count.bytes, ulongMax, defaultPort, fuzz⟩
  | [host, count, pps] =>
    some ⟨some host, strtoul count.bytes, strtoul pps.bytes, defaultPort, fuzz⟩
  | [host, count, pps, port] =>
    some ⟨some host, strtoul count.bytes, strtoul pps.bytes, port, fuzz⟩
  | _ => none

def usageGrammar : List CString → Option Settings
  | [] => none
  | word :: rest => if IsFuzz word then positional true rest else positional false (word :: rest)

/-- What main should do with a command line: proceed as it says, or print its usage. -/
def intended (args : List CString) : Parsing := (usageGrammar args).elim .usage .proceed

theorem fuzz_iff (word : CString) :
    strcasecmp word.bytes fuzzWord.bytes = 0 ↔ IsFuzz word := by
  have hlower : fuzzWord.bytes.map tolower = fuzzWord.bytes := by decide
  rw [strcasecmp_eq_zero_iff word.terminated fuzzWord.terminated, hlower, IsFuzz]

def accepted (fuzz : Bool) (args : List CString) : Parsing :=
  .proceed ⟨args[0]?, number args[1]?, number args[2]?, (args[3]?).getD defaultPort, fuzz⟩

theorem optional_eq {α β : Type} (f : Option α → β) {d : β} (hd : f none = d) (args : List α)
    (i : ℕ) : (if args.length + 1 > i + 1 then f args[i]? else d) = f args[i]? := by
  by_cases h : args.length + 1 > i + 1
  · rw [if_pos h]
  · rw [if_neg h, List.getElem?_eq_none (by omega), hd]

/-- main accepts up to five arguments, of which "fuzz" may be the only one. -/
theorem parseArguments_cons (program word : CString) (rest : List CString) :
    parseArguments (program :: word :: rest) =
      if 4 < rest.length then .usage
      else if IsFuzz word then accepted true rest else accepted false (word :: rest) := by
  have hport : ∀ args : List CString, (if args.length + 1 > 4 then (args[3]?).getD defaultPort
      else defaultPort) = (args[3]?).getD defaultPort :=
    fun args => optional_eq (fun text => text.getD defaultPort) rfl args 3
  have hnumber : ∀ (args : List CString) (i : ℕ), (if args.length + 1 > i + 1 then
      number args[i]? else ulongMax) = number args[i]? :=
    fun args i => optional_eq number rfl args i
  by_cases hmany : 4 < rest.length
  · have hargc : (program :: word :: rest).length < 2 ∨ (program :: word :: rest).length > 6 := by
      simp only [List.length_cons]
      omega
    rw [if_pos hmany, parseArguments, if_pos hargc]
  · have hargc :
        ¬ ((program :: word :: rest).length < 2 ∨ (program :: word :: rest).length > 6) := by
      simp only [List.length_cons]
      omega
    rw [if_neg hmany, parseArguments, if_neg hargc]
    by_cases hfuzz : IsFuzz word
    · have hcmp := (fuzz_iff word).mpr hfuzz
      rw [if_pos hfuzz, accepted, ← hnumber rest 1, ← hnumber rest 2, ← hport rest]
      simp [hcmp]
    · have hcmp := mt (fuzz_iff word).mp hfuzz
      rw [if_neg hfuzz, accepted, ← hnumber (word :: rest) 1, ← hnumber (word :: rest) 2,
        ← hport (word :: rest)]
      simp [hcmp]

theorem positional_elim (fuzz : Bool) (args : List CString) :
    (positional fuzz args).elim .usage .proceed =
      if 1 ≤ args.length ∧ args.length ≤ 4 then accepted fuzz args else .usage := by
  rcases args with _ | ⟨host, _ | ⟨count, _ | ⟨pps, _ | ⟨port, _ | ⟨more, rest⟩⟩⟩⟩⟩
  · rfl
  · rfl
  · rfl
  · rfl
  · rfl
  · have hmany : ¬ (more :: rest).length + 4 ≤ 4 := by
      simp
    rw [if_neg (fun h => hmany h.2)]
    rfl

theorem intended_cons (word : CString) (rest : List CString) :
    intended (word :: rest) =
      if IsFuzz word then
        if 1 ≤ rest.length ∧ rest.length ≤ 4 then accepted true rest else .usage
      else if rest.length ≤ 3 then accepted false (word :: rest) else .usage := by
  rw [intended, usageGrammar]
  by_cases hfuzz : IsFuzz word
  · rw [if_pos hfuzz, if_pos hfuzz, positional_elim]
  · have hlength : 1 ≤ (word :: rest).length ∧ (word :: rest).length ≤ 4 ↔ rest.length ≤ 3 := by
      rw [List.length_cons]
      omega
    rw [if_neg hfuzz, if_neg hfuzz, positional_elim]
    simp only [hlength]

def OnlyFuzz (args : List CString) : Prop := ∃ word, args = [word] ∧ IsFuzz word

def OneTooMany (args : List CString) : Prop :=
  ∃ word rest, args = word :: rest ∧ rest.length = 4 ∧ ¬ IsFuzz word

theorem onlyFuzz_cons (word : CString) (rest : List CString) :
    OnlyFuzz (word :: rest) ↔ rest.length = 0 ∧ IsFuzz word := by
  simp [OnlyFuzz]

theorem oneTooMany_cons (word : CString) (rest : List CString) :
    OneTooMany (word :: rest) ↔ rest.length = 4 ∧ ¬ IsFuzz word := by
  simp [OneTooMany]

/-- main does what the usage line says exactly on the command lines that are neither the
word "fuzz" alone nor four arguments and one more. -/
theorem arguments_as_intended_iff (argv : List CString) :
    parseArguments argv = intended argv.tail ↔
      ¬ OnlyFuzz argv.tail ∧ ¬ OneTooMany argv.tail := by
  have hdiffer : ∀ fuzz args, accepted fuzz args ≠ .usage := by
    intro fuzz args h
    cases h
  rcases argv with _ | ⟨program, _ | ⟨word, rest⟩⟩
  · simp [parseArguments, intended, usageGrammar, OnlyFuzz, OneTooMany]
  · simp [parseArguments, intended, usageGrammar, OnlyFuzz, OneTooMany]
  · rw [parseArguments_cons, List.tail_cons, intended_cons, onlyFuzz_cons, oneTooMany_cons]
    by_cases hmany : 4 < rest.length
    · -- six arguments or more: both print the usage
      have hfour : ¬ (1 ≤ rest.length ∧ rest.length ≤ 4) := by omega
      have hthree : ¬ rest.length ≤ 3 := by omega
      rw [if_pos hmany, if_neg hfour, if_neg hthree, ite_self]
      simp only [true_iff]
      omega
    · rw [if_neg hmany]
      by_cases hfuzz : IsFuzz word
      · rw [if_pos hfuzz, if_pos hfuzz]
        by_cases hnone : rest.length = 0
        · rw [if_neg (by omega)]
          simp only [hdiffer, hnone, hfuzz, and_self, not_true_eq_false, false_and]
        · rw [if_pos (by omega)]
          simp only [hnone, hfuzz, false_and, not_false_eq_true, not_true_eq_false, and_false,
            and_self]
      · rw [if_neg hfuzz, if_neg hfuzz]
        by_cases hfour : rest.length = 4
        · rw [if_neg (by omega)]
          simp only [hdiffer, hfour, hfuzz, not_false_eq_true, and_self, not_true_eq_false,
            and_false]
        · rw [if_pos (by omega)]
          simp only [hfour, hfuzz, and_false, false_and, not_false_eq_true, and_self]

/-- `mattblast fuzz` goes on without a host, and `mattblast h 1 1 53 x` ignores the x. -/
theorem arguments_at_the_edges :
    let word (c : List UInt8) (h : 0 ∉ c) : CString := ⟨c, h⟩
    let h := word [104] (by decide)
    let one := word [49] (by decide)
    let port := word [53, 51] (by decide)
    (∃ s, parseArguments [h, fuzzWord] = .proceed s ∧ s.host = none ∧
      intended [fuzzWord] = .usage) ∧
    ∃ s, parseArguments [h, h, one, one, port, h] = .proceed s ∧
      intended [h, one, one, port, h] = .usage := by
  constructor
  · exact ⟨_, rfl, rfl, rfl⟩
  · exact ⟨_, rfl, rfl⟩

end MattblastArguments
