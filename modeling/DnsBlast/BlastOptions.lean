import DnsBlast.CStrings
import DnsBlast.GetoptLong
import DnsBlast.BlastTraffic

/-! The command line of dnsblast.c. argv[1] is the host whatever it looks like; getopt_long
reads the words behind it. -/
namespace BlastOptions

open WrappingIntegers LabelledRuns CStrings DecimalText GetoptLong BlastHeader BlastSyscalls
  BlastMain BlastTraffic

/-- The variables that longopts points to. -/
inductive FlagVariable where
  | verboseFlag
  | deterministicFlag
  deriving DecidableEq

def optstring : Word := [104, 112, 58, 99, 58, 115, 58, 116, 58, 102, 86, 104]

def longopts : List (LongOption FlagVariable) :=
  [⟨[112, 111, 114, 116], true, none, 112⟩,
   ⟨[99, 111, 117, 110, 116], true, none, 99⟩,
   ⟨[112, 112, 115], true, none, 115⟩,
   ⟨[116, 105, 109, 101, 111, 117, 116], true, none, 116⟩,
   ⟨[102, 117, 122, 122], false, none, 102⟩,
   ⟨[100, 101, 116, 101, 114, 109, 105, 110, 105, 115, 116, 105, 99], false,
    some .deterministicFlag, 1⟩,
   ⟨[114, 97, 110, 100, 111, 109], false, some .deterministicFlag, 0⟩,
   ⟨[118, 101, 114, 98, 111, 115, 101], false, some .verboseFlag, 49⟩,
   ⟨[118, 101, 114, 115, 105, 111, 110], false, none, 86⟩,
   ⟨[104, 101, 108, 112], false, none, 104⟩]

/-- The variables of main that the options set, and the two flags; `none` is a null
pointer. -/
structure Settings where
  host : Word
  port : Option Word
  sendCount : ℕ
  pps : ℕ
  timeout : ℕ
  fuzz : Bool
  verboseFlag : UInt8
  deterministicFlag : UInt8

inductive Output where
  | timeout (shown : ℤ)
  | version
  | needsValue
  | unknownOption (optopt : UInt8)
  | verboseSet
  | deterministicSet
  | randomSet
  | extra (w : Word)
  deriving DecidableEq

def defaults (host : Word) : Settings where
  host := host
  port := some [100, 111, 109, 97, 105, 110]
  sendCount := ulongMax
  pps := ulongMax
  timeout := strtoul [54, 48, 48]
  fuzz := false
  verboseFlag := 0
  deterministicFlag := 1

/-- The switch on a result of getopt_long; `none` is a call of usage, which exits. -/
def switch (s : Settings) : Found FlagVariable → Option (Settings × List Output)
  | .option 104 _ => none
  | .option 112 optarg => some ({ s with port := optarg }, [])
  | .option 99 optarg => some ({ s with sendCount := strtoul (optarg.getD []) }, [])
  | .option 115 optarg => some ({ s with pps := strtoul (optarg.getD []) }, [])
  | .option 116 optarg =>
    let timeout := strtoul (optarg.getD [])
    some ({ s with timeout := timeout }, [.timeout (toSigned 64 timeout)])
  | .option 102 _ => some ({ s with fuzz := true }, [])
  | .option 86 _ => some (s, [.version])
  | .option 58 _ => some (s, [.needsValue])
  | .option _ _ => some (s, [])
  | .flag .verboseFlag val => some ({ s with verboseFlag := val }, [])
  | .flag .deterministicFlag val => some ({ s with deterministicFlag := val }, [])
  | .unknown optopt => some (s, [.unknownOption optopt])

def optionLoop (s : Settings) : List (Found FlagVariable) → Option Settings × List Output
  | [] => (some s, [])
  | f :: fs =>
    match switch s f with
    | none => (none, [])
    | some (s, out) =>
      let r := optionLoop s fs
      (r.1, out ++ r.2)

def flagOutput (s : Settings) : List Output :=
  (if s.verboseFlag ≠ 0 then [.verboseSet] else []) ++
    (if s.deterministicFlag ≠ 0 then [.deterministicSet] else []) ++
    (if ¬ s.deterministicFlag ≠ 0 then [.randomSet] else [])

inductive Parsing where
  | usage (out : List Output)
  | proceed (s : Settings) (out : List Output)

def options (posix : Bool) (argv : List Word) : List (Found FlagVariable) × List Word :=
  scan posix optstring longopts ⟨[], [], argv.drop 2⟩

/-- main up to get_sock. -/
def parseArguments (posix : Bool) (argv : List Word) : Parsing :=
  let argc := argv.length
  if argc < 2 ∨ argc > 11 then .usage []
  else
    let r := options posix argv
    match optionLoop (defaults (argv.getD 1 [])) r.1 with
    | (none, out) => .usage out
    | (some s, out) => .proceed s (out ++ flagOutput s ++ r.2.map .extra)

def seed (s : Settings) (clock : ℕ) : ℕ := if s.deterministicFlag ≠ 0 then 0 else clock % 2 ^ 32

def argument (c : UInt8) : Found FlagVariable → Option Word
  | .option d optarg => if d = c then optarg else none
  | _ => none

def flagValue (v : FlagVariable) : Found FlagVariable → Option UInt8
  | .flag u val => if u = v then some val else none
  | _ => none

def lastArgument (c : UInt8) (fs : List (Found FlagVariable)) : Option Word :=
  fs.reverse.findSome? (argument c)

def lastValue (v : FlagVariable) (fs : List (Found FlagVariable)) : Option UInt8 :=
  fs.reverse.findSome? (flagValue v)

/-- What the options are meant to set: of each the last one counts. -/
def chosen (s : Settings) (fs : List (Found FlagVariable)) : Settings where
  host := s.host
  port := (lastArgument 112 fs).or s.port
  sendCount := ((lastArgument 99 fs).map strtoul).getD s.sendCount
  pps := ((lastArgument 115 fs).map strtoul).getD s.pps
  timeout := ((lastArgument 116 fs).map strtoul).getD s.timeout
  fuzz := s.fuzz || fs.contains (.option 102 none)
  verboseFlag := (lastValue .verboseFlag fs).getD s.verboseFlag
  deterministicFlag := (lastValue .deterministicFlag fs).getD s.deterministicFlag

def extras (out : List Output) : List Word :=
  out.filterMap fun
    | .extra w => some w
    | _ => none

theorem lastArgument_cons (c : UInt8) (f : Found FlagVariable) (fs : List (Found FlagVariable)) :
    lastArgument c (f :: fs) = (lastArgument c fs).or (argument c f) := by
  simp [lastArgument]

theorem lastValue_cons (v : FlagVariable) (f : Found FlagVariable)
    (fs : List (Found FlagVariable)) :
    lastValue v (f :: fs) = (lastValue v fs).or (flagValue v f) := by
  simp [lastValue]

def Lettered (c : UInt8) (optarg : Option Word) : Prop :=
  (c = 112 ∨ c = 99 ∨ c = 115 ∨ c = 116) ∧ optarg.isSome = true ∨
    (c = 104 ∨ c = 102 ∨ c = 86) ∧ optarg.isSome = false

theorem shortOption_lettered {c : UInt8} {optarg : Option Word}
    (h : shortOption optstring c = some optarg.isSome) : Lettered c optarg := by
  have hc := shortOption_mem h
  unfold Lettered
  simp only [optstring, List.mem_cons, List.not_mem_nil, or_false] at hc
  rcases hc with rfl | rfl | rfl | rfl | rfl | rfl | rfl | rfl | rfl | rfl | rfl | rfl
  all_goals simp_all [shortOption, optstring, colon, semicolon]

theorem declared_lettered {c : UInt8} {optarg : Option Word}
    (h : Declared optstring longopts (.option c optarg)) : Lettered c optarg := by
  rcases h with h | ⟨o, ho, hflag, hval, harg⟩
  · exact shortOption_lettered h
  · simp only [longopts, List.mem_cons, List.not_mem_nil, or_false] at ho
    unfold Lettered
    rcases ho with rfl | rfl | rfl | rfl | rfl | rfl | rfl | rfl | rfl | rfl
    all_goals simp_all

structure Reported (fs : List (Found FlagVariable)) (out : List Output) : Prop where
  value : .needsValue ∉ out
  unknown : ∀ c, .unknownOption c ∈ out ↔ .unknown c ∈ fs
  extra : extras out = []

theorem Reported.append {fs gs : List (Found FlagVariable)} {out out' : List Output}
    (h : Reported fs out) (h' : Reported gs out') : Reported (fs ++ gs) (out ++ out') := by
  refine ⟨?_, ?_, ?_⟩
  · rw [List.mem_append]
    exact not_or.mpr ⟨h.value, h'.value⟩
  · intro c
    rw [List.mem_append, List.mem_append, h.unknown, h'.unknown]
  · rw [extras, List.filterMap_append]
    exact (congrArg₂ (· ++ ·) h.extra h'.extra).trans rfl

/-- One turn of the loop: either usage, or the switch does what is meant. -/
theorem switch_chosen (s : Settings) {f : Found FlagVariable}
    (hf : Declared optstring longopts f) (fs : List (Found FlagVariable)) :
    (∃ optarg, f = .option 104 optarg) ∧ switch s f = none ∨
      (∀ optarg, f ≠ .option 104 optarg) ∧ ∃ t out, switch s f = some (t, out) ∧
        chosen s (f :: fs) = chosen t fs ∧ Reported [f] out := by
  cases f with
  | option c optarg =>
    rcases declared_lettered hf with ⟨hc, harg⟩ | ⟨hc, harg⟩
    · obtain ⟨w, rfl⟩ := Option.isSome_iff_exists.mp harg
      right
      rcases hc with rfl | rfl | rfl | rfl
      all_goals
        refine ⟨by simp, _, _, rfl, ?_, by simp, by simp, rfl⟩
        simp [chosen, lastArgument_cons, lastValue_cons, argument, flagValue]
    · have hnone := Option.isSome_eq_false_iff.mp harg
      rw [Option.isNone_iff_eq_none] at hnone
      subst hnone
      rcases hc with rfl | rfl | rfl
      · exact Or.inl ⟨⟨none, rfl⟩, rfl⟩
      all_goals
        right
        refine ⟨by simp, _, _, rfl, ?_, by simp, by simp, rfl⟩
        simp [chosen, lastArgument_cons, lastValue_cons, argument, flagValue]
  | flag v val =>
    right
    cases v
    all_goals
      refine ⟨by simp, _, _, rfl, ?_, by simp, by simp, rfl⟩
      simp [chosen, lastArgument_cons, lastValue_cons, argument, flagValue]
  | unknown optopt =>
    right
    refine ⟨by simp, _, _, rfl, ?_, by simp, by simp, rfl⟩
    simp [chosen, lastArgument_cons, lastValue_cons, argument, flagValue]

def AsksHelp (fs : List (Found FlagVariable)) : Prop := ∃ optarg, .option 104 optarg ∈ fs

theorem asksHelp_cons {f : Found FlagVariable} (hf : ∀ optarg, f ≠ .option 104 optarg)
    (fs : List (Found FlagVariable)) : AsksHelp (f :: fs) ↔ AsksHelp fs := by
  constructor
  · rintro ⟨optarg, h⟩
    rcases List.mem_cons.mp h with h | h
    · exact absurd h.symm (hf optarg)
    · exact ⟨optarg, h⟩
  · rintro ⟨optarg, h⟩
    exact ⟨optarg, List.mem_cons_of_mem f h⟩

/-- The loop sets what is meant, unless an option asks for the usage line. -/
theorem optionLoop_chosen {fs : List (Found FlagVariable)}
    (hfs : ∀ f ∈ fs, Declared optstring longopts f) (s : Settings) :
    (AsksHelp fs ∧ ∃ out, .needsValue ∉ out ∧ optionLoop s fs = (none, out)) ∨
      (¬ AsksHelp fs ∧ ∃ out, Reported fs out ∧
        optionLoop s fs = (some (chosen s fs), out)) := by
  induction fs generalizing s with
  | nil =>
    refine Or.inr ⟨?_, [], ⟨by simp, by simp, rfl⟩, ?_⟩
    · rintro ⟨optarg, h⟩
      cases h
    · simp [optionLoop, chosen, lastArgument, lastValue]
  | cons f fs ih =>
    rcases switch_chosen s (hfs f List.mem_cons_self) fs with
      ⟨⟨optarg, rfl⟩, hs⟩ | ⟨hf, t, out, hs, hchosen, hreported⟩
    · refine Or.inl ⟨⟨optarg, List.mem_cons_self⟩, [], by simp, ?_⟩
      rw [optionLoop, hs]
    · simp only [asksHelp_cons hf, hchosen, optionLoop, hs]
      rcases ih (fun g hg => hfs g (List.mem_cons_of_mem f hg)) t with
        ⟨hasks, rest, hvalue, hr⟩ | ⟨hasks, rest, hrest, hr⟩
      · refine Or.inl ⟨hasks, out ++ rest, ?_, by rw [hr]⟩
        rw [List.mem_append]
        exact not_or.mpr ⟨hreported.value, hvalue⟩
      · exact Or.inr ⟨hasks, out ++ rest, hreported.append hrest, by rw [hr]⟩

theorem flagOutput_reported (s : Settings) : Reported [] (flagOutput s) := by
  unfold flagOutput
  split_ifs <;> exact ⟨by simp, by simp, rfl⟩

/-- What main makes of a command line, read off the results of getopt_long. -/
theorem parseArguments_chosen (posix : Bool) (argv : List Word) (hargc : 2 ≤ argv.length)
    (hfew : argv.length ≤ 11) :
    (AsksHelp (options posix argv).1 ∧
      ∃ out, .needsValue ∉ out ∧ parseArguments posix argv = .usage out) ∨
    (¬ AsksHelp (options posix argv).1 ∧ ∃ out, .needsValue ∉ out ∧
      (∀ c, .unknownOption c ∈ out ↔ .unknown c ∈ (options posix argv).1) ∧
      extras out = (options posix argv).2 ∧
      parseArguments posix argv =
        .proceed (chosen (defaults (argv.getD 1 [])) (options posix argv).1) out) := by
  have hin : ¬ (argv.length < 2 ∨ argv.length > 11) := by omega
  simp only [parseArguments, if_neg hin]
  have hdeclared : ∀ f ∈ (options posix argv).1, Declared optstring longopts f :=
    scan_declared _
  rcases optionLoop_chosen hdeclared (defaults (argv.getD 1 [])) with
    ⟨hasks, out, hvalue, hr⟩ | ⟨hasks, out, hout, hr⟩
  · exact Or.inl ⟨hasks, out, hvalue, by rw [hr]⟩
  · have hflags := hout.append (flagOutput_reported
      (chosen (defaults (argv.getD 1 [])) (options posix argv).1))
    have hwords : ∀ ws : List Word, extras (ws.map .extra) = ws := by
      intro ws
      simp [extras, List.filterMap_map]
    refine Or.inr ⟨hasks, _, ?_, ?_, ?_, by rw [hr]⟩
    · simp only [List.mem_append, List.mem_map, reduceCtorEq, and_false, exists_false, or_false]
      exact not_or.mpr ⟨hout.value, (flagOutput_reported _).value⟩
    · intro c
      have hmem := hflags.unknown c
      rw [List.append_nil] at hmem
      simpa using hmem
    · rw [extras, List.filterMap_append]
      exact (congrArg₂ (· ++ ·) hflags.extra (hwords _)).trans rfl

end BlastOptions
