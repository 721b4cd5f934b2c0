import DnsBlast.BlastOptions

/-! What the command line of dnsblast.c decides: which lines main accepts, which processes
they start, and what these send. -/
namespace BlastCommandLine

open LabelledRuns CStrings DecimalText GetoptLong BlastHeader BlastQuestion BlastSyscalls
  BlastMain BlastTraffic BlastOptions

def Accepted (posix : Bool) (argv : List Word) (s : Settings) (words : List Word) : Prop :=
  ∃ out, parseArguments posix argv = .proceed s out ∧ (∀ c, .unknownOption c ∉ out) ∧
    extras out = words

theorem options_cons (posix : Bool) (program host : Word) (line : List Word) :
    options posix (program :: host :: line) =
      scan posix optstring longopts ⟨[], [], line⟩ := rfl

theorem parseArguments_proceeds {posix : Bool} {argv : List Word} {s : Settings}
    {out : List Output} (h : parseArguments posix argv = .proceed s out) :
    ∃ program host line, argv = program :: host :: line ∧ line.length ≤ 9 ∧
      ¬ AsksHelp (options posix argv).1 ∧
      s = chosen (defaults host) (options posix argv).1 ∧ .needsValue ∉ out ∧
      (∀ c, .unknownOption c ∈ out ↔ .unknown c ∈ (options posix argv).1) ∧
      extras out = (options posix argv).2 := by
  by_cases hargc : argv.length < 2 ∨ argv.length > 11
  · simp only [parseArguments, if_pos hargc] at h
    cases h
  · rcases argv with _ | ⟨program, _ | ⟨host, line⟩⟩
    · simp at hargc
    · simp at hargc
    · simp only [List.length_cons, not_or, not_lt] at hargc
      rcases parseArguments_chosen posix (program :: host :: line) (by simp)
          (by simp; omega) with ⟨-, rest, -, hr⟩ | ⟨hasks, rest, hvalue, hunknown, hextra, hr⟩
      · rw [hr] at h
        cases h
      · rw [hr] at h
        cases h
        exact ⟨program, host, line, rfl, by omega, hasks, rfl, hvalue, hunknown, hextra⟩

/-- main accepts exactly the lines of at most nine words behind the host that options of the
tables make up: in any order, in clusters, with values joined or apart, with long names cut
short where one option is left, plain words between them. Of each option the last one
counts. -/
theorem accepted_iff (posix : Bool) (argv : List Word) (s : Settings) (words : List Word) :
    Accepted posix argv s words ↔ ∃ program host line fs, argv = program :: host :: line ∧
      line.length ≤ 9 ∧ Grammar posix optstring longopts line fs words ∧ ¬ AsksHelp fs ∧
      s = chosen (defaults host) fs := by
  constructor
  · rintro ⟨out, h, hquiet, rfl⟩
    obtain ⟨program, host, line, rfl, hfew, hasks, hs, -, hunknown, hextra⟩ :=
      parseArguments_proceeds h
    have hclean : Clean (options posix (program :: host :: line)).1 :=
      fun c hc => hquiet c ((hunknown c).mpr hc)
    exact ⟨program, host, line, _, rfl, hfew, scan_eq_iff.mp ⟨by rw [hextra]; rfl, hclean⟩,
      hasks, hs⟩
  · rintro ⟨program, host, line, fs, rfl, hfew, hgrammar, hasks, rfl⟩
    obtain ⟨hscan, hclean⟩ := scan_eq_iff.mpr hgrammar
    rcases parseArguments_chosen posix (program :: host :: line) (by simp)
        (by simp; omega) with ⟨hhelp, -⟩ | ⟨-, out, -, hunknown, hextra, hr⟩
    · rw [options_cons, hscan] at hhelp
      exact absurd hhelp hasks
    · rw [options_cons, hscan] at hunknown hextra hr
      exact ⟨out, hr, fun c hc => hclean c ((hunknown c).mp hc), hextra⟩

theorem flagValue_mem {v : FlagVariable} {fs : List (Found FlagVariable)} {val : UInt8}
    (h : lastValue v fs = some val) : .flag v val ∈ fs := by
  obtain ⟨f, hf, hval⟩ := List.exists_of_findSome?_eq_some h
  unfold flagValue at hval
  split at hval
  · obtain ⟨hu, hval⟩ := Option.ite_none_right_eq_some.mp hval
    cases hval
    exact hu ▸ List.mem_reverse.mp hf
  · cases hval

/-- The values that longopts gives to the two flags. -/
theorem declared_value {v : FlagVariable} {val : UInt8}
    (h : Declared optstring longopts (.flag v val)) :
    v = .verboseFlag ∧ val = 49 ∨ v = .deterministicFlag ∧ (val = 0 ∨ val = 1) := by
  obtain ⟨o, ho, hflag, hval⟩ := h
  simp only [longopts, List.mem_cons, List.not_mem_nil, or_false] at ho
  rcases ho with rfl | rfl | rfl | rfl | rfl | rfl | rfl | rfl | rfl | rfl
  all_goals simp_all

theorem number_lt (text : Option Word) {d : ℕ} (hd : d < 2 ^ 64) :
    (text.map strtoul).getD d < 2 ^ 64 := by
  cases text with
  | none => exact hd
  | some text => exact strtoul_lt text

structure Ready (host : Word) (s : Settings) : Prop where
  host : s.host = host
  port : s.port ≠ none
  sendCount : s.sendCount < 2 ^ 64
  pps : s.pps < 2 ^ 64
  timeout : s.timeout < 2 ^ 64
  verboseFlag : s.verboseFlag = 0 ∨ s.verboseFlag = 49
  deterministicFlag : s.deterministicFlag = 0 ∨ s.deterministicFlag = 1

theorem chosen_ready {fs : List (Found FlagVariable)}
    (hfs : ∀ f ∈ fs, Declared optstring longopts f) (host : Word) :
    Ready host (chosen (defaults host) fs) := by
  have hmax : ulongMax < 2 ^ 64 := by decide
  have htimeout : (defaults host).timeout < 2 ^ 64 := strtoul_lt [54, 48, 48]
  have hvalue : ∀ (v : FlagVariable) (d : UInt8), (lastValue v fs).getD d = d ∨
      Declared optstring longopts (.flag v ((lastValue v fs).getD d)) := by
    intro v d
    cases h : lastValue v fs with
    | none => exact Or.inl rfl
    | some val => exact Or.inr (hfs _ (flagValue_mem h))
  refine ⟨rfl, ?_, number_lt _ hmax, number_lt _ hmax, number_lt _ htimeout, ?_, ?_⟩
  · simp [chosen, defaults]
  · rcases hvalue .verboseFlag 0 with h | h
    · exact Or.inl h
    · rcases declared_value h with ⟨-, hval⟩ | ⟨hv, -⟩
      · exact Or.inr hval
      · cases hv
  · rcases hvalue .deterministicFlag 1 with h | h
    · exact Or.inr h
    · rcases declared_value h with ⟨hv, -⟩ | ⟨-, hval⟩
      · cases hv
      · exact hval

/-- The settings of a process that has passed `assert(send_count > 0UL)`. -/
structure Starts (s : Settings) (o : Options) : Prop where
  sendCount : o.sendCount = s.sendCount
  pps : o.pps = s.pps
  timeout : o.timeout = s.timeout
  fuzz : o.fuzz = s.fuzz
  verbose : o.verbose = decide (s.verboseFlag ≠ 0)

theorem Ready.starts_iff {host : Word} {s : Settings} (h : Ready host s) :
    (∃ o, Starts s o) ↔ 0 < s.sendCount := by
  constructor
  · rintro ⟨o, ho⟩
    exact ho.sendCount ▸ o.sendCount_pos
  · intro hpos
    exact ⟨⟨s.pps, s.sendCount, s.timeout, s.fuzz, decide (s.verboseFlag ≠ 0), h.pps, hpos,
      h.sendCount, h.timeout⟩, rfl, rfl, rfl, rfl, rfl⟩

/-- Every command line, whatever is written on it, gives the usage line or settings that the
rest of main can rely on. strtoul is never called on a null pointer, and the case ':' of the
switch is never reached. -/
theorem every_command_line (posix : Bool) (argv : List Word) :
    (∀ c optarg, .option c optarg ∈ (options posix argv).1 → Lettered c optarg) ∧
    ((argv.length < 2 ∨ 11 < argv.length ∨ AsksHelp (options posix argv).1) ∧
        (∃ out, .needsValue ∉ out ∧ parseArguments posix argv = .usage out) ∨
      ¬ (argv.length < 2 ∨ 11 < argv.length ∨ AsksHelp (options posix argv).1) ∧
        ∃ s out, parseArguments posix argv = .proceed s out ∧ .needsValue ∉ out ∧
          Ready (argv.getD 1 []) s ∧ ((∃ o, Starts s o) ↔ 0 < s.sendCount)) := by
  have hdeclared : ∀ f ∈ (options posix argv).1, Declared optstring longopts f :=
    scan_declared _
  refine ⟨fun c optarg h => declared_lettered (hdeclared _ h), ?_⟩
  by_cases hargc : argv.length < 2 ∨ argv.length > 11
  · refine Or.inl ⟨hargc.imp_right Or.inl, [], by simp, ?_⟩
    simp only [parseArguments, if_pos hargc]
  · obtain ⟨hmin, hmax⟩ := not_or.mp hargc
    rcases parseArguments_chosen posix argv (not_lt.mp hmin) (not_lt.mp hmax) with
      ⟨hasks, out, hvalue, hr⟩ | ⟨hasks, out, hvalue, -, -, hr⟩
    · exact Or.inl ⟨Or.inr (Or.inr hasks), out, hvalue, hr⟩
    · have hready := chosen_ready hdeclared (argv.getD 1 [])
      exact Or.inr ⟨not_or.mpr ⟨hmin, not_or.mpr ⟨hmax, hasks⟩⟩, _, out, hr, hvalue, hready,
        hready.starts_iff⟩

/-- A number as one writes it on a command line. -/
theorem strtoul_decimal {n : ℕ} (h : n < 2 ^ 64) : strtoul (decimal n) = n := by
  obtain ⟨hplain, hvalue⟩ := decimal_plain_value n
  exact (strtoul_plain hplain (by rwa [hvalue])).trans hvalue

def whenSet (b : Bool) (w : Word) : List Word := if b then [w] else []

/-- `--<name>=<value>`. -/
def assignment (name value : Word) : Word := hyphen :: hyphen :: (name ++ equals :: value)

/-- `--port=<port> --count=<n> --pps=<n> --timeout=<n> [-f] [--verbose] [--random]`. -/
def commandLine (o : Options) (port : Word) (random : Bool) : List Word :=
  [assignment [112, 111, 114, 116] port,
   assignment [99, 111, 117, 110, 116] (decimal o.sendCount),
   assignment [112, 112, 115] (decimal o.pps),
   assignment [116, 105, 109, 101, 111, 117, 116] (decimal o.timeout)] ++
  (whenSet o.fuzz [45, 102] ++
    (whenSet o.verbose [45, 45, 118, 101, 114, 98, 111, 115, 101] ++
      whenSet random [45, 45, 114, 97, 110, 100, 111, 109]))

def foundOptions (o : Options) (port : Word) (random : Bool) : List (Found FlagVariable) :=
  [.option 112 (some port), .option 99 (some (decimal o.sendCount)),
   .option 115 (some (decimal o.pps)), .option 116 (some (decimal o.timeout))] ++
  ((if o.fuzz then [.option 102 none] else []) ++
    ((if o.verbose then [.flag .verboseFlag 49] else []) ++
      if random then [.flag .deterministicFlag 0] else []))

section Writing
variable {posix : Bool} {us : List Word} {fs : List (Found FlagVariable)}

theorem written_assignment {name : Word} {c : UInt8} (value : Word) (hname : equals ∉ name)
    (ho : longOption longopts name = some ⟨name, true, none, c⟩)
    (hs : Written posix optstring longopts us fs []) :
    Written posix optstring longopts (assignment name value :: us)
      (.option c (some value) :: fs) [] :=
  .cons (.longJoined hname ho rfl) hs

theorem written_whenSet {w : Word} {f : Found FlagVariable}
    (hf : Spelled posix optstring longopts [w] [f] []) (b : Bool)
    (hs : Written posix optstring longopts us fs []) :
    Written posix optstring longopts (whenSet b w ++ us) ((if b then [f] else []) ++ fs) [] := by
  cases b with
  | false => exact hs
  | true => exact .cons hf hs

theorem written_commandLine (posix : Bool) (o : Options) (port : Word) (random : Bool) :
    Written posix optstring longopts (commandLine o port random)
      (foundOptions o port random) [] := by
  have hport : longOption longopts [112, 111, 114, 116] =
      some ⟨[112, 111, 114, 116], true, none, 112⟩ := by decide
  have hcount : longOption longopts [99, 111, 117, 110, 116] =
      some ⟨[99, 111, 117, 110, 116], true, none, 99⟩ := by decide
  have hpps : longOption longopts [112, 112, 115] =
      some ⟨[112, 112, 115], true, none, 115⟩ := by decide
  have htimeout : longOption longopts [116, 105, 109, 101, 111, 117, 116] =
      some ⟨[116, 105, 109, 101, 111, 117, 116], true, none, 116⟩ := by decide
  have hletter : shortOption optstring 102 = some false := by decide
  have hfuzz : Spelled posix optstring longopts [[45, 102]] [.option 102 none] [] :=
    .cluster (by decide) (by simpa using hletter)
  have hverbose : longOption longopts [118, 101, 114, 98, 111, 115, 101] =
      some ⟨[118, 101, 114, 98, 111, 115, 101], false, some .verboseFlag, 49⟩ := by decide
  have hrandom : longOption longopts [114, 97, 110, 100, 111, 109] =
      some ⟨[114, 97, 110, 100, 111, 109], false, some .deterministicFlag, 0⟩ := by decide
  have hlast : Written posix optstring longopts
      (whenSet random [45, 45, 114, 97, 110, 100, 111, 109] ++ [])
      ((if random then [.flag .deterministicFlag 0] else []) ++ []) [] :=
    written_whenSet (.long (by decide) (by decide) hrandom rfl) random .nil
  rw [List.append_nil, List.append_nil] at hlast
  exact written_assignment port (by decide) hport
    (written_assignment _ (by decide) hcount
      (written_assignment _ (by decide) hpps
        (written_assignment _ (by decide) htimeout
          (written_whenSet hfuzz o.fuzz
            (written_whenSet (.long (by decide) (by decide) hverbose rfl) o.verbose hlast)))))

end Writing

theorem commandLine_length (o : Options) (port : Word) (random : Bool) :
    (commandLine o port random).length ≤ 7 := by
  have hone : ∀ (b : Bool) (w : Word), (whenSet b w).length ≤ 1 := by
    intro b w
    cases b <;> simp [whenSet]
  have hfuzz := hone o.fuzz [45, 102]
  have hverbose := hone o.verbose [45, 45, 118, 101, 114, 98, 111, 115, 101]
  have hrandom := hone random [45, 45, 114, 97, 110, 100, 111, 109]
  simp only [commandLine, List.length_append, List.length_cons, List.length_nil]
  omega

theorem foundOptions_chosen (o : Options) (host port : Word) (random : Bool) :
    let s := chosen (defaults host) (foundOptions o port random)
    Starts s o ∧ s.port = some port ∧ (s.deterministicFlag = 0 ↔ random = true) := by
  have hcount := strtoul_decimal o.sendCount_lt
  have hpps := strtoul_decimal o.pps_lt
  have htimeout := strtoul_decimal o.timeout_lt
  cases hf : o.fuzz <;> cases hv : o.verbose <;> cases random
  all_goals
    simp only [foundOptions, hf, hv]
    refine ⟨⟨hcount.symm, hpps.symm, htimeout.symm, hf, ?_⟩, rfl, ?_⟩
    · simp [hv, chosen, defaults, lastValue, List.findSome?_cons, flagValue]
    · simp [chosen, defaults, lastValue, List.findSome?_cons, flagValue]

/-- Eleven words are enough for every process of every host and port, with either seed. -/
theorem every_process_started (posix : Bool) (program host port : Word) (o : Options)
    (random : Bool) : ∃ line s, Accepted posix (program :: host :: line) s [] ∧ s.host = host ∧
      s.port = some port ∧ Starts s o ∧ (s.deterministicFlag = 0 ↔ random = true) := by
  obtain ⟨hstarts, hport, hflag⟩ := foundOptions_chosen o host port random
  have hgrammar : Grammar posix optstring longopts (commandLine o port random)
      (foundOptions o port random) [] :=
    ⟨_, [], [], [], (List.append_nil _).symm, rfl, written_commandLine posix o port random,
      .nothing⟩
  have hasks : ¬ AsksHelp (foundOptions o port random) := by
    rintro ⟨optarg, h⟩
    cases hf : o.fuzz <;> cases hv : o.verbose <;> cases random
    all_goals simp [foundOptions, hf, hv] at h
  have hfew := commandLine_length o port random
  exact ⟨_, _, (accepted_iff posix _ _ []).mpr ⟨program, host, _, _, rfl, by omega, hgrammar,
    hasks, rfl⟩, rfl, hport, hstarts, hflag⟩

def chosenSeed (fs : List (Found FlagVariable)) (clock : ℕ) : ℕ :=
  if lastValue .deterministicFlag fs = some 0 then clock % 2 ^ 32 else 0

theorem seed_chosen (host : Word) (fs : List (Found FlagVariable)) (clock : ℕ) :
    seed (chosen (defaults host) fs) clock = chosenSeed fs clock := by
  cases h : lastValue .deterministicFlag fs with
  | none => simp [seed, chosen, chosenSeed, h, defaults]
  | some val => simp [seed, chosen, chosenSeed, h]

/-- Whatever the host, the port, the count, the rate, the timeout, the spelling of the options
and the network are, the datagrams are those of seed 0 in their order. Only -f changes them,
and a last --random, which takes the seed from the clock. -/
theorem traffic_of_command_line {P : Platform} (rands : ℕ → RandStream P) (clock : ℕ)
    {posix : Bool} {argv : List Word} {s : Settings} {out : List Output} {o : Options} {now : ℕ}
    {ok : State → Event → Prop} {es : List Event} {t : State}
    (h : parseArguments posix argv = .proceed s out) (hs : Starts s o)
    (hrun : Execution (next P (rands (seed s clock)).value o.verbose) ok (start o now) es t) :
    let fs := (options posix argv).1
    let ρ := (rands (chosenSeed fs clock)).value
    t.1.wire = (traffic P ρ (ask P ρ) (firstSender (fs.contains (.option 102 none)))
      t.1.wire.length).sent := by
  obtain ⟨program, host, line, rfl, -, -, rfl, -⟩ := parseArguments_proceeds h
  obtain ⟨n, hn⟩ := execution_emits hrun
  have hfuzz : o.fuzz = (options posix (program :: host :: line)).1.contains (.option 102 none) :=
    hs.fuzz
  rw [seed_chosen, hfuzz] at hn
  intro fs ρ
  have hwire := (wire_isPrefix_handed t).trans hn.handed_isPrefix
  have hle : t.1.wire.length ≤ n := by
    have hlen := hwire.length_le
    rwa [traffic_length] at hlen
  have hgrows := traffic_grows P ρ (ask P ρ) (firstSender (fs.contains (.option 102 none))) hle
  exact (List.prefix_of_prefix_length_le hwire hgrows (by rw [traffic_length])).eq_of_length
    (by rw [traffic_length])

/-- `dnsblast h -c2 --r -s1`. -/
def twoRandom : List Word := [[100], [104], [45, 99, 50], [45, 45, 114], [45, 115, 49]]

theorem traffic_of_command_line_random : ∃ (fs : List (Found FlagVariable)) (t : State),
    chosenSeed fs 7 = 7 ∧ t.1.wire.length = 1 ∧
    t.1.wire = (traffic glibc (fun _ => 0) (ask glibc fun _ => 0)
      (firstSender (fs.contains (.option 102 none))) t.1.wire.length).sent := by
  let ρ := constantStream glibc 0 (by decide)
  obtain ⟨s, out, hparse, hs, hseed⟩ : ∃ s out, parseArguments false twoRandom = .proceed s out ∧
      Starts s slow ∧ chosenSeed (options false twoRandom).1 7 = 7 :=
    ⟨_, _, rfl, ⟨rfl, rfl, rfl, rfl, by decide⟩, by decide⟩
  obtain ⟨t, hrun, ht⟩ : ∃ t, Execution (next glibc ρ.value slow.verbose)
      Free (start slow 0) [⟨5, .clock⟩, ⟨6, .accepted⟩] t ∧ t.1.wire.length = 1 :=
    ⟨_, free_trace_execution rfl, rfl⟩
  exact ⟨_, t, hseed, ht, traffic_of_command_line (fun _ => ρ) 7 hparse hs hrun⟩

end BlastCommandLine
