import OpcServer.Adapters.SqliteHistorian
import OpcServer.Lib.CommandLine
import Mathlib.Tactic.FinCases

/-! The command line of the server. -/

namespace OpcServer.App

open Adapters CommandLine

inductive LogLevelOption where
  | trace | debug | info | warn | error
  deriving DecidableEq, Repr

inductive MetricsExportOption where
  | none | ostream | otlpHttp
  deriving DecidableEq, Repr

structure UaUser where
  username : String
  password : String
  deriving DecidableEq, Repr

structure CliOptions where
  projectPath : String := ""
  once : Bool := false
  watch : Bool := false
  watchPeriodMs : ℤ := 1000
  enableOpcua : Bool := true
  enableHistorian : Bool := true
  historianCapacity : ℕ := 4096
  historianDb : String := ""
  frameLogPath : String := ""
  logLevel : LogLevelOption := .info
  logFile : String := ""
  metricsExport : MetricsExportOption := .none
  tracesExport : MetricsExportOption := .none
  otlpEndpoint : String := ""
  runtimeDoctor : Bool := false
  uaCertPath : String := ""
  uaKeyPath : String := ""
  uaTrustPaths : List String := []
  uaRevocationPaths : List String := []
  uaStrictCerts : Bool := false
  uaAcceptUntrusted : Bool := false
  uaUsers : List UaUser := []
  uaDenyAnonymous : Bool := false
  uaAllowAnonymous : Bool := false
  uaAllowNonePassword : Bool := false
  uaAllowCertificateIdentity : Bool := false
  uaAllowNoneCertificate : Bool := false
  help : Bool := false
  version : Bool := false
  errors : List String := []
  deriving DecidableEq, Repr

def parseLogLevel (text : String) : Option LogLevelOption :=
  if text = "trace" then some .trace
  else if text = "debug" then some .debug
  else if text = "info" then some .info
  else if text = "warn" ∨ text = "warning" then some .warn
  else if text = "error" then some .error
  else none

def parseMetricsExport (text : String) : Option MetricsExportOption :=
  if text = "none" then some .none
  else if text = "ostream" ∨ text = "stdout" then some .ostream
  else if text = "otlp" ∨ text = "otlp-http" then some .otlpHttp
  else none

/-! ### The options -/

def cliFlags : List (String × (CliOptions → CliOptions)) :=
  [("--help", fun o => { o with help := true }),
    ("-h", fun o => { o with help := true }),
    ("--version", fun o => { o with version := true }),
    ("-V", fun o => { o with version := true }),
    ("--once", fun o => { o with once := true }),
    ("--watch", fun o => { o with watch := true }),
    ("--runtime-doctor", fun o => { o with runtimeDoctor := true }),
    ("--ua-strict-certs", fun o => { o with uaStrictCerts := true }),
    ("--ua-accept-untrusted", fun o => { o with uaAcceptUntrusted := true }),
    ("--ua-deny-anonymous", fun o => { o with uaDenyAnonymous := true }),
    ("--ua-allow-anonymous", fun o => { o with uaAllowAnonymous := true }),
    ("--ua-allow-none-password", fun o => { o with uaAllowNonePassword := true }),
    ("--ua-allow-certificate-identity", fun o => { o with uaAllowCertificateIdentity := true }),
    ("--ua-allow-none-certificate", fun o => { o with uaAllowNoneCertificate := true }),
    ("--no-opcua", fun o => { o with enableOpcua := false }),
    ("--no-historian", fun o => { o with enableHistorian := false })]

/-- What an option with a value does, and the text in the absence of the value. -/
structure ValueOption where
  missing : String
  set : String → CliOptions → Except String CliOptions

/-- An option that keeps its value as it is. -/
def keeps (missing : String) (set : String → CliOptions → CliOptions) : ValueOption where
  missing := missing
  set := fun text o => .ok (set text o)

/-- `--ua-user`: the name ends at the first colon. -/
def addUser (text : String) (o : CliOptions) : Except String CliOptions :=
  match text.toList.span (· ≠ ':') with
  | ([], _) | (_, []) => .error "--ua-user expects user:pass (non-empty user)"
  | (username, _ :: password) =>
    .ok { o with uaUsers := o.uaUsers ++ [⟨String.ofList username, String.ofList password⟩] }

def setPeriod (text : String) (o : CliOptions) : Except String CliOptions :=
  match SqliteHistorian.stoi text.toList with
  | none => .error "invalid --period-ms value"
  | some n => .ok { o with watchPeriodMs := n }

def setCapacity (text : String) (o : CliOptions) : Except String CliOptions :=
  match SqliteHistorian.stoi text.toList with
  | none => .error "invalid --historian-capacity value"
  | some n =>
    if n < 1 then .error "--historian-capacity must be >= 1"
    else .ok { o with historianCapacity := n.toNat }

def setLogLevel (text : String) (o : CliOptions) : Except String CliOptions :=
  match parseLogLevel text with
  | none => .error "invalid --log-level (use trace|debug|info|warn|error)"
  | some level => .ok { o with logLevel := level }

def setMetricsExport (text : String) (o : CliOptions) : Except String CliOptions :=
  match parseMetricsExport text with
  | none => .error "invalid --metrics-export (use none|ostream|otlp)"
  | some mode => .ok { o with metricsExport := mode }

def setTracesExport (text : String) (o : CliOptions) : Except String CliOptions :=
  match parseMetricsExport text with
  | none => .error "invalid --traces-export (use none|ostream|otlp)"
  | some mode => .ok { o with tracesExport := mode }

def cliValues : List (String × ValueOption) :=
  [("--ua-user", ⟨"--ua-user requires user:pass", addUser⟩),
    ("--ua-cert", keeps "--ua-cert requires a path" fun p o => { o with uaCertPath := p }),
    ("--ua-key", keeps "--ua-key requires a path" fun p o => { o with uaKeyPath := p }),
    ("--ua-trust", keeps "--ua-trust requires a path" fun p o =>
      { o with uaTrustPaths := o.uaTrustPaths ++ [p] }),
    ("--ua-crl", keeps "--ua-crl requires a path" fun p o =>
      { o with uaRevocationPaths := o.uaRevocationPaths ++ [p] }),
    ("--project", keeps "--project requires a path" fun p o => { o with projectPath := p }),
    ("--period-ms", ⟨"--period-ms requires a number", setPeriod⟩),
    ("--historian-capacity", ⟨"--historian-capacity requires a number", setCapacity⟩),
    ("--historian-db", keeps "--historian-db requires a path" fun p o => { o with historianDb := p }),
    ("--frame-log", keeps "--frame-log requires a path" fun p o => { o with frameLogPath := p }),
    ("--log-level", ⟨"--log-level requires a value", setLogLevel⟩),
    ("--log-file", keeps "--log-file requires a path" fun p o => { o with logFile := p }),
    ("--metrics-export", ⟨"--metrics-export requires a value", setMetricsExport⟩),
    ("--traces-export", ⟨"--traces-export requires a value", setTracesExport⟩),
    ("--otlp-endpoint", keeps "--otlp-endpoint requires a URL" fun p o =>
      { o with otlpEndpoint := p })]

/-- The names of the two tables differ, so the order of the tests does not matter. -/
def cliGrammar : Grammar CliOptions where
  flag := fun name => cliFlags.lookup name
  value := fun name => (cliValues.lookup name).map ValueOption.set
  missing := fun name => ((cliValues.lookup name).map ValueOption.missing).getD ""
  unknown := fun arg => "unknown argument: " ++ arg

/-- The first argument is the name of the program. -/
def parseCli (argv : List String) : CliOptions :=
  let (o, errors) := parse cliGrammar argv.tail {} []
  { o with errors := errors ++
      if o.watchPeriodMs < 10 then ["--period-ms must be >= 10"] else [] }

/-! ### Command lines without errors -/

/-- What a sequence of flags and of options with their values makes of the defaults. -/
def optionsOf (words : List Word) : Option CliOptions := words.foldlM cliGrammar.run {}

/-- A command line is accepted exactly when it is a sequence of known flags and of known
options with values that they take, and the period that results is long enough; the options
are then what the words say, one after another, however the command line is read as words. -/
theorem parseCli_ok_iff (argv : List String) :
    ((parseCli argv).errors = [] ↔ ∃ words o, words.flatMap Word.render = argv.tail ∧
      optionsOf words = some o ∧ 10 ≤ o.watchPeriodMs) ∧
    ∀ words o, words.flatMap Word.render = argv.tail → optionsOf words = some o →
      10 ≤ o.watchPeriodMs → parseCli argv = { o with errors := [] } := by
  have hwords : ∀ words o, words.flatMap Word.render = argv.tail → optionsOf words = some o →
      10 ≤ o.watchPeriodMs → parseCli argv = { o with errors := [] } := by
    intro words o hrender hrun hlong
    have hparse : parse cliGrammar argv.tail {} [] = (o, []) :=
      parse_eq_iff.mpr ⟨words, hrender, hrun⟩
    rw [parseCli, hparse]
    simp only [if_neg (not_lt.mpr hlong), List.append_nil]
  refine ⟨⟨?_, ?_⟩, hwords⟩
  · intro h
    obtain ⟨o, errors, hparse⟩ : ∃ o errors, parse cliGrammar argv.tail {} [] = (o, errors) :=
      ⟨_, _, rfl⟩
    have hcli : parseCli argv = { o with errors := errors ++
        if o.watchPeriodMs < 10 then ["--period-ms must be >= 10"] else [] } := by
      rw [parseCli, hparse]
    rw [hcli, List.append_eq_nil_iff] at h
    obtain ⟨rfl, hperiod⟩ := h
    obtain ⟨words, hrender, hrun⟩ := parse_eq_iff.mp hparse
    refine ⟨words, o, hrender, hrun, not_lt.mp ?_⟩
    intro hshort
    rw [if_pos hshort] at hperiod
    exact List.cons_ne_nil _ _ hperiod
  · rintro ⟨words, o, hrender, hrun, hlong⟩
    rw [hwords words o hrender hrun hlong]

/-- A user is named, and the period is set twice. -/
def watchWords : List Word :=
  [.flag "--watch", .value "--period-ms" "5", .value "--ua-user" "op:a:b",
    .value "--period-ms" "250"]

theorem watchWords_parsed :
    (parseCli ("opc_server" :: watchWords.flatMap Word.render)).errors = [] ∧
      parseCli ("opc_server" :: watchWords.flatMap Word.render) =
        { watch := true, watchPeriodMs := 250, uaUsers := [⟨"op", "a:b"⟩] } := by
  have hoptions : optionsOf watchWords =
      some { watch := true, watchPeriodMs := 250, uaUsers := [⟨"op", "a:b"⟩] } := by
    decide +kernel
  have hparsed := parseCli_ok_iff ("opc_server" :: watchWords.flatMap Word.render)
  exact ⟨hparsed.1.mpr ⟨watchWords, _, rfl, hoptions, by decide⟩,
    hparsed.2 watchWords _ rfl hoptions (by decide)⟩

/-! ### Flags -/

/-- The flags that switch something on, with what they switch on. -/
def cliSwitches : List (String × (CliOptions → Bool)) :=
  [("--once", CliOptions.once), ("--watch", CliOptions.watch),
    ("--runtime-doctor", CliOptions.runtimeDoctor), ("--ua-strict-certs", CliOptions.uaStrictCerts),
    ("--ua-accept-untrusted", CliOptions.uaAcceptUntrusted),
    ("--ua-deny-anonymous", CliOptions.uaDenyAnonymous),
    ("--ua-allow-anonymous", CliOptions.uaAllowAnonymous),
    ("--ua-allow-none-password", CliOptions.uaAllowNonePassword),
    ("--ua-allow-certificate-identity", CliOptions.uaAllowCertificateIdentity),
    ("--ua-allow-none-certificate", CliOptions.uaAllowNoneCertificate)]

theorem mem_of_lookup {β : Type} {table : List (String × β)} {name : String} {b : β}
    (h : table.lookup name = some b) : (name, b) ∈ table := by
  obtain ⟨before, after, hsplit, -⟩ := List.lookup_eq_some_iff.mp h
  rw [hsplit]
  exact List.mem_append_right _ List.mem_cons_self

theorem flag_run {name : String} {o o' : CliOptions}
    (h : cliGrammar.run o (.flag name) = some o') :
    ∃ set, (name, set) ∈ cliFlags ∧ set o = o' := by
  obtain ⟨set, hset, hrun⟩ := Option.map_eq_some_iff.mp h
  exact ⟨set, mem_of_lookup hset, hrun⟩

theorem value_run {name text : String} {o o' : CliOptions}
    (h : cliGrammar.run o (.value name text) = some o') :
    ∃ option, (name, option) ∈ cliValues ∧ option.set text o = .ok o' := by
  rw [Grammar.run] at h
  split_ifs at h
  obtain ⟨set, hset, hrun⟩ := Option.bind_eq_some_iff.mp h
  obtain ⟨option, hoption, rfl⟩ := Option.map_eq_some_iff.mp hset
  refine ⟨option, mem_of_lookup hoption, ?_⟩
  cases hs : option.set text o with
  | ok v =>
    rw [hs] at hrun
    exact congrArg Except.ok (Option.some.inj hrun)
  | error message =>
    rw [hs] at hrun
    cases hrun

/-- A flag switches on what stands next to it in the table, and nothing else there. -/
theorem flag_switches {name : String} {on : CliOptions → Bool} (h : (name, on) ∈ cliSwitches)
    {flag : String × (CliOptions → CliOptions)} (hflag : flag ∈ cliFlags) (o : CliOptions) :
    on (flag.2 o) = if flag.1 = name then true else on o := by
  have hall : ∀ s ∈ cliSwitches, ∀ f ∈ cliFlags,
      s.2 (f.2 o) = if f.1 = s.1 then true else s.2 o := by
    intro s hs f hf
    fin_cases hs <;> fin_cases hf <;> rfl
  exact hall _ h _ hflag

theorem keeps_set {missing : String} {set : String → CliOptions → CliOptions} {text : String}
    {o o' : CliOptions} (h : (keeps missing set).set text o = .ok o') : o' = set text o :=
  (Except.ok.inj h).symm

/-- No value switches anything on. -/
theorem value_switches {name : String} {on : CliOptions → Bool} (h : (name, on) ∈ cliSwitches)
    {option : String × ValueOption} (hoption : option ∈ cliValues) {text : String}
    {o o' : CliOptions} (hset : option.2.set text o = .ok o') : on o' = on o := by
  have hsame : cliSwitches.map (fun s => s.2 o') = cliSwitches.map fun s => s.2 o := by
    simp only [cliValues, List.mem_cons, List.not_mem_nil, or_false] at hoption
    rcases hoption with rfl | rfl | rfl | rfl | rfl | rfl | rfl | rfl | rfl | rfl | rfl | rfl | rfl |
      rfl | rfl
    · simp only [addUser] at hset
      split at hset <;> cases hset
      rfl
    · cases keeps_set hset
      rfl
    · cases keeps_set hset
      rfl
    · cases keeps_set hset
      rfl
    · cases keeps_set hset
      rfl
    · cases keeps_set hset
      rfl
    · simp only [setPeriod] at hset
      split at hset <;> cases hset
      rfl
    · simp only [setCapacity] at hset
      split at hset
      · cases hset
      · split_ifs at hset
        cases hset
        rfl
    · cases keeps_set hset
      rfl
    · cases keeps_set hset
      rfl
    · simp only [setLogLevel] at hset
      split at hset <;> cases hset
      rfl
    · cases keeps_set hset
      rfl
    · simp only [setMetricsExport] at hset
      split at hset <;> cases hset
      rfl
    · simp only [setTracesExport] at hset
      split at hset <;> cases hset
      rfl
    · cases keeps_set hset
      rfl
  exact List.map_inj_left.mp hsame _ h

/-- A switch is on exactly when its flag is among the words: what is the value of another
option does not count. -/
theorem optionsOf_switch_iff {name : String} {on : CliOptions → Bool}
    (h : (name, on) ∈ cliSwitches) {words : List Word} {o : CliOptions}
    (ho : optionsOf words = some o) : on o = true ↔ .flag name ∈ words := by
  have hoff : on {} = false := by
    have hall : ∀ s ∈ cliSwitches, s.2 {} = false := by decide
    exact hall _ h
  have hswitch := switch_iff (g := cliGrammar) on (· = .flag name)
    (by
      rintro _ s t rfl hrun
      obtain ⟨set, hset, rfl⟩ := flag_run hrun
      rw [flag_switches h hset, if_pos rfl])
    (by
      intro w s t hw hrun
      cases w with
      | flag other =>
        obtain ⟨set, hset, rfl⟩ := flag_run hrun
        rw [flag_switches h hset, if_neg fun he => hw (congrArg Word.flag he)]
      | value other text =>
        obtain ⟨option, hoption, hset⟩ := value_run hrun
        exact value_switches h hoption hset)
    ho
  rw [hswitch, hoff]
  simp only [Bool.false_eq_true, false_or, exists_eq_right]

/-- A flag that is the value of another option switches nothing on. -/
example : (optionsOf [.value "--project" "--ua-allow-anonymous", .flag "--watch"]).map
    (fun o => (o.uaAllowAnonymous, o.watch)) = some (false, true) := by decide +kernel

end OpcServer.App
