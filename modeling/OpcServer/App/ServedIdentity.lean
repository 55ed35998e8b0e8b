import OpcServer.Adapters.OpcUaServer
import OpcServer.App.CliOptions
import OpcServer.Project.Load

/-! Whom the server lets in, and over which channels: from the command line and the project
file to the configuration that runs. -/

namespace OpcServer.App

open Adapters CommandLine Domain Project

/-! ### What the application makes of the options -/

/-- A field that is set when an option is given. -/
def setIf (given : Bool) (set : OpcUaSettings → OpcUaSettings) (opcua : OpcUaSettings) :
    OpcUaSettings :=
  if given then set opcua else opcua

/-- The options bring the first user, or the first permission of certificates. -/
def introducesIdentity (options : CliOptions) (opcua : OpcUaSettings) : Bool :=
  (!options.uaUsers.isEmpty && opcua.users.isEmpty) ||
    (options.uaAllowCertificateIdentity && !opcua.allowCertificateIdentity)

/-- The identity options of `Application::init`, laid over the project's section. -/
def overlayIdentity (options : CliOptions) (opcua : OpcUaSettings) : OpcUaSettings :=
  if options.uaUsers.isEmpty && !options.uaDenyAnonymous && !options.uaAllowAnonymous &&
      !options.uaAllowNonePassword && !options.uaAllowCertificateIdentity &&
      !options.uaAllowNoneCertificate then opcua
  else
    { opcua with users := opcua.users ++ options.uaUsers.map fun u => ⟨u.username, u.password⟩ }
      |> setIf (introducesIdentity options opcua && !options.uaAllowAnonymous &&
          !options.uaDenyAnonymous) (fun o => { o with allowAnonymous := false })
      |> setIf options.uaDenyAnonymous (fun o => { o with allowAnonymous := false })
      |> setIf options.uaAllowAnonymous (fun o => { o with allowAnonymous := true })
      |> setIf options.uaAllowNonePassword (fun o => { o with allowNonePassword := true })
      |> setIf options.uaAllowCertificateIdentity
          (fun o => { o with allowCertificateIdentity := true })
      |> setIf options.uaAllowNoneCertificate (fun o => { o with allowNoneCertificate := true })

/-- The security options that `Application::init` gives the server. -/
def pkiOptions (options : CliOptions) (opcua : OpcUaSettings) : OpcUaSecurityOptions where
  certificatePath := options.uaCertPath
  privateKeyPath := options.uaKeyPath
  trustList := options.uaTrustPaths
  revocationList := options.uaRevocationPaths
  acceptUntrusted :=
    if options.uaStrictCerts then false
    else if opcua.securityMode ≠ .none then options.uaAcceptUntrusted
    else true

/-- The configuration of the server that the options and the section give. -/
def startServer (lib : UaLibrary) (options : CliOptions) (opcua : OpcUaSettings) (name : String) :
    Result ServerConfig :=
  OpcUaServer.start lib (pkiOptions options (overlayIdentity options opcua))
    (overlayIdentity options opcua) name

/-! ### The section after the options -/

section Overlay
variable (options : CliOptions) (opcua : OpcUaSettings)

theorem setIf_all (introduces deny allow password cert noneCert : Bool) (o : OpcUaSettings) :
    (o |> setIf (introduces && !allow && !deny) (fun o => { o with allowAnonymous := false })
      |> setIf deny (fun o => { o with allowAnonymous := false })
      |> setIf allow (fun o => { o with allowAnonymous := true })
      |> setIf password (fun o => { o with allowNonePassword := true })
      |> setIf cert (fun o => { o with allowCertificateIdentity := true })
      |> setIf noneCert (fun o => { o with allowNoneCertificate := true })) =
    { o with
      allowAnonymous := allow || (!deny && !introduces && o.allowAnonymous)
      allowNonePassword := password || o.allowNonePassword
      allowCertificateIdentity := cert || o.allowCertificateIdentity
      allowNoneCertificate := noneCert || o.allowNoneCertificate } := by
  cases introduces <;> cases deny <;> cases allow <;> cases password <;> cases cert <;>
    cases noneCert <;> rfl

theorem overlayIdentity_eq : overlayIdentity options opcua =
    { opcua with
      users := opcua.users ++ options.uaUsers.map fun u => ⟨u.username, u.password⟩
      allowAnonymous := options.uaAllowAnonymous || (!options.uaDenyAnonymous &&
        !introducesIdentity options opcua && opcua.allowAnonymous)
      allowNonePassword := options.uaAllowNonePassword || opcua.allowNonePassword
      allowCertificateIdentity :=
        options.uaAllowCertificateIdentity || opcua.allowCertificateIdentity
      allowNoneCertificate := options.uaAllowNoneCertificate || opcua.allowNoneCertificate } := by
  unfold overlayIdentity
  split
  · next hnone =>
    simp only [Bool.and_eq_true, Bool.not_eq_true', List.isEmpty_iff] at hnone
    obtain ⟨⟨⟨⟨⟨husers, hdeny⟩, hallow⟩, hpassword⟩, hcert⟩, hnoneCert⟩ := hnone
    simp only [introducesIdentity, husers, hdeny, hallow, hpassword, hcert, hnoneCert,
      List.map_nil, List.append_nil, List.isEmpty_nil, Bool.not_true, Bool.not_false,
      Bool.false_and, Bool.false_or, Bool.true_and]
  · exact setIf_all _ _ _ _ _ _ _

end Overlay

/-! ### Servers that started -/

section Served
variable [Platform] {lib : UaLibrary} {words : List Word} {o : CliOptions} {root : Json}
  {name : String} {config : ServerConfig}

/-- The `opcua` section of a project file. -/
def opcuaSection (root : Json) : Json :=
  match root.get? "opcua" with
  | some (.object fields) => .object fields
  | _ => .object []

theorem parseOpcuaSection_eq (root : Json) :
    (parseOpcuaSection root).1 = (parseOpcua (opcuaSection root)).1 := by
  unfold parseOpcuaSection opcuaSection
  cases root.get? "opcua" with
  | none => rfl
  | some value => cases value <;> rfl

omit [Platform] in
theorem getD_true {value : Option Bool} {default : Bool} :
    value.getD default = true ↔ value = some true ∨ value = none ∧ default = true := by
  cases value with
  | none => simp
  | some v => simp

omit [Platform] in
theorem getD_false {value : Option Bool} : value.getD false = true ↔ value = some true := by
  simp [getD_true]

omit [Platform] in
theorem switch_mem (ho : optionsOf words = some o) (flag : String) {on : CliOptions → Bool}
    (h : cliSwitches.lookup flag = some on) : on o = true ↔ .flag flag ∈ words :=
  optionsOf_switch_iff (mem_of_lookup h) ho

/-- Anonymous users are let in when the command line says so; otherwise only when it does not
deny it or bring the first identity, and the file allows it or has no identity either. -/
theorem served_anonymous_iff (hlib : lib.Documented) (ho : optionsOf words = some o)
    (h : startServer lib o (parseOpcuaSection root).1 name = .ok config) :
    config.accessControl.anonymous = true ↔
      .flag "--ua-allow-anonymous" ∈ words ∨
      .flag "--ua-deny-anonymous" ∉ words ∧
        (o.uaUsers ≠ [] → (parseOpcuaSection root).1.users ≠ []) ∧
        (.flag "--ua-allow-certificate-identity" ∈ words →
          (opcuaSection root).bool? "allowCertificateIdentity" = some true) ∧
        ((opcuaSection root).bool? "allowAnonymous" = some true ∨
          (opcuaSection root).bool? "allowAnonymous" = none ∧ (parseOpcuaSection root).1.users = [] ∧
            (opcuaSection root).bool? "allowCertificateIdentity" ≠ some true) := by
  have hadmits := (start_admits hlib h).anonymous
  have hallow := switch_mem ho "--ua-allow-anonymous" rfl
  have hdeny := switch_mem ho "--ua-deny-anonymous" rfl
  have hcert := switch_mem ho "--ua-allow-certificate-identity" rfl
  have hfile : (parseOpcuaSection root).1.allowCertificateIdentity = true ↔
      (opcuaSection root).bool? "allowCertificateIdentity" = some true := by
    rw [parseOpcuaSection_eq]
    exact getD_false
  have hanonymous : (parseOpcuaSection root).1.allowAnonymous = true ↔
      (opcuaSection root).bool? "allowAnonymous" = some true ∨
        (opcuaSection root).bool? "allowAnonymous" = none ∧ (parseOpcuaSection root).1.users = [] ∧
          (opcuaSection root).bool? "allowCertificateIdentity" ≠ some true := by
    rw [parseOpcuaSection_eq]
    refine getD_true.trans (or_congr_right (and_congr_right fun _ => ?_))
    rw [Bool.and_eq_true, List.isEmpty_iff, Bool.not_eq_true', ← Bool.not_eq_true, getD_false]
    rfl
  have hintroduces : introducesIdentity o (parseOpcuaSection root).1 = false ↔
      (o.uaUsers ≠ [] → (parseOpcuaSection root).1.users ≠ []) ∧
        (.flag "--ua-allow-certificate-identity" ∈ words →
          (opcuaSection root).bool? "allowCertificateIdentity" = some true) := by
    have himp : ∀ a b : Bool, (a && !b) = false ↔ (a = true → b = true) := by decide
    have hempty : (!o.uaUsers.isEmpty && (parseOpcuaSection root).1.users.isEmpty) = false ↔
        (o.uaUsers ≠ [] → (parseOpcuaSection root).1.users ≠ []) := by
      cases o.uaUsers <;> cases (parseOpcuaSection root).1.users <;> simp
    rw [← hcert, ← hfile, introducesIdentity, Bool.or_eq_false_iff, himp, hempty]
  rw [hadmits, overlayIdentity_eq]
  simp only [Bool.or_eq_true, Bool.and_eq_true, Bool.not_eq_true', hintroduces, hanonymous, hallow,
    ← hdeny, Bool.not_eq_true, and_assoc]

/-- The users that the server knows are those of the file and then those of the command line;
only when there is none, anonymous users are let in and user certificates are not looked at,
it keeps the accounts of the library. A password goes over an unprotected channel, and a user
certificate is looked at, only where the command line or the file allows it in so many
words. -/
theorem served_credentials (hlib : lib.Documented) (ho : optionsOf words = some o)
    (h : startServer lib o (parseOpcuaSection root).1 name = .ok config) :
    config.accessControl.logins =
        (if ((parseOpcuaSection root).1.users = [] ∧ o.uaUsers = []) ∧
            config.accessControl.anonymous = true ∧ config.sessionPki = .unset then
          lib.defaultLogins
        else
          (parseOpcuaSection root).1.users.map (fun u => (uaString u.username, uaString u.password)) ++
            o.uaUsers.map (fun u => (uaString u.username, uaString u.password))) ∧
      ((parseOpcuaSection root).1.users ≠ [] ∨ o.uaUsers ≠ [] →
        (parseOpcuaSection root).1.securityMode = .none →
          .flag "--ua-allow-none-password" ∈ words ∨
            (opcuaSection root).bool? "allowNonePassword" = some true) ∧
      (config.allowNonePolicyPassword = true ↔
        ((parseOpcuaSection root).1.users ≠ [] ∨ o.uaUsers ≠ []) ∧
          (parseOpcuaSection root).1.securityMode = .none) ∧
      (config.sessionPki ≠ .unset ↔ .flag "--ua-allow-certificate-identity" ∈ words ∨
        (opcuaSection root).bool? "allowCertificateIdentity" = some true) ∧
      (config.sessionPki ≠ .unset → (parseOpcuaSection root).1.securityMode = .none →
        .flag "--ua-allow-none-certificate" ∈ words ∨
          (opcuaSection root).bool? "allowNoneCertificate" = some true) := by
  have hadmits := start_admits hlib h
  have hpassword := switch_mem ho "--ua-allow-none-password" rfl
  have hcert := switch_mem ho "--ua-allow-certificate-identity" rfl
  have hnoneCert := switch_mem ho "--ua-allow-none-certificate" rfl
  have hfile : (parseOpcuaSection root).1.allowCertificateIdentity = true ↔
      (opcuaSection root).bool? "allowCertificateIdentity" = some true := by
    rw [parseOpcuaSection_eq]
    exact getD_false
  have hfilePassword : (parseOpcuaSection root).1.allowNonePassword = true ↔
      (opcuaSection root).bool? "allowNonePassword" = some true := by
    rw [parseOpcuaSection_eq]
    exact getD_false
  have hfileNone : (parseOpcuaSection root).1.allowNoneCertificate = true ↔
      (opcuaSection root).bool? "allowNoneCertificate" = some true := by
    rw [parseOpcuaSection_eq]
    exact getD_false
  have husers : (parseOpcuaSection root).1.users ++
      o.uaUsers.map (fun u => (⟨u.username, u.password⟩ : OpcUaUser)) ≠ [] ↔
      (parseOpcuaSection root).1.users ≠ [] ∨ o.uaUsers ≠ [] := by
    rw [ne_eq, List.append_eq_nil_iff, List.map_eq_nil_iff, not_and_or]
  obtain ⟨hanonymous, hlogins, hnonePassword, hplaintext, hcertificates, hnoneCertificate⟩ := hadmits
  have hkeeps : (overlayIdentity o (parseOpcuaSection root).1).users = [] ∧
      (overlayIdentity o (parseOpcuaSection root).1).allowAnonymous = true ∧
        (overlayIdentity o (parseOpcuaSection root).1).allowCertificateIdentity = false ↔
      ((parseOpcuaSection root).1.users = [] ∧ o.uaUsers = []) ∧
        config.accessControl.anonymous = true ∧ config.sessionPki = .unset := by
    rw [← hanonymous, ← Bool.not_eq_true, ← hcertificates, ne_eq, not_not, overlayIdentity_eq,
      List.append_eq_nil_iff, List.map_eq_nil_iff]
  have hnames : logins (overlayIdentity o (parseOpcuaSection root).1) =
      (parseOpcuaSection root).1.users.map (fun u => (uaString u.username, uaString u.password)) ++
        o.uaUsers.map (fun u => (uaString u.username, uaString u.password)) := by
    rw [overlayIdentity_eq, logins, List.map_append, List.map_map]
    rfl
  rw [hnames, if_congr hkeeps rfl rfl] at hlogins
  rw [overlayIdentity_eq] at hnonePassword hplaintext hcertificates hnoneCertificate
  simp only [husers] at hnonePassword
  simp only [husers, Bool.or_eq_true, hpassword, hfilePassword] at hplaintext
  simp only [Bool.or_eq_true, hcert, hnoneCert, hfile, hfileNone] at hcertificates hnoneCertificate
  exact ⟨hlogins, hplaintext, hnonePassword, hcertificates,
    fun hset => hnoneCertificate (hcertificates.mp hset)⟩

/-- In a secure mode every endpoint signs or encrypts as the file says, and there is one;
all client certificates pass exactly when the command line says so and does not ask for
strict checks, and otherwise they are checked against the files that it names. -/
theorem served_secure (hlib : lib.Documented) (ho : optionsOf words = some o)
    (hmode : (parseOpcuaSection root).1.securityMode ≠ .none)
    (h : startServer lib o (parseOpcuaSection root).1 name = .ok config) :
    config.endpoints ≠ [] ∧
      (∀ ep ∈ config.endpoints,
        ep.securityMode = uaMessageSecurityMode (parseOpcuaSection root).1.securityMode ∧
        ep.securityPolicyUri = "http://opcfoundation.org/UA/SecurityPolicy#Basic256Sha256") ∧
      (config.secureChannelPki = .acceptAll ↔
        .flag "--ua-accept-untrusted" ∈ words ∧ .flag "--ua-strict-certs" ∉ words) ∧
      ∃ trusted revoked,
        readAll lib "cannot read --ua-trust certificate" o.uaTrustPaths = .ok trusted ∧
        readAll lib "cannot read --ua-crl revocation list" o.uaRevocationPaths = .ok revoked ∧
        (config.secureChannelPki ≠ .acceptAll →
          config.secureChannelPki = .lists trusted revoked) := by
  have haccept := switch_mem ho "--ua-accept-untrusted" rfl
  have hstrict := switch_mem ho "--ua-strict-certs" rfl
  have hoverlay : (overlayIdentity o (parseOpcuaSection root).1).securityMode =
      (parseOpcuaSection root).1.securityMode := by rw [overlayIdentity_eq]
  have hpki : (pkiOptions o (overlayIdentity o (parseOpcuaSection root).1)).acceptUntrusted = true ↔
      .flag "--ua-accept-untrusted" ∈ words ∧ .flag "--ua-strict-certs" ∉ words := by
    rw [← haccept, ← hstrict, pkiOptions, hoverlay]
    dsimp only
    rw [if_pos hmode]
    cases o.uaStrictCerts <;> simp
  obtain ⟨hne, hall, trusted, revoked, htrusted, hrevoked, hcheck⟩ :=
    start_secure hlib (by rw [hoverlay]; exact hmode) h
  refine ⟨hne, ?_, ?_, trusted, revoked, htrusted, hrevoked, ?_⟩
  · rw [← hoverlay]
    exact hall
  · rw [hcheck, ← hpki]
    split_ifs with haccepts
    · exact iff_of_true rfl haccepts
    · exact iff_of_false (fun hall => by cases hall) haccepts
  · rw [hcheck]
    split_ifs
    · exact fun hall => absurd rfl hall
    · exact fun _ => rfl

end Served

/-! ### Two servers -/

section Servers
attribute [local instance] exactPlatform

/-- A library that does what is said of it, with one certificate file. -/
def plainLibrary : UaLibrary where
  encryption := true
  statusName := fun _ => "Good"
  newServer := some {}
  defaultLogins := [("user1", "password")]
  setMinimal := fun _ c => (0, { c with
    endpoints := [⟨1, uaSecurityPolicyUri .none⟩], sessionPki := .acceptAll
    accessControl := ⟨true, [("user1", "password")], true⟩ })
  createCertificate := fun _ => (0, ([1], [2]))
  setDefaultWithSecurityPolicies := fun _ _ trusted revoked c => (0, { c with
    endpoints := [⟨1, uaSecurityPolicyUri .none⟩, ⟨2, uaSecurityPolicyUri .basic256Sha256⟩,
      ⟨3, uaSecurityPolicyUri .basic256Sha256⟩]
    secureChannelPki := .lists trusted revoked, sessionPki := .lists trusted revoked
    accessControl := ⟨true, [("user1", "password")], true⟩ })
  trustlist := fun trusted revoked => (0, .lists trusted revoked)
  accessControlDefault := fun anonymous logins c =>
    (0, { c with accessControl := ⟨anonymous, logins, c.sessionPki ≠ .unset⟩ })
  newUrls := true
  runStartup := fun _ => 0
  addDiagnostics := .ok ()
  readFile := fun path => if path = "client.der" then some [9] else none

theorem plainLibrary_documented : plainLibrary.Documented where
  newServer := by
    rintro c ⟨⟩
    rfl
  minimal := by
    rintro port c _ ⟨⟩
    exact ⟨rfl, rfl, rfl⟩
  secure := by
    rintro port pair trusted revoked c _ ⟨⟩
    exact ⟨rfl, rfl, rfl⟩
  verification := by
    rintro port pair trusted revoked c _ ⟨⟩
    rfl
  accessControl := by
    rintro anonymous logins c _ ⟨⟩
    rfl

/-- A file with one operator, who may send a password in the clear. -/
def operatorFile : Json :=
  .object [("opcua", .object [("users", .array [.object [("username", .string "op"),
    ("password", .string "secret")]]), ("allowNonePassword", .bool true)])]

def operatorConfig : ServerConfig where
  applicationName := "plant"
  endpoints := [⟨1, uaSecurityPolicyUri .none⟩]
  accessControl := ⟨false, [("op", "secret"), ("guest", "")], false⟩
  allowNonePolicyPassword := true

def guestWords : List Word := [.value "--ua-user" "guest:"]

def guestOptions : CliOptions := { uaUsers := [⟨"guest", ""⟩] }

theorem guestOptions_eq : optionsOf guestWords = some guestOptions := by decide +kernel

theorem operatorConfig_eq :
    startServer plainLibrary guestOptions (parseOpcuaSection operatorFile).1 "plant" =
      .ok operatorConfig := by rfl

theorem operator_anonymous : operatorConfig.accessControl.anonymous = true ↔
    .flag "--ua-allow-anonymous" ∈ guestWords ∨
    .flag "--ua-deny-anonymous" ∉ guestWords ∧
      (guestOptions.uaUsers ≠ [] → (parseOpcuaSection operatorFile).1.users ≠ []) ∧
      (.flag "--ua-allow-certificate-identity" ∈ guestWords →
        (opcuaSection operatorFile).bool? "allowCertificateIdentity" = some true) ∧
      ((opcuaSection operatorFile).bool? "allowAnonymous" = some true ∨
        (opcuaSection operatorFile).bool? "allowAnonymous" = none ∧
          (parseOpcuaSection operatorFile).1.users = [] ∧
          (opcuaSection operatorFile).bool? "allowCertificateIdentity" ≠ some true) :=
  served_anonymous_iff plainLibrary_documented guestOptions_eq operatorConfig_eq

theorem operator_credentials : operatorConfig.allowNonePolicyPassword = true ∧
    operatorConfig.accessControl.logins =
      (if ((parseOpcuaSection operatorFile).1.users = [] ∧ guestOptions.uaUsers = []) ∧
          operatorConfig.accessControl.anonymous = true ∧ operatorConfig.sessionPki = .unset then
        plainLibrary.defaultLogins
      else
        (parseOpcuaSection operatorFile).1.users.map
            (fun u => (uaString u.username, uaString u.password)) ++
          guestOptions.uaUsers.map (fun u => (uaString u.username, uaString u.password))) :=
  ⟨rfl, (served_credentials plainLibrary_documented guestOptions_eq operatorConfig_eq).1⟩

def signedFile : Json := .object [("opcua", .object [("securityMode", .string "Sign")])]

def signedConfig : ServerConfig where
  applicationName := "plant"
  endpoints := [⟨2, uaSecurityPolicyUri .basic256Sha256⟩]
  secureChannelPki := .lists [[9]] []
  accessControl := ⟨true, [("user1", "password")], true⟩

def trustWords : List Word := [.value "--ua-trust" "client.der"]

def trustOptions : CliOptions := { uaTrustPaths := ["client.der"] }

theorem signed_secure : signedConfig.endpoints ≠ [] ∧
    (∀ ep ∈ signedConfig.endpoints,
      ep.securityMode = uaMessageSecurityMode (parseOpcuaSection signedFile).1.securityMode ∧
      ep.securityPolicyUri = "http://opcfoundation.org/UA/SecurityPolicy#Basic256Sha256") ∧
    (signedConfig.secureChannelPki = .acceptAll ↔
      .flag "--ua-accept-untrusted" ∈ trustWords ∧ .flag "--ua-strict-certs" ∉ trustWords) ∧
    ∃ trusted revoked,
      readAll plainLibrary "cannot read --ua-trust certificate" trustOptions.uaTrustPaths =
        .ok trusted ∧
      readAll plainLibrary "cannot read --ua-crl revocation list" trustOptions.uaRevocationPaths =
        .ok revoked ∧
      (signedConfig.secureChannelPki ≠ .acceptAll →
        signedConfig.secureChannelPki = .lists trusted revoked) := by
  have hoptions : optionsOf trustWords = some trustOptions := by decide +kernel
  have hconfig : startServer plainLibrary trustOptions (parseOpcuaSection signedFile).1 "plant" =
      .ok signedConfig := by rfl
  exact served_secure plainLibrary_documented hoptions (by decide) hconfig

end Servers

end OpcServer.App
