import OpcServer.Adapters.AddressSpace
import OpcServer.Adapters.EndpointUrl
import OpcServer.Lib.Traverse
import OpcServer.Project.Types

/-! Starting the OPC UA server: the configuration that it runs with, or the error. The
library builds and checks the configurations; what it does is a parameter, and so are the
files. A read that throws, as of a directory, ends the program before there is a server, and
is left out. The hooks on sessions and the diagnostic nodes are not part of the
configuration. -/

namespace OpcServer.Adapters

open Domain Project SegmentPath TextStream Traverse

abbrev Bytes := List UInt8

/-- `UA_STRING_ALLOC` of a `c_str()`. -/
def uaString (text : String) : String := String.ofList (cStr text.toList)

structure OpcUaSecurityOptions where
  certificatePath : String := ""
  privateKeyPath : String := ""
  trustList : List String := []
  revocationList : List String := []
  generateIfMissing : Bool := true
  acceptUntrusted : Bool := false

def uaSecurityPolicyUri : SecurityPolicy → String
  | .basic256Sha256 => "http://opcfoundation.org/UA/SecurityPolicy#Basic256Sha256"
  | .none => "http://opcfoundation.org/UA/SecurityPolicy#None"

/-- `UA_MessageSecurityMode`. -/
def uaMessageSecurityMode : SecurityMode → ℕ
  | .none => 1
  | .sign => 2
  | .signAndEncrypt => 3

/-! ### The configuration -/

/-- `UA_CertificateVerification`: none, one that accepts all, or one with lists. -/
inductive Verification where
  | unset | acceptAll | lists (trusted revoked : List Bytes)
  deriving DecidableEq

structure EndpointDescription where
  securityMode : ℕ
  securityPolicyUri : String
  deriving DecidableEq

/-- `UA_AccessControl`: whom it lets in. -/
structure AccessControl where
  anonymous : Bool
  logins : List (String × String)
  certificates : Bool
  deriving DecidableEq

/-- `UA_ServerConfig`, as far as it is used. -/
structure ServerConfig where
  serverUrls : List String := []
  applicationName : String := ""
  applicationUri : String := ""
  endpoints : List EndpointDescription := []
  secureChannelPki : Verification := .unset
  sessionPki : Verification := .unset
  accessControl : AccessControl := ⟨false, [], false⟩
  allowNonePolicyPassword : Bool := false
  deriving DecidableEq

/-- The library, with the build option `UA_ENABLE_ENCRYPTION` and the accounts of its default
access control, and the files. A status of 0 is good. -/
structure UaLibrary where
  encryption : Bool
  statusName : UInt32 → String
  newServer : Option ServerConfig
  defaultLogins : List (String × String)
  setMinimal : UInt16 → ServerConfig → UInt32 × ServerConfig
  createCertificate : String → UInt32 × (Bytes × Bytes)
  setDefaultWithSecurityPolicies : UInt16 → Bytes × Bytes → List Bytes → List Bytes →
    ServerConfig → UInt32 × ServerConfig
  trustlist : List Bytes → List Bytes → UInt32 × Verification
  accessControlDefault : Bool → List (String × String) → ServerConfig → UInt32 × ServerConfig
  newUrls : Bool
  runStartup : ServerConfig → UInt32
  addDiagnostics : Result Unit
  readFile : String → Option Bytes

def uaError (code : ErrorCode) (message : String) : Error :=
  ⟨code, message, "adapters.opcua", false, none⟩

/-- Read the files in order, up to one that cannot be read. -/
def readAll (lib : UaLibrary) (message : String) : List String → Result (List Bytes)
  | [] => .ok []
  | path :: rest =>
    match lib.readFile path with
    | none => .error (uaError .invalidArgument message)
    | some bytes => do
      let more ← readAll lib message rest
      return bytes :: more

/-! ### Certificates and endpoints -/

def readAllBytes (lib : UaLibrary) (path : String) : Result Bytes :=
  match lib.readFile path with
  | none =>
    .error ⟨.invalidArgument, "cannot read PKI file: " ++ path, "adapters.opcua.pki", false, none⟩
  | some bytes => .ok bytes

def loadOrCreateApplicationCert (lib : UaLibrary) (applicationUri : String)
    (options : OpcUaSecurityOptions) : Result (Bytes × Bytes) :=
  if options.certificatePath ≠ "" ∧ options.privateKeyPath ≠ "" then do
    let cert ← readAllBytes lib options.certificatePath
    let key ← readAllBytes lib options.privateKeyPath
    return (cert, key)
  else if !options.generateIfMissing then
    .error ⟨.invalidArgument,
      "Sign/Encrypt requires --ua-cert and --ua-key (or enable self-signed generation)",
      "adapters.opcua.pki", false, none⟩
  else if !lib.encryption then
    .error ⟨.notImplemented, "open62541 was built without UA_ENABLE_ENCRYPTION",
      "adapters.opcua.pki", false, none⟩
  else
    let made := lib.createCertificate (uaString ("URI:" ++
      if applicationUri = "" then "urn:opc-server:application" else applicationUri))
    if made.1 ≠ 0 then
      .error ⟨.internal, "UA_CreateCertificate failed: " ++ lib.statusName made.1,
        "adapters.opcua.pki", false, none⟩
    else .ok made.2

def keepSecurityEndpoints (mode : ℕ) (policyUri : String) (config : ServerConfig) : ServerConfig :=
  { config with endpoints := config.endpoints.filter fun ep =>
      ep.securityMode = mode && ep.securityPolicyUri = policyUri }

/-- Without a policy of its own, a secure server has the one that there is. -/
def effectivePolicy : SecurityPolicy → String
  | .none => uaSecurityPolicyUri .basic256Sha256
  | policy => uaSecurityPolicyUri policy

def badSecurityChecksFailed : UInt32 := 0x80130000

/-- What is made of the library's configuration for `Sign` and `SignAndEncrypt`. -/
def restrictEndpoints (security : OpcUaSecurityOptions) (opcua : OpcUaSettings)
    (config : ServerConfig) : UInt32 × ServerConfig :=
  let config := if security.acceptUntrusted then
    { config with secureChannelPki := .acceptAll, sessionPki := .acceptAll } else config
  let config := keepSecurityEndpoints (uaMessageSecurityMode opcua.securityMode)
    (effectivePolicy opcua.securityPolicy) config
  (if config.endpoints.isEmpty then badSecurityChecksFailed else 0, config)

def secureConfig (lib : UaLibrary) (security : OpcUaSecurityOptions) (opcua : OpcUaSettings)
    (config : ServerConfig) : Result (UInt32 × ServerConfig) := do
  let uri := if opcua.namespaceUri = "" then "urn:opc-server:application" else opcua.namespaceUri
  let material ← loadOrCreateApplicationCert lib uri security
  let trusted ← readAll lib "cannot read --ua-trust certificate" security.trustList
  let revoked ← readAll lib "cannot read --ua-crl revocation list" security.revocationList
  let made := lib.setDefaultWithSecurityPolicies
    (parseEndpointPort opcua.endpointUrl.toList 4840) material trusted revoked config
  return if made.1 ≠ 0 then made else restrictEndpoints security opcua made.2

/-! ### Identities -/

/-- The verification of user certificates is taken away unless they are allowed. -/
def configureSessionPkiForIdentity (lib : UaLibrary) (security : OpcUaSecurityOptions)
    (opcua : OpcUaSettings) (config : ServerConfig) : Result ServerConfig :=
  if !opcua.allowCertificateIdentity then .ok { config with sessionPki := .unset }
  else if opcua.securityMode = .none ∧ !opcua.allowNoneCertificate then
    .error (uaError .invalidArgument ("X509IdentityToken with SecurityMode None requires " ++
      "opcua.allowNoneCertificate or --ua-allow-none-certificate"))
  else if !lib.encryption then
    .error (uaError .notImplemented "X509IdentityToken requires UA_ENABLE_ENCRYPTION")
  else if opcua.securityMode = .none then
    if security.acceptUntrusted then .ok { config with sessionPki := .acceptAll }
    else if security.trustList.isEmpty then
      .error (uaError .invalidArgument
        "X509IdentityToken over None requires --ua-trust (or --ua-accept-untrusted)")
    else do
      let trusted ← readAll lib "cannot read --ua-trust certificate for sessionPKI" security.trustList
      let revoked ← readAll lib "cannot read --ua-crl for sessionPKI" security.revocationList
      let made := lib.trustlist trusted revoked
      if made.1 ≠ 0 then .error (uaError .internal "sessionPKI Trustlist install failed")
      else .ok { config with sessionPki := made.2 }
  else if security.acceptUntrusted then .ok config
  else if security.trustList.isEmpty then
    .error (uaError .invalidArgument
      "X509IdentityToken requires --ua-trust (or --ua-accept-untrusted for lab)")
  else if config.sessionPki = .unset then
    .error (uaError .internal
      "sessionPKI missing after encrypted config; cannot enable X509IdentityToken")
  else .ok config

def logins (opcua : OpcUaSettings) : List (String × String) :=
  opcua.users.map fun u => (uaString u.username, uaString u.password)

/-- The library's access control stays unless the project says otherwise. -/
def applyIdentityAccessControl (lib : UaLibrary) (opcua : OpcUaSettings) (config : ServerConfig) :
    Result ServerConfig :=
  if opcua.users.isEmpty && opcua.allowAnonymous && !opcua.allowCertificateIdentity then .ok config
  else if !opcua.users.isEmpty && opcua.securityMode = .none && !opcua.allowNonePassword then
    .error (uaError .invalidArgument ("username/password with SecurityMode None requires " ++
      "opcua.allowNonePassword or --ua-allow-none-password (credentials would be plaintext)"))
  else if opcua.allowCertificateIdentity && config.sessionPki = .unset then
    .error (uaError .internal
      "X509IdentityToken enabled but sessionPKI.verifyCertificate is unset")
  else
    let made := lib.accessControlDefault opcua.allowAnonymous (logins opcua) config
    if made.1 ≠ 0 then .error (uaError .internal "UA_AccessControl_default failed")
    else if !opcua.users.isEmpty && opcua.securityMode = .none && opcua.allowNonePassword then
      .ok { made.2 with allowNonePolicyPassword := true }
    else .ok made.2

/-! ### Starting -/

/-- No host, or one that stands for all interfaces. -/
def wildcardBind (url : Text) : Bool :=
  let rest := if endpointPrefix.isPrefixOf url then url.drop endpointPrefix.length else url
  let rest := rest.takeWhile (· ≠ '/')
  let rest := match rfind ':' rest with
    | none => rest
    | some colon => rest.take colon
  rest.isEmpty || wildcardHosts.contains rest

/-- The URL that the server logs, and listens on unless it listens everywhere. -/
def advertisedUrl (url : Text) : String :=
  String.ofList (endpointUrl (parseEndpointHost url) (parseEndpointPort url 4840).toNat [])

def setServerUrls (lib : UaLibrary) (opcua : OpcUaSettings) (config : ServerConfig) :
    Result ServerConfig :=
  if wildcardBind opcua.endpointUrl.toList then .ok config
  else if !lib.newUrls then .error (uaError .internal "UA_Array_new failed")
  else .ok { config with serverUrls := [uaString (advertisedUrl opcua.endpointUrl.toList)] }

/-- The configuration before the project's hosts and identities. -/
def baseConfig (lib : UaLibrary) (security : OpcUaSecurityOptions) (opcua : OpcUaSettings)
    (config : ServerConfig) : Result ServerConfig :=
  if opcua.securityMode = .none then
    let made := lib.setMinimal (parseEndpointPort opcua.endpointUrl.toList 4840) config
    if made.1 ≠ 0 then .error (uaError .internal "UA_ServerConfig_setMinimal failed") else .ok made.2
  else do
    let made ← secureConfig lib security opcua config
    if made.1 ≠ 0 then .error (uaError .internal "UA encrypted config failed") else .ok made.2

def describe (opcua : OpcUaSettings) (name : String) (config : ServerConfig) : ServerConfig :=
  { config with
    applicationName := uaString (if opcua.applicationName = "" then name else opcua.applicationName)
    applicationUri :=
      if opcua.namespaceUri = "" then config.applicationUri else uaString opcua.namespaceUri }

def runStartup (lib : UaLibrary) (config : ServerConfig) : Result ServerConfig :=
  if lib.runStartup config ≠ 0 then .error (uaError .internal "UA_Server_run_startup failed")
  else do
    let _ ← lib.addDiagnostics
    return config

/-- `OpcUaServer::start` of a server that does not run, for a project with this section and
name. -/
def OpcUaServer.start (lib : UaLibrary) (security : OpcUaSecurityOptions) (opcua : OpcUaSettings)
    (name : String) : Result ServerConfig :=
  if opcua.securityMode ≠ .none ∧ !lib.encryption then
    .error (uaError .notImplemented
      "project requests Sign/Encrypt but open62541 was built without UA_ENABLE_ENCRYPTION")
  else
    match lib.newServer with
    | none => .error (uaError .internal "UA_Server_new failed")
    | some config => do
      let config ← baseConfig lib security opcua config
      let config ← setServerUrls lib opcua config
      let config ← configureSessionPkiForIdentity lib security opcua config
      let config ← applyIdentityAccessControl lib opcua config
      runStartup lib (describe opcua name config)

/-! ### Servers that started -/

/-- What the library says of its configurations: by default everybody is let in, with the
accounts of the library, and no password without encryption; channels are verified by the
lists that are given; and access control is for the given identities, with certificates when
there is a verification for them. -/
structure UaLibrary.Documented (lib : UaLibrary) : Prop where
  newServer : ∀ c, lib.newServer = some c → c.allowNonePolicyPassword = false
  minimal : ∀ port c c', lib.setMinimal port c = (0, c') →
    c'.accessControl.anonymous = true ∧ c'.accessControl.logins = lib.defaultLogins ∧
      c'.allowNonePolicyPassword = c.allowNonePolicyPassword
  secure : ∀ port pair trusted revoked c c',
    lib.setDefaultWithSecurityPolicies port pair trusted revoked c = (0, c') →
    c'.accessControl.anonymous = true ∧ c'.accessControl.logins = lib.defaultLogins ∧
      c'.allowNonePolicyPassword = c.allowNonePolicyPassword
  verification : ∀ port pair trusted revoked c c',
    lib.setDefaultWithSecurityPolicies port pair trusted revoked c = (0, c') →
    c'.secureChannelPki = .lists trusted revoked
  accessControl : ∀ anonymous logins c c', lib.accessControlDefault anonymous logins c = (0, c') →
    c' = { c with accessControl := ⟨anonymous, logins, c.sessionPki ≠ .unset⟩ }

section Started
variable {lib : UaLibrary} {security : OpcUaSecurityOptions} {opcua : OpcUaSettings} {name : String}
  {config c c' : ServerConfig}

theorem setServerUrls_eq (h : setServerUrls lib opcua c = .ok c') :
    ∃ urls, c' = { c with serverUrls := urls } := by
  unfold setServerUrls at h
  split_ifs at h
  · cases h
    exact ⟨c.serverUrls, rfl⟩
  · cases h
    exact ⟨_, rfl⟩

/-- The steps of a start that succeeds. -/
theorem start_steps (h : OpcUaServer.start lib security opcua name = .ok config) :
    ∃ c₀ c₁ c₂ c₃ c₄, lib.newServer = some c₀ ∧ baseConfig lib security opcua c₀ = .ok c₁ ∧
      setServerUrls lib opcua c₁ = .ok c₂ ∧
      configureSessionPkiForIdentity lib security opcua c₂ = .ok c₃ ∧
      applyIdentityAccessControl lib opcua c₃ = .ok c₄ ∧ config = describe opcua name c₄ := by
  unfold OpcUaServer.start at h
  split at h
  · cases h
  split at h
  · cases h
  next c₀ hnew =>
  obtain ⟨c₁, hbase, h⟩ := bind_eq_ok h
  obtain ⟨c₂, hurls, h⟩ := bind_eq_ok h
  obtain ⟨c₃, hsession, h⟩ := bind_eq_ok h
  obtain ⟨c₄, hidentity, h⟩ := bind_eq_ok h
  refine ⟨c₀, c₁, c₂, c₃, c₄, hnew, hbase, hurls, hsession, hidentity, ?_⟩
  unfold runStartup at h
  split at h
  · cases h
  obtain ⟨-, -, h⟩ := bind_eq_ok h
  exact (Except.ok.inj h).symm

theorem baseConfig_minimal (hmode : opcua.securityMode = .none)
    (h : baseConfig lib security opcua c = .ok c') :
    lib.setMinimal (parseEndpointPort opcua.endpointUrl.toList 4840) c = (0, c') := by
  unfold baseConfig at h
  rw [if_pos hmode] at h
  dsimp only at h
  split at h
  · cases h
  next hstatus =>
  exact Prod.ext (not_not.mp hstatus) (Except.ok.inj h)

/-- In a secure mode the library's configuration keeps the endpoints of the mode and the
policy, of which there is one. -/
theorem baseConfig_secure (hmode : opcua.securityMode ≠ .none)
    (h : baseConfig lib security opcua c = .ok c') :
    ∃ material trusted revoked made,
      readAll lib "cannot read --ua-trust certificate" security.trustList = .ok trusted ∧
      readAll lib "cannot read --ua-crl revocation list" security.revocationList = .ok revoked ∧
      lib.setDefaultWithSecurityPolicies (parseEndpointPort opcua.endpointUrl.toList 4840) material
        trusted revoked c = (0, made) ∧
      c' = (restrictEndpoints security opcua made).2 ∧ c'.endpoints ≠ [] := by
  unfold baseConfig at h
  rw [if_neg hmode] at h
  obtain ⟨made, hmade, h⟩ := bind_eq_ok h
  split at h
  · cases h
  next hstatus =>
  have hstatus := not_not.mp hstatus
  have hconfig := Except.ok.inj h
  obtain ⟨material, -, hmade⟩ := bind_eq_ok hmade
  obtain ⟨trusted, htrusted, hmade⟩ := bind_eq_ok hmade
  obtain ⟨revoked, hrevoked, hmade⟩ := bind_eq_ok hmade
  have hmade := Except.ok.inj hmade
  split at hmade
  · next hbad => exact absurd (congrArg Prod.fst hmade ▸ hstatus) hbad
  next hgood =>
  refine ⟨material, trusted, revoked, _, htrusted, hrevoked, Prod.ext (not_not.mp hgood) rfl, ?_, ?_⟩
  · rw [← hconfig, ← hmade]
  · intro hnil
    rw [← hconfig, ← hmade] at hnil
    rw [← hmade] at hstatus
    unfold restrictEndpoints at hnil hstatus
    dsimp only at hnil hstatus
    rw [hnil] at hstatus
    exact absurd hstatus (by decide)

/-- The access control of the library lets everybody in, and has accounts of its own. -/
theorem baseConfig_open (hlib : lib.Documented) (hnew : lib.newServer = some c)
    (h : baseConfig lib security opcua c = .ok c') :
    c'.accessControl.anonymous = true ∧ c'.accessControl.logins = lib.defaultLogins ∧
      c'.allowNonePolicyPassword = false := by
  rw [← hlib.newServer c hnew]
  by_cases hmode : opcua.securityMode = .none
  · exact hlib.minimal _ _ _ (baseConfig_minimal hmode h)
  · obtain ⟨material, trusted, revoked, made, -, -, hmade, rfl, -⟩ := baseConfig_secure hmode h
    have hsecure := hlib.secure _ _ _ _ _ _ hmade
    unfold restrictEndpoints keepSecurityEndpoints
    dsimp only
    split
    · exact hsecure
    · exact hsecure

theorem configureSessionPki_eq (h : configureSessionPkiForIdentity lib security opcua c = .ok c') :
    c' = { c with sessionPki := c'.sessionPki } ∧
      (opcua.allowCertificateIdentity = false → c'.sessionPki = .unset) ∧
      (opcua.allowCertificateIdentity = true → opcua.securityMode = .none →
        opcua.allowNoneCertificate = true) := by
  unfold configureSessionPkiForIdentity at h
  split at h
  · next hoff =>
    cases h
    rw [Bool.not_eq_true'] at hoff
    exact ⟨rfl, fun _ => rfl, fun hon => absurd (hoff.symm.trans hon) Bool.noConfusion⟩
  next hon =>
  rw [Bool.not_eq_true', Bool.not_eq_false] at hon
  have hoff : opcua.allowCertificateIdentity = false → c'.sessionPki = .unset :=
    fun hoff => absurd (hoff.symm.trans hon) Bool.noConfusion
  split at h
  · cases h
  next hnone =>
  have hallow : opcua.allowCertificateIdentity = true → opcua.securityMode = .none →
      opcua.allowNoneCertificate = true := by
    intro _ hmode
    by_contra hno
    rw [Bool.not_eq_true] at hno
    exact hnone ⟨hmode, by rw [hno]; rfl⟩
  refine ⟨?_, hoff, hallow⟩
  split at h
  · cases h
  split at h
  · split at h
    · cases h
      rfl
    split at h
    · cases h
    obtain ⟨trusted, -, h⟩ := bind_eq_ok h
    obtain ⟨revoked, -, h⟩ := bind_eq_ok h
    dsimp only at h
    split at h
    · cases h
    · cases h
      rfl
  split at h
  · cases h
    rfl
  split at h
  · cases h
  split at h
  · cases h
  · cases h
    rfl

/-- The identities that the configuration admits are those of the section; when it asks for
nothing, the accounts of the library stay. -/
structure Admits (lib : UaLibrary) (opcua : OpcUaSettings) (config : ServerConfig) : Prop where
  anonymous : config.accessControl.anonymous = opcua.allowAnonymous
  logins : config.accessControl.logins =
    if opcua.users = [] ∧ opcua.allowAnonymous = true ∧ opcua.allowCertificateIdentity = false then
      lib.defaultLogins
    else logins opcua
  nonePassword : config.allowNonePolicyPassword = true ↔
    opcua.users ≠ [] ∧ opcua.securityMode = .none
  plaintext : opcua.users ≠ [] → opcua.securityMode = .none → opcua.allowNonePassword = true
  certificates : config.sessionPki ≠ .unset ↔ opcua.allowCertificateIdentity = true
  noneCertificate : opcua.allowCertificateIdentity = true → opcua.securityMode = .none →
    opcua.allowNoneCertificate = true

/-- What an access control of the project's own is made of. -/
theorem applyIdentity_own (hlib : lib.Documented)
    (hown : ¬ (opcua.users = [] ∧ opcua.allowAnonymous = true ∧
      opcua.allowCertificateIdentity = false))
    (hpassword : c.allowNonePolicyPassword = false)
    (h : applyIdentityAccessControl lib opcua c = .ok c') :
    c' = { c with
      accessControl := ⟨opcua.allowAnonymous, logins opcua, c.sessionPki ≠ .unset⟩
      allowNonePolicyPassword := c'.allowNonePolicyPassword } ∧
    (c'.allowNonePolicyPassword = true ↔ opcua.users ≠ [] ∧ opcua.securityMode = .none) ∧
    (opcua.users ≠ [] → opcua.securityMode = .none → opcua.allowNonePassword = true) ∧
    (opcua.allowCertificateIdentity = true → c.sessionPki ≠ .unset) := by
  unfold applyIdentityAccessControl at h
  split at h
  · next hplain =>
    simp only [Bool.and_eq_true, Bool.not_eq_true', List.isEmpty_iff, and_assoc] at hplain
    exact absurd hplain hown
  split at h
  · cases h
  next hplaintext =>
  split at h
  · cases h
  next hpki =>
  obtain ⟨⟨status, made⟩, hmade⟩ : ∃ made,
      lib.accessControlDefault opcua.allowAnonymous (logins opcua) c = made := ⟨_, rfl⟩
  rw [hmade] at h
  dsimp only at h
  split at h
  · cases h
  next hstatus =>
  rw [not_not.mp hstatus] at hmade
  obtain rfl := hlib.accessControl _ _ _ _ hmade
  have hallowed : opcua.users ≠ [] → opcua.securityMode = .none → opcua.allowNonePassword = true := by
    intro hne hmode
    by_contra hno
    apply hplaintext
    simp only [Bool.not_eq_true] at hno
    simp only [hno, hmode, decide_true, Bool.not_false, Bool.and_true, Bool.not_eq_true',
      List.isEmpty_eq_false_iff]
    exact hne
  have hset : opcua.allowCertificateIdentity = true → c.sessionPki ≠ .unset := by
    intro hon hunset
    apply hpki
    rw [hon, hunset]
    rfl
  have husers : (!opcua.users.isEmpty && decide (opcua.securityMode = .none) &&
      opcua.allowNonePassword) = true ↔ opcua.users ≠ [] ∧ opcua.securityMode = .none := by
    simp only [Bool.and_eq_true, Bool.not_eq_true', List.isEmpty_eq_false_iff, decide_eq_true_eq]
    exact ⟨fun h => h.1, fun h => ⟨h, hallowed h.1 h.2⟩⟩
  split at h
  · next hnone =>
    cases h
    exact ⟨rfl, iff_of_true rfl (husers.mp hnone), hallowed, hset⟩
  · next hnone =>
    cases h
    refine ⟨rfl, ?_, hallowed, hset⟩
    rw [← husers]
    exact iff_of_false (fun hon => Bool.false_ne_true (hpassword.symm.trans hon)) hnone

theorem applyIdentity_admits (hlib : lib.Documented) (hopen : c.accessControl.anonymous = true)
    (hlogins : c.accessControl.logins = lib.defaultLogins)
    (hpassword : c.allowNonePolicyPassword = false)
    (hunset : opcua.allowCertificateIdentity = false → c.sessionPki = .unset)
    (hallow : opcua.allowCertificateIdentity = true → opcua.securityMode = .none →
      opcua.allowNoneCertificate = true)
    (h : applyIdentityAccessControl lib opcua c = .ok c') :
    Admits lib opcua c' ∧ c'.endpoints = c.endpoints ∧ c'.secureChannelPki = c.secureChannelPki ∧
      c'.sessionPki = c.sessionPki := by
  by_cases hplain : opcua.users = [] ∧ opcua.allowAnonymous = true ∧
      opcua.allowCertificateIdentity = false
  · -- the library's access control stays
    obtain ⟨husers, hanonymous, hcert⟩ := hplain
    have hsame : applyIdentityAccessControl lib opcua c = .ok c := by
      rw [applyIdentityAccessControl, husers, hanonymous, hcert]
      rfl
    cases hsame.symm.trans h
    refine ⟨⟨hopen.trans hanonymous.symm, ?_, ?_, ?_, ?_, hallow⟩, rfl, rfl, rfl⟩
    · rw [if_pos ⟨husers, hanonymous, hcert⟩]
      exact hlogins
    · rw [hpassword]
      exact iff_of_false Bool.false_ne_true (fun h => h.1 husers)
    · exact fun hne => absurd husers hne
    · rw [hcert]
      exact iff_of_false (fun hne => hne (hunset hcert)) Bool.false_ne_true
  · obtain ⟨hmade, hnone, hallowed, hset⟩ := applyIdentity_own hlib hplain hpassword h
    rw [hmade]
    refine ⟨⟨rfl, (if_neg hplain).symm, hnone, hallowed, ⟨?_, hset⟩, hallow⟩, rfl, rfl, rfl⟩
    intro hne
    by_contra hno
    exact hne (hunset (Bool.eq_false_iff.mpr hno))

/-- A server that started admits the identities of its project, and no others. -/
theorem start_admits (hlib : lib.Documented)
    (h : OpcUaServer.start lib security opcua name = .ok config) : Admits lib opcua config := by
  obtain ⟨c₀, c₁, c₂, c₃, c₄, hnew, hbase, hurls, hsession, hidentity, rfl⟩ := start_steps h
  obtain ⟨urls, rfl⟩ := setServerUrls_eq hurls
  obtain ⟨hopen, hlogins, hpassword⟩ := baseConfig_open hlib hnew hbase
  obtain ⟨hc₃, hunset, hallow⟩ := configureSessionPki_eq hsession
  have hadmits := (applyIdentity_admits hlib (by rw [hc₃]; exact hopen)
    (by rw [hc₃]; exact hlogins) (by rw [hc₃]; exact hpassword) hunset hallow hidentity).1
  exact { hadmits with }

theorem effectivePolicy_eq (policy : SecurityPolicy) :
    effectivePolicy policy = "http://opcfoundation.org/UA/SecurityPolicy#Basic256Sha256" := by
  cases policy <;> rfl

/-- In a secure mode a server that started has an endpoint, all of its endpoints sign or
encrypt as the project says, and channels are verified by the lists in the files unless all
certificates are to be accepted. -/
theorem start_secure (hlib : lib.Documented) (hmode : opcua.securityMode ≠ .none)
    (h : OpcUaServer.start lib security opcua name = .ok config) :
    config.endpoints ≠ [] ∧
      (∀ ep ∈ config.endpoints, ep.securityMode = uaMessageSecurityMode opcua.securityMode ∧
        ep.securityPolicyUri = "http://opcfoundation.org/UA/SecurityPolicy#Basic256Sha256") ∧
      ∃ trusted revoked,
        readAll lib "cannot read --ua-trust certificate" security.trustList = .ok trusted ∧
        readAll lib "cannot read --ua-crl revocation list" security.revocationList = .ok revoked ∧
        config.secureChannelPki =
          if security.acceptUntrusted then .acceptAll else .lists trusted revoked := by
  obtain ⟨c₀, c₁, c₂, c₃, c₄, hnew, hbase, hurls, hsession, hidentity, rfl⟩ := start_steps h
  obtain ⟨urls, rfl⟩ := setServerUrls_eq hurls
  obtain ⟨hopen, hlogins, hpassword⟩ := baseConfig_open hlib hnew hbase
  obtain ⟨hc₃, hunset, hallow⟩ := configureSessionPki_eq hsession
  obtain ⟨-, hendpoints, hpki, -⟩ := applyIdentity_admits hlib (by rw [hc₃]; exact hopen)
    (by rw [hc₃]; exact hlogins) (by rw [hc₃]; exact hpassword) hunset hallow hidentity
  obtain ⟨material, trusted, revoked, made, htrusted, hrevoked, hmade, hc₁, hne⟩ :=
    baseConfig_secure hmode hbase
  have hends : c₄.endpoints = c₁.endpoints := by rw [hendpoints, hc₃]
  refine ⟨?_, ?_, trusted, revoked, htrusted, hrevoked, ?_⟩
  · change c₄.endpoints ≠ []
    rw [hends]
    exact hne
  · intro ep hep
    replace hep : ep ∈ c₄.endpoints := hep
    rw [hends, hc₁] at hep
    have hkeep := (List.mem_filter.mp hep).2
    rw [Bool.and_eq_true, decide_eq_true_eq, decide_eq_true_eq, effectivePolicy_eq] at hkeep
    exact hkeep
  · change c₄.secureChannelPki = _
    rw [hpki, hc₃, hc₁, ← hlib.verification _ _ _ _ _ _ hmade]
    unfold restrictEndpoints keepSecurityEndpoints
    dsimp only
    split <;> rfl

end Started

end OpcServer.Adapters
