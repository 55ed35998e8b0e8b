import OpcServer.Monitor.SessionPace

/-! What the studio sends to the monitor when the user connects, and which of these commands
the monitor survives: no exception is caught where commands are handled. -/

namespace OpcServer.Monitor

open Domain Project

section Commands
variable [Platform] {NodeId V : Type}

/-! ### Commands that the monitor survives -/

theorem textValue_eq {command value : Json} {key : String} (h : command.get? key = some value)
    (default : String) : textValue command key default = value.asString := by
  unfold textValue
  rw [h]
  cases value <;> rfl

namespace Session
variable {parse : String → Option NodeId} {s : Session V} {a : Answers NodeId V}

/-- A `connect` breaks off also when a text is of another kind. -/
theorem connect_isSome {command : Json} {endpoint : String}
    (h : command.string? "endpoint" = some endpoint) : (s.connect parse a command).isSome ↔
      ∃ mode policy certificate key userCertificate userKey,
        textValue command "securityMode" "None" = some mode ∧
        textValue command "securityPolicy" "None" = some policy ∧
        textValue command "certificate" "" = some certificate ∧
        textValue command "privateKey" "" = some key ∧
        textValue command "userCertificate" "" = some userCertificate ∧
        textValue command "userPrivateKey" "" = some userKey ∧
        a.made = true ∧ (mode ≠ "None" → mode ≠ "" → a.Reads certificate key) ∧
        ((mode = "None" ∨ mode = "") ∨ a.security = none → a.Reads userCertificate userKey) := by
  rw [Option.isSome_iff_exists]
  simp only [connect, h, Option.bind_eq_bind, Option.bind_eq_some_iff]
  constructor
  · rintro ⟨t, mode, hmode, policy, hpolicy, certificate, hcertificate, key, hkey, user, huser,
      userKey, huserKey, ht⟩
    exact ⟨mode, policy, certificate, key, user, userKey, hmode, hpolicy, hcertificate, hkey, huser,
      huserKey, (attempt_isSome (some command)).mp (Option.isSome_iff_exists.mpr ⟨t, ht⟩)⟩
  · rintro ⟨mode, policy, certificate, key, user, userKey, hmode, hpolicy, hcertificate, hkey, huser,
      huserKey, hattempt⟩
    let next : Session V := { s.close a false none with
      endpoint, securityMode := mode, securityPolicy := policy, certificatePath := certificate
      privateKeyPath := key, userCertificatePath := user, userPrivateKeyPath := userKey
      username := (command.string? "username").getD ""
      password := (command.string? "password").getD ""
      wantConnected := true }
    have hnext : (next.attempt parse a (some command)).isSome :=
      (attempt_isSome (some command)).mpr hattempt
    obtain ⟨t, ht⟩ := Option.isSome_iff_exists.mp hnext
    exact ⟨t, mode, hmode, policy, hpolicy, certificate, hcertificate, key, hkey, user, huser,
      userKey, huserKey, ht⟩

end Session

theorem sessionStep_connect (print : NodeId → String) (parse : String → Option NodeId)
    (a : Answers NodeId V) {command : Json} (h : command.string? "command" = some "connect")
    (s : Session V) : sessionStep print parse (.command command a) s =
      (s.advance a.before).connect parse a command := by
  simp only [sessionStep, Session.dispatch, h, if_true, SessionAction.answers]

/-! ### The studio -/

structure ConnectionProfile where
  endpointUrl : String
  securityPolicy : String := "None"
  securityMode : String := "None"
  username : Option String := none
  password : Option String := none
  certificatePath : Option String := none
  privateKeyPath : Option String := none
  userCertificatePath : Option String := none
  userPrivateKeyPath : Option String := none

/-- `is_some_and(|value| value.len() > limit)`: the length is in bytes. -/
def longer (limit : ℕ) (value : Option String) : Bool :=
  value.any fun v => limit < v.utf8ByteSize

/-- An `Option` in the `json!` macro. -/
def orNull : Option String → Json
  | none => .null
  | some v => .string v

def connectCommand (profile : ConnectionProfile) : Json :=
  .object [("command", .string "connect"), ("endpoint", .string profile.endpointUrl),
    ("securityPolicy", .string profile.securityPolicy),
    ("securityMode", .string profile.securityMode),
    ("certificate", orNull profile.certificatePath), ("privateKey", orNull profile.privateKeyPath),
    ("userCertificate", orNull profile.userCertificatePath),
    ("userPrivateKey", orNull profile.userPrivateKeyPath), ("username", orNull profile.username),
    ("password", orNull profile.password)]

/-- `monitor_connect`, up to the command that it sends. -/
def monitorConnect (profile : ConnectionProfile) : Except String Json :=
  if 2048 < profile.endpointUrl.utf8ByteSize ||
      !"opc.tcp://".toList.isPrefixOf profile.endpointUrl.toList then
    .error "Endpoint must be an opc.tcp URL"
  else if profile.securityPolicy ≠ "None" ∧ profile.securityPolicy ≠ "Basic256Sha256" then
    .error "Unsupported security policy"
  else if profile.securityMode ≠ "None" ∧ profile.securityMode ≠ "Sign" ∧
      profile.securityMode ≠ "SignAndEncrypt" then
    .error "Unsupported security mode"
  else if longer 4096 profile.certificatePath || longer 4096 profile.privateKeyPath ||
      longer 4096 profile.userCertificatePath || longer 4096 profile.userPrivateKeyPath then
    .error "Certificate paths are too long"
  else if longer 256 profile.username || longer 1024 profile.password then
    .error "Username/password are too long"
  else
    .ok (connectCommand profile)

@[simp] theorem asString_string (v : String) : (Json.string v).asString = some v := rfl

@[simp] theorem orNull_asString (value : Option String) : (orNull value).asString = value := by
  cases value <;> rfl

/-- A connect that the studio lets through is one that the monitor survives only when the
profile names all four files, there is memory for a client object, and no file that is read
is one whose read breaks off. -/
theorem monitorConnect_survives_iff (print : NodeId → String) (parse : String → Option NodeId)
    {profile : ConnectionProfile} {command : Json} (h : monitorConnect profile = .ok command)
    (a : Answers NodeId V) (s : Session V) :
    (sessionStep print parse (.command command a) s).isSome ↔
      ∃ certificate key userCertificate userKey,
        profile.certificatePath = some certificate ∧ profile.privateKeyPath = some key ∧
        profile.userCertificatePath = some userCertificate ∧
        profile.userPrivateKeyPath = some userKey ∧ a.made = true ∧
        (profile.securityMode ≠ "None" → a.Reads certificate key) ∧
        (profile.securityMode = "None" ∨ a.security = none → a.Reads userCertificate userKey) := by
  unfold monitorConnect at h
  split_ifs at h with _ _ hmode
  cases h
  have hmode : profile.securityMode ≠ "" := by
    intro hempty
    rw [hempty] at hmode
    exact hmode (by decide)
  have hendpoint : (connectCommand profile).string? "endpoint" = some profile.endpointUrl := rfl
  rw [sessionStep_connect print parse a rfl, Session.connect_isSome hendpoint]
  have text (key default : String) (value : Json)
      (hget : (connectCommand profile).get? key = some value) :
      textValue (connectCommand profile) key default = value.asString := textValue_eq hget default
  simp only [text "securityMode" "None" (.string profile.securityMode) rfl,
    text "securityPolicy" "None" (.string profile.securityPolicy) rfl,
    text "certificate" "" (orNull profile.certificatePath) rfl,
    text "privateKey" "" (orNull profile.privateKeyPath) rfl,
    text "userCertificate" "" (orNull profile.userCertificatePath) rfl,
    text "userPrivateKey" "" (orNull profile.userPrivateKeyPath) rfl,
    asString_string, orNull_asString, Option.some.injEq]
  constructor
  · rintro ⟨_, _, certificate, key, user, userKey, rfl, rfl, hcertificate, hkey, huser, huserKey,
      hmade, hreads, huserReads⟩
    exact ⟨certificate, key, user, userKey, hcertificate, hkey, huser, huserKey, hmade,
      fun hnone => hreads hnone hmode, fun h => huserReads (h.imp_left .inl)⟩
  · rintro ⟨certificate, key, user, userKey, hcertificate, hkey, huser, huserKey, hmade, hreads,
      huserReads⟩
    refine ⟨_, _, certificate, key, user, userKey, rfl, rfl, hcertificate, hkey, huser, huserKey,
      hmade, fun hnone _ => hreads hnone, ?_⟩
    rintro ((hnone | hempty) | hsecurity)
    · exact huserReads (.inl hnone)
    · exact absurd hempty hmode
    · exact huserReads (.inr hsecurity)

end Commands

section Local
attribute [local instance] exactPlatform

/-- A server without security, with a user certificate in a file and its key in a directory. -/
def localProfile : ConnectionProfile :=
  { endpointUrl := "opc.tcp://localhost:4840", certificatePath := some ""
    privateKeyPath := some "", userCertificatePath := some "/etc/user.der"
    userPrivateKeyPath := some "/tmp" }

def localCommand : Json :=
  .object [("command", .string "connect"), ("endpoint", .string "opc.tcp://localhost:4840"),
    ("securityPolicy", .string "None"), ("securityMode", .string "None"),
    ("certificate", .string ""), ("privateKey", .string ""),
    ("userCertificate", .string "/etc/user.der"), ("userPrivateKey", .string "/tmp"),
    ("username", .null), ("password", .null)]

/-- A library on a machine where `/tmp` is a directory. -/
def withTmp : Answers String ℕ :=
  { obliging with file := fun path => if path = "/tmp" then none else some true }

theorem localProfile_ends :
    ((sessionStep id some (.command localCommand withTmp) ({} : Session ℕ)).isSome ↔
      ∃ certificate key userCertificate userKey,
        localProfile.certificatePath = some certificate ∧ localProfile.privateKeyPath = some key ∧
        localProfile.userCertificatePath = some userCertificate ∧
        localProfile.userPrivateKeyPath = some userKey ∧ withTmp.made = true ∧
        (localProfile.securityMode ≠ "None" → withTmp.Reads certificate key) ∧
        (localProfile.securityMode = "None" ∨ withTmp.security = none →
          withTmp.Reads userCertificate userKey)) ∧
    ¬ withTmp.Reads "/etc/user.der" "/tmp" :=
  ⟨monitorConnect_survives_iff id some (show monitorConnect localProfile = .ok localCommand by rfl)
    withTmp {}, fun h => absurd (h (by decide) (by decide)).2 (by decide)⟩

end Local

end OpcServer.Monitor
