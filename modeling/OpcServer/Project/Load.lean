import OpcServer.Project.Json

/-! The loader: from a JSON document to a project, and the expansion of device
profiles into the devices that name them. -/

set_option linter.dupNamespace false

namespace OpcServer.Project

open Domain

def kTransport : List (String × Transport) := [("tcp", .tcp), ("udp", .udp)]

def kSecurityPolicy : List (String × SecurityPolicy) :=
  [("None", .none), ("Basic256Sha256", .basic256Sha256)]

def kSecurityMode : List (String × SecurityMode) :=
  [("None", .none), ("Sign", .sign), ("SignAndEncrypt", .signAndEncrypt)]

def kArea : List (String × Area) :=
  [("holding", .holding), ("input", .input), ("coil", .coil), ("discrete", .discrete)]

def kTagType : List (String × TagType) :=
  [("bool", .bool), ("uint16", .uint16), ("int16", .int16), ("uint32", .uint32),
    ("int32", .int32), ("float32", .float32), ("float64", .float64)]

def kPriority : List (String × Priority) := [("fast", .fast), ("normal", .normal), ("slow", .slow)]

variable [Platform]

/-! ### Records -/

def parseTag (path : String) (j : Json) : Tag × List Diagnostic :=
  if !j.isObject then ({}, addError path "tag must be an object")
  else
    let name := requiredString j path "name"
    let area := requiredEnum j kArea path "area" .holding
    let address := requiredInt j path "address" 0
    let type := requiredEnum j kTagType path "type" .uint16
    ({ name := name.1,
       nodePath := (j.string? "nodePath").getD "",
       area := area.1,
       address := address.1,
       type := type.1,
       quantity := j.int? "quantity",
       byteOrder := (j.string? "byteOrder").getD "",
       scale := (j.number? "scale").getD (Platform.ofInt 1),
       offset := (j.number? "offset").getD (Platform.ofInt 0),
       unit := (j.string? "unit").getD "",
       writable := (j.bool? "writable").getD false,
       group := (j.string? "group").getD "",
       description := (j.string? "description").getD "" },
     name.2 ++ area.2 ++ address.2 ++ type.2)

/-- The port is checked before it is narrowed. -/
def parsePort (path : String) (j : Json) : UInt16 × List Diagnostic :=
  match j.int? "port" with
  | none => (502, addError (path ++ ".port") "required integer")
  | some port =>
    if port < 1 ∨ port > 65535 then (502, addError (path ++ ".port") "port out of range")
    else (UInt16.ofInt port, [])

def parseEndpoint (path : String) (j : Json) : Endpoint × List Diagnostic :=
  if !j.isObject then ({}, addError path "endpoint must be an object")
  else
    let id := requiredString j path "id"
    let host := requiredString j path "host"
    let port := parsePort path j
    let transport := requiredEnum j kTransport path "transport" .tcp
    ({ id := id.1,
       host := host.1,
       port := port.1,
       transport := transport.1,
       connectTimeoutMs := (j.int? "connectTimeoutMs").getD 3000,
       responseTimeoutMs := (j.int? "responseTimeoutMs").getD 1000,
       reconnectDelayMs := (j.int? "reconnectDelayMs").getD 2000 },
     id.2 ++ host.2 ++ port.2 ++ transport.2)

def parseBlock (path : String) (j : Json) : RegisterBlock × List Diagnostic :=
  if !j.isObject then ({}, addError path "block must be an object")
  else
    let area := requiredEnum j kArea path "area" .holding
    let start := requiredInt j path "start" 0
    let count := requiredInt j path "count" 1
    ({ area := area.1, start := start.1, count := count.1,
       description := (j.string? "description").getD "" },
     area.2 ++ start.2 ++ count.2)

/-- A record whose value is kept whatever its diagnostics. -/
def kept {α : Type} (parse : String → Json → α × List Diagnostic) (path : String) (j : Json) :
    List α × List Diagnostic := ([(parse path j).1], (parse path j).2)

/-- The items of an optional array. -/
def eachIn {α : Type} (parse : String → Json → List α × List Diagnostic) (j : Json)
    (base key : String) : List α × List Diagnostic := each parse base 0 ((j.array? key).getD [])

def parseTags (path : String) (j : Json) : List Tag × List Diagnostic :=
  eachIn (kept parseTag) j (path ++ ".tags") "tags"

def parseProfile (path : String) (j : Json) : List DeviceProfile × List Diagnostic :=
  if !j.isObject then ([], addError path "profile must be an object")
  else
    let id := requiredString j path "id"
    let name := requiredString j path "name"
    let tags := parseTags path j
    ([{ id := id.1, name := name.1, vendor := (j.string? "vendor").getD "",
        description := (j.string? "description").getD "", tags := tags.1 }],
     id.2 ++ name.2 ++ tags.2)

def parseDevice (path : String) (j : Json) : List Device × List Diagnostic :=
  if !j.isObject then ([], addError path "device must be an object")
  else
    let id := requiredString j path "id"
    let endpointId := requiredString j path "endpointId"
    let unitId := requiredInt j path "unitId" 1
    let tags := parseTags path j
    ([{ id := id.1, endpointId := endpointId.1, unitId := unitId.1,
        profileId := (j.string? "profileId").getD "",
        description := (j.string? "description").getD "", tags := tags.1 }],
     id.2 ++ endpointId.2 ++ unitId.2 ++ tags.2)

/-- An element of `tagNames`. -/
def parseTagName (path : String) (j : Json) : List String × List Diagnostic :=
  match j with
  | .string name => ([name], [])
  | _ => ([], addError path "elements must be strings")

/-- The elements of `tagNames`; their errors all carry the path of the list. -/
def parseTagNames (path : String) : List Json → List String × List Diagnostic
  | [] => ([], [])
  | item :: rest =>
    let (names, diags) := parseTagName (path ++ ".tagNames") item
    let (names', diags') := parseTagNames path rest
    (names ++ names', diags ++ diags')

def parseGroup (path : String) (j : Json) : List PollGroup × List Diagnostic :=
  if !j.isObject then ([], addError path "pollGroup must be an object")
  else
    let id := requiredString j path "id"
    let periodMs := requiredInt j path "periodMs" 1000
    let priority := requiredEnum j kPriority path "priority" .normal
    let deviceId := requiredString j path "deviceId"
    let blocks := eachIn (kept parseBlock) j (path ++ ".blocks") "blocks"
    let tagNames := parseTagNames path ((j.array? "tagNames").getD [])
    ([{ id := id.1, periodMs := periodMs.1, priority := priority.1, deviceId := deviceId.1,
        blocks := blocks.1, tagNames := tagNames.1 }],
     id.2 ++ periodMs.2 ++ priority.2 ++ deviceId.2 ++ blocks.2 ++ tagNames.2)

/-! ### The OPC UA section -/

/-- A non-empty string field. -/
def nonEmpty? (j : Json) (key : String) : Option String :=
  (j.string? key).filter (· ≠ "")

/-- A user without a name is reported and left out. -/
def parseUser (path : String) (j : Json) : List OpcUaUser × List Diagnostic :=
  if !j.isObject then ([], addError path "must be object with username/password")
  else
    let username := required (nonEmpty? j "username") "" (path ++ ".username")
      "required non-empty string"
    let password := required (j.string? "password") "" (path ++ ".password") "required string"
    (if username.1 = "" then [] else [{ username := username.1, password := password.1 }],
     username.2 ++ password.2)

def optionalEnum {α : Type} (j : Json) (table : List (String × α)) (path key : String)
    (fallback : α) : α × List Diagnostic :=
  match j.get? key with
  | none => (fallback, [])
  | some value => parseEnum value table path fallback

def parseOpcua (o : Json) : OpcUaSettings × List Diagnostic :=
  let securityPolicy := optionalEnum o kSecurityPolicy "opcua.securityPolicy" "securityPolicy"
    SecurityPolicy.none
  let securityMode := optionalEnum o kSecurityMode "opcua.securityMode" "securityMode"
    SecurityMode.none
  let users := eachIn parseUser o "opcua.users" "users"
  let allowCertificateIdentity := (o.bool? "allowCertificateIdentity").getD false
  ({ endpointUrl := (o.string? "endpointUrl").getD "opc.tcp://0.0.0.0:4840",
     applicationName := (o.string? "applicationName").getD "",
     securityPolicy := securityPolicy.1,
     securityMode := securityMode.1,
     namespaceUri := (o.string? "namespaceUri").getD "",
     users := users.1,
     allowCertificateIdentity := allowCertificateIdentity,
     allowNoneCertificate := (o.bool? "allowNoneCertificate").getD false,
     -- fail closed: without the field, identities switch anonymous access off
     allowAnonymous := (o.bool? "allowAnonymous").getD
       (users.1.isEmpty && !allowCertificateIdentity),
     allowNonePassword := (o.bool? "allowNonePassword").getD false },
   securityPolicy.2 ++ securityMode.2 ++ users.2)

/-! ### The project -/

/-- A required array that must not be empty. -/
def requiredEach {α : Type} (parse : String → Json → List α × List Diagnostic) (root : Json)
    (key : String) : List α × List Diagnostic :=
  match root.array? key with
  | none | some [] => ([], addError key "required non-empty array")
  | some items => each parse key 0 items

def parseAddressBase (root : Json) : ℤ × List Diagnostic :=
  match root.int? "addressBase" with
  | none => (0, [])
  | some base =>
    (base, if base ≠ 0 ∧ base ≠ 1 then addError "addressBase" "must be 0 or 1" else [])

def parseOpcuaSection (root : Json) : OpcUaSettings × List Diagnostic :=
  match root.get? "opcua" with
  | some (.object fields) => parseOpcua (.object fields)
  | _ => ({}, [])

def parseProject (root : Json) : Project × List Diagnostic :=
  if !root.isObject then ({}, addError "$" "root must be a JSON object")
  else
    let schemaVersion := required (root.int? "schemaVersion") 1 "schemaVersion" "required integer"
    let name := required (nonEmpty? root "name") "" "name" "required non-empty string"
    let addressBase := parseAddressBase root
    let opcua := parseOpcuaSection root
    let endpoints := requiredEach (kept parseEndpoint) root "endpoints"
    let deviceProfiles := eachIn parseProfile root "deviceProfiles" "deviceProfiles"
    let devices := requiredEach parseDevice root "devices"
    let pollGroups := requiredEach parseGroup root "pollGroups"
    ({ schemaVersion := schemaVersion.1,
       name := name.1,
       description := (root.string? "description").getD "",
       addressBase := addressBase.1,
       opcua := opcua.1,
       endpoints := endpoints.1,
       deviceProfiles := deviceProfiles.1,
       devices := devices.1,
       pollGroups := pollGroups.1 },
     schemaVersion.2 ++ name.2 ++ addressBase.2 ++ opcua.2 ++ endpoints.2 ++ deviceProfiles.2 ++
       devices.2 ++ pollGroups.2)

/-! ### Profiles -/

/-- The device's own tag of a name; of several with one name the last. -/
def overlayTag (device : Device) (name : String) : Option Tag :=
  if name = "" then none else device.tags.reverse.find? fun t => t.name == name

/-- The tags of a device merged over those of its profile. -/
def mergeTags (device : Device) (profile : DeviceProfile) : List Tag :=
  profile.tags.map (fun t => (overlayTag device t.name).getD t) ++
    device.tags.filter fun t =>
      t.name == "" || !(profile.tags.any fun p => p.name == t.name)

def expandDevice (profiles : List DeviceProfile) (device : Device) : Device :=
  if device.profileId = "" then device
  else
    match profiles.find? fun p => p.id == device.profileId with
    | none => device
    | some profile =>
      if profile.tags.isEmpty then device
      else { device with tags := mergeTags device profile }

def expandDeviceProfiles (project : Project) : Project :=
  { project with devices := project.devices.map (expandDevice project.deviceProfiles) }

end OpcServer.Project
