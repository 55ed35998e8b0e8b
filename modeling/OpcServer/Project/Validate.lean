import OpcServer.Project.Load

/-! The semantic checks of a project, in the order of the source. Sets of names seen
so far are lists that the loops carry along. -/

set_option linter.dupNamespace false

namespace OpcServer.Project

open Domain

def addWarning (path message : String) : List Diagnostic :=
  [{ severity := .warning, path := path, message := message }]

def check (bad : Bool) (path message : String) : List Diagnostic :=
  if bad then addError path message else []

def indexed (base : String) (i : ℕ) : String := base ++ "[" ++ toString i ++ "]"

def validByteOrder (order : String) (type : TagType) : Bool :=
  if order = "" then type = .bool || type = .uint16 || type = .int16
  else if !(["ABCD", "CDAB", "BADC", "DCBA", "AB", "BA"].contains order) then false
  else
    match type with
    | .uint16 | .int16 => order = "AB" || order = "BA"
    | .float32 | .uint32 | .int32 | .float64 => order.length = 4
    | .bool => true

/-! ### Endpoints -/

def validateEndpoint (path : String) (seen : List String) (ep : Endpoint) : List Diagnostic :=
  check (seen.contains ep.id) (path ++ ".id") ("duplicate endpoint id '" ++ ep.id ++ "'") ++
    check (ep.connectTimeoutMs < 1 || ep.responseTimeoutMs < 1) path "timeouts must be >= 1"

def validateEndpoints : ℕ → List String → List Endpoint → List Diagnostic
  | _, _, [] => []
  | i, seen, ep :: rest =>
    if ep.id = "" then validateEndpoints (i + 1) seen rest
    else validateEndpoint (indexed "endpoints" i) seen ep ++
      validateEndpoints (i + 1) (ep.id :: seen) rest

variable [Platform]

/-! ### Devices and tags -/

/-- The checks of a tag that look at this tag only. -/
def validateTag (path : String) (tag : Tag) : List Diagnostic :=
  check (tag.address < 0) (path ++ ".address") "address must be >= 0" ++
  check (!validByteOrder tag.byteOrder tag.type) (path ++ ".byteOrder")
    ("invalid byteOrder '" ++ tag.byteOrder ++ "' for type") ++
  check (tag.quantity.any (· < 1)) (path ++ ".quantity") "quantity must be >= 1" ++
  check (tag.writable && (tag.area = .input || tag.area = .discrete)) (path ++ ".writable")
    "input/discrete areas cannot be writable"

/-- The tags of a device, with the names seen in this device and in all devices. A name
repeated within the device is not entered again. -/
def validateTags (path : String) :
    ℕ → List String → List String → List Tag → List Diagnostic × List String
  | _, _, all, [] => ([], all)
  | i, own, all, tag :: rest =>
    let tpath := indexed (path ++ ".tags") i
    let name := tag.name
    if name ≠ "" ∧ own.contains name then
      let (diags, all) := validateTags path (i + 1) own all rest
      (addError (tpath ++ ".name") ("duplicate tag name '" ++ name ++ "'") ++
        validateTag tpath tag ++ diags, all)
    else if name ≠ "" ∧ all.contains name then
      let (diags, all) := validateTags path (i + 1) (name :: own) all rest
      (addError (tpath ++ ".name") ("duplicate tag name '" ++ name ++ "' across devices") ++
        validateTag tpath tag ++ diags, all)
    else
      let seen := if name = "" then [] else [name]
      let (diags, all) := validateTags path (i + 1) (seen ++ own) (seen ++ all) rest
      (validateTag tpath tag ++ diags, all)

/-- The checks of a device besides its tags. -/
def validateDevice (project : Project) (path : String) (seen : List String) (device : Device) :
    List Diagnostic :=
  check (device.id ≠ "" && seen.contains device.id) (path ++ ".id")
    ("duplicate device id '" ++ device.id ++ "'") ++
  check (device.endpointId ≠ "" && !(project.endpoints.any fun e => e.id == device.endpointId))
    (path ++ ".endpointId") ("unknown endpointId '" ++ device.endpointId ++ "'") ++
  check (device.profileId ≠ "" && !(project.deviceProfiles.any fun p => p.id == device.profileId))
    (path ++ ".profileId") ("unknown profileId '" ++ device.profileId ++ "'") ++
  check (device.unitId < 0 || device.unitId > 255) (path ++ ".unitId") "unitId must be in [0, 255]"

def validateDevices (project : Project) :
    ℕ → List String → List String → List Device → List Diagnostic
  | _, _, _, [] => []
  | i, seen, all, device :: rest =>
    let path := indexed "devices" i
    let (diags, all) := validateTags path 0 [] all device.tags
    validateDevice project path seen device ++ diags ++
      validateDevices project (i + 1) (device.id :: seen) all rest

/-! ### Poll groups -/

/-- The device under a non-empty id; of several the first. -/
def devicesById (project : Project) (id : String) : Option Device :=
  if id = "" then none else project.devices.find? fun d => d.id == id

def validateBlock (path : String) (block : RegisterBlock) : List Diagnostic :=
  check (block.start < 0) (path ++ ".start") "start must be >= 0" ++
    check (block.count < 1 || block.count > 125) (path ++ ".count") "count must be in [1, 125]"

def validateBlocks (path : String) : ℕ → List RegisterBlock → List Diagnostic
  | _, [] => []
  | i, block :: rest =>
    validateBlock (indexed (path ++ ".blocks") i) block ++ validateBlocks path (i + 1) rest

/-- The names of a group that its device does not have. -/
def validateTagNames (path : String) (group : PollGroup) (device : Device) : List Diagnostic :=
  group.tagNames.flatMap fun name =>
    check (!(device.tags.any fun t => t.name == name)) (path ++ ".tagNames")
      ("tag '" ++ name ++ "' not found on device '" ++ group.deviceId ++ "'")

def validateGroup (project : Project) (path : String) (seen : List String) (group : PollGroup) :
    List Diagnostic :=
  check (group.id ≠ "" && seen.contains group.id) (path ++ ".id")
    ("duplicate poll group id '" ++ group.id ++ "'") ++
  check (group.periodMs < 10) (path ++ ".periodMs") "periodMs must be >= 10" ++
  check (group.deviceId ≠ "" && (devicesById project group.deviceId).isNone) (path ++ ".deviceId")
    ("unknown deviceId '" ++ group.deviceId ++ "'") ++
  (if group.blocks.isEmpty && group.tagNames.isEmpty then
    addWarning path "poll group has neither blocks nor tagNames" else []) ++
  validateBlocks path 0 group.blocks ++
  match devicesById project group.deviceId with
  | none => []
  | some device => validateTagNames path group device

def validateGroups (project : Project) : ℕ → List String → List PollGroup → List Diagnostic
  | _, _, [] => []
  | i, seen, group :: rest =>
    validateGroup project (indexed "pollGroups" i) seen group ++
      validateGroups project (i + 1) (group.id :: seen) rest

/-! ### Tag groups -/

/-- Warnings about tags that name a group which does not exist. -/
def warnTagGroups (project : Project) (path : String) : ℕ → List Tag → List Diagnostic
  | _, [] => []
  | i, tag :: rest =>
    (if tag.group ≠ "" && !(project.pollGroups.any fun g => g.id == tag.group) then
      addWarning (indexed (path ++ ".tags") i ++ ".group")
        ("tag group '" ++ tag.group ++ "' has no matching pollGroups.id") else []) ++
      warnTagGroups project path (i + 1) rest

def warnDevices (project : Project) : ℕ → List Device → List Diagnostic
  | _, [] => []
  | i, device :: rest =>
    warnTagGroups project (indexed "devices" i) 0 device.tags ++ warnDevices project (i + 1) rest

def validate (project : Project) : List Diagnostic :=
  check (project.schemaVersion < 1) "schemaVersion" "must be >= 1" ++
  validateEndpoints 0 [] project.endpoints ++
  validateDevices project 0 [] [] project.devices ++
  validateGroups project 0 [] project.pollGroups ++
  warnDevices project 0 project.devices

/-! ### What passes -/

/-- None of the diagnostics is an error. -/
def NoErrors (diags : List Diagnostic) : Prop := ∀ d ∈ diags, d.severity ≠ .error

end OpcServer.Project
