import OpcServer.Project.Json

/-! The embedded JSON schema of the project file. `Schema` has the keywords that it
uses; every object of it forbids additional properties. The engine that checks a
document is not part of the program, so it appears as the report it makes. -/

set_option linter.dupNamespace false

namespace OpcServer.Project

open Domain

inductive Schema where
  | string (minLength : ℕ)
  | stringEnum (values : List String)
  | integer (minimum maximum : Option ℤ)
  | integerEnum (values : List ℤ)
  | number
  | boolean
  | array (minItems : ℕ) (items : Schema)
  | object (required : List String) (properties : List (String × Schema))

namespace Schema

/-! ### The schema of a project -/

def text : Schema := .string 0

def name : Schema := .string 1

def atLeast (minimum : ℤ) : Schema := .integer (some minimum) none

def between (minimum maximum : ℤ) : Schema := .integer (some minimum) (some maximum)

def area : Schema := .stringEnum ["holding", "input", "coil", "discrete"]

def user : Schema := .object ["username", "password"] [("username", name), ("password", text)]

def opcua : Schema :=
  .object []
    [("endpointUrl", name), ("applicationName", text),
      ("securityPolicy", .stringEnum ["None", "Basic256Sha256"]),
      ("securityMode", .stringEnum ["None", "Sign", "SignAndEncrypt"]),
      ("namespaceUri", text), ("allowAnonymous", .boolean), ("allowNonePassword", .boolean),
      ("allowCertificateIdentity", .boolean), ("allowNoneCertificate", .boolean),
      ("users", .array 0 user)]

def endpoint : Schema :=
  .object ["id", "host", "port", "transport"]
    [("id", name), ("host", name), ("port", between 1 65535),
      ("transport", .stringEnum ["tcp", "udp"]), ("connectTimeoutMs", atLeast 1),
      ("responseTimeoutMs", atLeast 1), ("reconnectDelayMs", atLeast 0)]

def tag : Schema :=
  .object ["name", "area", "address", "type"]
    [("name", name), ("nodePath", text), ("area", area), ("address", atLeast 0),
      ("type", .stringEnum ["bool", "uint16", "int16", "uint32", "int32", "float32", "float64"]),
      ("quantity", atLeast 1),
      ("byteOrder", .stringEnum ["ABCD", "CDAB", "BADC", "DCBA", "AB", "BA"]),
      ("scale", .number), ("offset", .number), ("unit", text), ("writable", .boolean),
      ("group", text), ("description", text)]

def deviceProfile : Schema :=
  .object ["id", "name"]
    [("id", name), ("name", text), ("vendor", text), ("description", text),
      ("tags", .array 0 tag)]

def device : Schema :=
  .object ["id", "endpointId", "unitId"]
    [("id", name), ("endpointId", name), ("unitId", between 0 255), ("profileId", text),
      ("description", text), ("tags", .array 0 tag)]

def registerBlock : Schema :=
  .object ["area", "start", "count"]
    [("area", area), ("start", atLeast 0), ("count", between 1 125), ("description", text)]

def pollGroup : Schema :=
  .object ["id", "periodMs", "priority", "deviceId"]
    [("id", name), ("periodMs", atLeast 10),
      ("priority", .stringEnum ["fast", "normal", "slow"]), ("deviceId", name),
      ("blocks", .array 0 registerBlock), ("tagNames", .array 0 text)]

/-- `kEmbeddedModbusProjectSchema`, with the references into `$defs` resolved. -/
def project : Schema :=
  .object ["schemaVersion", "name", "endpoints", "devices", "pollGroups"]
    [("schemaVersion", atLeast 1), ("name", name), ("description", text),
      ("addressBase", .integerEnum [0, 1]), ("opcua", opcua),
      ("endpoints", .array 1 endpoint), ("deviceProfiles", .array 0 deviceProfile),
      ("devices", .array 1 device), ("pollGroups", .array 1 pollGroup)]

/-! ### Conforming documents -/

variable [Platform]

mutual

/-- A document conforms to a schema. A floating-point number counts as an integer here:
whether its value is one, and in range, is left to the engine. -/
def conforms : Schema → Json → Bool
  | .string minLength, .string v => minLength ≤ v.length
  | .stringEnum values, .string v => values.contains v
  | .integer minimum maximum, .int v => minimum.all (· ≤ v) && maximum.all (v ≤ ·)
  | .integer _ _, .float _ => true
  | .integerEnum values, .int v => values.contains v
  | .integerEnum _, .float _ => true
  | .number, .int _ => true
  | .number, .float _ => true
  | .boolean, .bool _ => true
  | .array minItems items, .array vs => minItems ≤ vs.length && vs.all (conforms items)
  | .object required properties, .object fields =>
    required.all (fun key => fields.any fun f => f.1 == key) &&
      fields.all fun f => propertyConforms properties f.1 f.2
  | _, _ => false

/-- The value of a property conforms to the schema listed under its key; a key that is
not listed is not allowed. -/
def propertyConforms : List (String × Schema) → String → Json → Bool
  | [], _, _ => false
  | (k, s) :: rest, key, v => if k == key then s.conforms v else propertyConforms rest key v

end

theorem conforms_array {minItems : ℕ} {items : Schema} {vs : List Json}
    (h : (Schema.array minItems items).conforms (.array vs) = true) {v : Json} (hv : v ∈ vs) :
    items.conforms v = true := by
  simp only [conforms, Bool.and_eq_true, List.all_eq_true] at h
  exact h.2 v hv

/-- What an object has under a key conforms to the schema of that property. -/
theorem conforms_get? {required : List String} {properties : List (String × Schema)} {j v : Json}
    {key : String} (h : (Schema.object required properties).conforms j = true)
    (hv : j.get? key = some v) : propertyConforms properties key v = true := by
  cases j with
  | object fields =>
    simp only [conforms, Bool.and_eq_true, List.all_eq_true] at h
    obtain ⟨f, hf, rfl⟩ := Option.map_eq_some_iff.mp hv
    have hkey : f.1 = key := by simpa using List.find?_some hf
    rw [← hkey]
    exact h.2 f (List.mem_of_find?_eq_some hf)
  | _ => cases hv

end Schema

/-! ### The engine -/

/-- What the schema engine makes of a document: the errors it passes to its handler,
each with a JSON pointer, and the text of the exception it ends with, if any. -/
structure SchemaReport where
  errors : List (String × String) := []
  exception : Option String := none

def appendJsonSchemaDiagnostics (report : SchemaReport) (sourceName : String) : List Diagnostic :=
  report.errors.flatMap (fun e => addError (sourceName ++ e.1) ("json schema: " ++ e.2)) ++
    match report.exception with
    | none => []
    | some what => addError sourceName ("json schema engine: " ++ what)

variable [Platform]

/-- The JSON library: its parser, and its schema engine. -/
structure JsonLibrary where
  parse : String → Except String Json
  validate : Schema → Json → SchemaReport

/-- The engine reports every violation of a schema. -/
def JsonLibrary.ReportsViolations (lib : JsonLibrary) : Prop :=
  ∀ schema document, lib.validate schema document = {} → schema.conforms document = true

/-- A library that reads texts by a function, and reports the documents that do not
conform. -/
def JsonLibrary.reading (read : String → Json) : JsonLibrary where
  parse text := .ok (read text)
  validate schema document :=
    if schema.conforms document then {} else { errors := [("", "document does not conform")] }

theorem JsonLibrary.reading_reports (read : String → Json) : (reading read).ReportsViolations := by
  intro schema document h
  by_contra hc
  simp [reading, hc] at h

end OpcServer.Project
