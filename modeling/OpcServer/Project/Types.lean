import OpcServer.Domain.Types

/-! The project map: endpoints, device profiles, devices with their tags, and poll
groups. The C++ `int` fields are integers here; where the loader narrows a JSON
number to 32 bits it says so. -/

set_option linter.dupNamespace false

namespace OpcServer.Project

open Domain

inductive Transport where
  | tcp | udp
  deriving DecidableEq, Repr

inductive SecurityPolicy where
  | none | basic256Sha256
  deriving DecidableEq, Repr

inductive SecurityMode where
  | none | sign | signAndEncrypt
  deriving DecidableEq, Repr

inductive Area where
  | holding | input | coil | discrete
  deriving DecidableEq, Repr

inductive TagType where
  | bool | uint16 | int16 | uint32 | int32 | float32 | float64
  deriving DecidableEq, Repr

inductive Priority where
  | fast | normal | slow
  deriving DecidableEq, Repr

structure OpcUaUser where
  username : String := ""
  password : String := ""
  deriving DecidableEq, Repr

structure OpcUaSettings where
  endpointUrl : String := "opc.tcp://0.0.0.0:4840"
  applicationName : String := ""
  securityPolicy : SecurityPolicy := .none
  securityMode : SecurityMode := .none
  namespaceUri : String := ""
  users : List OpcUaUser := []
  allowAnonymous : Bool := true
  allowNonePassword : Bool := false
  allowCertificateIdentity : Bool := false
  allowNoneCertificate : Bool := false
  deriving DecidableEq, Repr

structure Endpoint where
  id : String := ""
  host : String := ""
  port : UInt16 := 502
  transport : Transport := .tcp
  connectTimeoutMs : ℤ := 3000
  responseTimeoutMs : ℤ := 1000
  reconnectDelayMs : ℤ := 2000
  deriving DecidableEq, Repr

structure RegisterBlock where
  area : Area := .holding
  start : ℤ := 0
  count : ℤ := 1
  description : String := ""
  deriving DecidableEq, Repr

structure PollGroup where
  id : String := ""
  periodMs : ℤ := 1000
  priority : Priority := .normal
  deviceId : String := ""
  blocks : List RegisterBlock := []
  tagNames : List String := []
  deriving DecidableEq, Repr

section Tags
variable [Platform]

structure Tag where
  name : String := ""
  nodePath : String := ""
  area : Area := .holding
  address : ℤ := 0
  type : TagType := .uint16
  quantity : Option ℤ := none
  byteOrder : String := ""
  scale : Double := Platform.ofInt 1
  offset : Double := Platform.ofInt 0
  unit : String := ""
  writable : Bool := false
  group : String := ""
  description : String := ""
  deriving DecidableEq

structure DeviceProfile where
  id : String := ""
  name : String := ""
  vendor : String := ""
  description : String := ""
  tags : List Tag := []
  deriving DecidableEq

structure Device where
  id : String := ""
  endpointId : String := ""
  unitId : ℤ := 1
  profileId : String := ""
  description : String := ""
  tags : List Tag := []
  deriving DecidableEq

structure Project where
  schemaVersion : ℤ := 1
  name : String := ""
  description : String := ""
  addressBase : ℤ := 0
  opcua : OpcUaSettings := {}
  endpoints : List Endpoint := []
  deviceProfiles : List DeviceProfile := []
  devices : List Device := []
  pollGroups : List PollGroup := []
  deriving DecidableEq

end Tags

inductive Severity where
  | error | warning
  deriving DecidableEq, Repr

structure Diagnostic where
  severity : Severity := .error
  path : String := ""
  message : String := ""
  deriving DecidableEq, Repr

structure LoadResult [Platform] where
  ok : Bool := false
  project : Project := {}
  diagnostics : List Diagnostic := []
  deriving DecidableEq

/-- Registers of a tag by its type alone (`register_count_for` of the translator). -/
def registerCountFor : TagType → ℤ
  | .bool | .uint16 | .int16 => 1
  | .uint32 | .int32 | .float32 => 2
  | .float64 => 4

/-- Registers a tag occupies: its explicit quantity, else what its type needs. -/
def regsFor [Platform] (tag : Tag) : ℤ :=
  match tag.quantity with
  | some q => q
  | none => registerCountFor tag.type

theorem registerCountFor_le (t : TagType) : registerCountFor t ≤ 4 := by
  cases t <;> decide

theorem registerCountFor_pos (t : TagType) : 1 ≤ registerCountFor t := by
  cases t <;> decide

/-- A cast to `uint16_t` keeps the values that fit. -/
theorem toNat_ofInt {a : ℤ} (h : 0 ≤ a) (h' : a < 65536) : (UInt16.ofInt a).toNat = a.toNat := by
  have hmod : a % 2 ^ 16 = a := Int.emod_eq_of_lt h (by omega)
  rw [UInt16.ofInt, hmod, UInt16.toNat_ofNat']
  exact Nat.mod_eq_of_lt (by omega)

/-- The values of a C++ `int`. -/
def IsInt (n : ℤ) : Prop := -2 ^ 31 ≤ n ∧ n < 2 ^ 31

end OpcServer.Project
