import OpcServer.Core.Dispatcher
import Mathlib.Data.List.Infix

/-! The data source of a UA variable: reads are answered from the tag store, and a
written value is checked against the type of the tag before it goes to the write
handler. A variant has the built-in type of its scalar; copying a scalar into a variant
succeeds. -/

namespace OpcServer.Adapters

open Domain Project OpcServer.Core

variable [Platform]

/-! ### Types and variants -/

/-- The alternative of `ScalarValue` that belongs to a tag type. -/
def holds : TagType → ScalarValue → Bool
  | .bool, .bool _ | .uint16, .uint16 _ | .int16, .int16 _ | .uint32, .uint32 _
  | .int32, .int32 _ | .float32, .float _ | .float64, .double _ => true
  | _, _ => false

theorem ne_monostate_of_holds {type : TagType} {value : ScalarValue} (h : holds type value = true) :
    value ≠ .monostate := by
  rintro rfl
  cases type <;> cases h

/-- A variant with data, of one of the built-in types that tags have or of another. -/
inductive UaVariant where
  | boolean (v : Bool)
  | uint16 (v : UInt16)
  | int16 (v : Int16)
  | uint32 (v : UInt32)
  | int32 (v : Int32)
  | float (v : Single)
  | double (v : Double)
  | other
  deriving DecidableEq

/-- `fill_variant`; a `bad_variant_access` leaves the variant empty. -/
def fillVariant : TagType → ScalarValue → Option UaVariant
  | .bool, .bool v => some (.boolean v)
  | .uint16, .uint16 v => some (.uint16 v)
  | .int16, .int16 v => some (.int16 v)
  | .uint32, .uint32 v => some (.uint32 v)
  | .int32, .int32 v => some (.int32 v)
  | .float32, .float v => some (.float v)
  | .float64, .double v => some (.double v)
  | _, _ => none

/-- `variant_to_scalar`; without type or data there is no variant. -/
def variantToScalar : TagType → Option UaVariant → Option ScalarValue
  | .bool, some (.boolean v) => some (.bool v)
  | .uint16, some (.uint16 v) => some (.uint16 v)
  | .int16, some (.int16 v) => some (.int16 v)
  | .uint32, some (.uint32 v) => some (.uint32 v)
  | .int32, some (.int32 v) => some (.int32 v)
  | .float32, some (.float v) => some (.float v)
  | .float64, some (.double v) => some (.double v)
  | _, _ => none

theorem fillVariant_isSome (type : TagType) (value : ScalarValue) :
    (fillVariant type value).isSome = holds type value := by
  cases type <;> cases value <;> rfl

theorem holds_of_variantToScalar {type : TagType} {variant : Option UaVariant}
    {value : ScalarValue} (h : variantToScalar type variant = some value) :
    holds type value = true := by
  unfold variantToScalar at h
  split at h
  all_goals
    cases h
    try rfl

/-! ### Status codes -/

inductive UaStatus where
  | good | uncertainLastUsableValue | badNoCommunication | badDecodingError | badOutOfRange
  | badWriteNotSupported | badDeviceFailure | badInternalError | badNotWritable
  | badUserAccessDenied | badResourceUnavailable | badTypeMismatch
  deriving DecidableEq

def qualityToStatus : Quality → QualityReason → UaStatus
  | .good, _ => .good
  | .uncertain, _ => .uncertainLastUsableValue
  | .bad, .timeout | .bad, .noCommunication => .badNoCommunication
  | .bad, .decodingError => .badDecodingError
  | .bad, .outOfRange => .badOutOfRange
  | .bad, .writeRejected => .badWriteNotSupported
  | .bad, .modbusException | .bad, .deviceFailure => .badDeviceFailure
  | .bad, _ => .badInternalError

omit [Platform] in
theorem qualityToStatus_eq_good {quality : Quality} {reason : QualityReason} :
    qualityToStatus quality reason = .good ↔ quality = .good := by
  cases quality <;> cases reason <;> decide

def mapErrorToStatus (error : Error) : UaStatus :=
  match error.code with
  | .permission =>
    if "writable".toList <:+: error.message.toList then .badNotWritable
    else .badUserAccessDenied
  | .queueFull => .badResourceUnavailable
  | .invalidArgument => .badTypeMismatch
  | _ => .badInternalError

/-! ### Reads and writes -/

/-- What a variable node knows of its tag. -/
structure OpcUaNodeContext where
  tagId : TagId
  type : TagType
  writable : Bool

/-- The context that `add_variable` gives the node of a tag. -/
def nodeContext (binding : TagBinding) : OpcUaNodeContext :=
  ⟨binding.id, binding.tag.type, binding.tag.writable⟩

structure UaDataValue where
  status : UaStatus
  value : Option UaVariant := none
  sourceTimestamp : Option ℤ := none
  serverTimestamp : Option ℤ := none
  deriving DecidableEq

/-- Hundreds of nanoseconds since 1601. -/
def msToUaDatetime (ms : TimestampMs) : ℤ :=
  if ms ≤ 0 then 0 else ms * 10000 + 116444736000000000

def dataSourceRead (ctx : OpcUaNodeContext) (includeSourceTimestamp : Bool) (store : TagStore) :
    UaDataValue :=
  match store.get ctx.tagId with
  | none => { status := .badNoCommunication }
  | some tv => {
      status := qualityToStatus tv.quality tv.reason
      value := if tv.value ≠ .monostate then fillVariant ctx.type tv.value else none
      sourceTimestamp :=
        if includeSourceTimestamp ∧ tv.sourceTs > 0 then some (msToUaDatetime tv.sourceTs) else none
      serverTimestamp := if tv.serverTs > 0 then some (msToUaDatetime tv.serverTs) else none }

/-- `data_source_write` up to the call of the write handler: the value for it, or the
status that the client gets. -/
def checkWrite (ctx : OpcUaNodeContext) (data : Option (Option UaVariant)) :
    Except UaStatus ScalarValue :=
  match data with
  | none => .error .badInternalError
  | some variant =>
    if !ctx.writable then .error .badNotWritable
    else
      match variantToScalar ctx.type variant with
      | none => .error .badTypeMismatch
      | some scalar => .ok scalar

theorem holds_of_checkWrite {ctx : OpcUaNodeContext} {data : Option (Option UaVariant)}
    {value : ScalarValue} (h : checkWrite ctx data = .ok value) : holds ctx.type value = true := by
  unfold checkWrite at h
  split at h
  · cases h
  · split at h
    · cases h
    · split at h
      · cases h
      · rename_i hscalar
        cases h
        exact holds_of_variantToScalar hscalar

end OpcServer.Adapters
