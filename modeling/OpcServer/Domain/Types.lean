import OpcServer.Domain.Platform

/-! The domain types of the gateway: tag values with quality, scalar values, and
errors. Tag ids are natural numbers (the 32-bit counter of the index never wraps)
and timestamps integers (milliseconds since the epoch). -/

namespace OpcServer.Domain

inductive Quality where
  | good | uncertain | bad
  deriving DecidableEq, Repr

inductive QualityReason where
  | none | noCommunication | deviceFailure | timeout | modbusException | decodingError
  | stale | writePending | writeRejected | outOfRange
  deriving DecidableEq, Repr

abbrev TagId := ℕ

abbrev TimestampMs := ℤ

inductive ErrorCode where
  | ok | invalidArgument | notFound | timeout | connection | modbusException | decoding
  | queueFull | permission | internal | notImplemented
  deriving DecidableEq, Repr

structure Error where
  code : ErrorCode := .internal
  message : String := ""
  component : String := ""
  retryable : Bool := false
  protocolStatus : Option ℤ := none
  deriving DecidableEq, Repr

/-- `std::expected<T, Error>`. -/
abbrev Result (α : Type) := Except Error α

variable [Platform]

/-- The alternatives of the `ScalarValue` variant, in the order of the source. -/
inductive ScalarValue where
  | monostate
  | bool (v : Bool)
  | uint16 (v : UInt16)
  | int16 (v : Int16)
  | uint32 (v : UInt32)
  | int32 (v : Int32)
  | float (v : Single)
  | double (v : Double)
  deriving DecidableEq

structure TagValue where
  value : ScalarValue := .monostate
  quality : Quality := .bad
  reason : QualityReason := .noCommunication
  sourceTs : TimestampMs := 0
  serverTs : TimestampMs := 0
  epoch : ℕ := 0
  deriving DecidableEq

/-- Flip quality and reason while keeping the last engineering value. -/
def withQuality (previous : Option TagValue) (quality : Quality) (reason : QualityReason)
    (serverTs : TimestampMs) : TagValue :=
  let out := previous.getD {}
  let out := { out with quality := quality, reason := reason, serverTs := serverTs }
  match previous with
  | some p => if out.sourceTs = 0 then { out with sourceTs := p.sourceTs } else out
  | none => out

/-- The source timestamp is inherited already, so its second assignment changes
nothing. -/
theorem withQuality_eq (previous : Option TagValue) (quality : Quality) (reason : QualityReason)
    (serverTs : TimestampMs) :
    withQuality previous quality reason serverTs =
      { previous.getD {} with quality := quality, reason := reason, serverTs := serverTs } := by
  cases previous with
  | none => rfl
  | some p => simp [withQuality]

end OpcServer.Domain
