import OpcServer.Adapters.DataSource
import OpcServer.Monitor.Session

/-! From the tag store to the table of the studio: a change that the server reports is
an event of the monitor, a line of text, an event of the studio and a row. The library
hands on the status, the value and the times of a data value as they are; a time that is
missing it may add from its own clock. -/

namespace OpcServer.Studio

open Domain Project Adapters Monitor OpcServer.Core

variable [Platform]

/-! ### The notification -/

/-- A data value as the client gets it; the clocks are those of the library, if it has
added the times. -/
def sent (sourceClock serverClock : Option ℤ) (value : UaDataValue) : UaDataValue :=
  { value with
    sourceTimestamp := value.sourceTimestamp.or sourceClock
    serverTimestamp := value.serverTimestamp.or serverClock }

/-! ### The event of the monitor -/

/-- `UA_StatusCode_name`. -/
def statusName : UaStatus → String
  | .good => "Good"
  | .uncertainLastUsableValue => "UncertainLastUsableValue"
  | .badNoCommunication => "BadNoCommunication"
  | .badDecodingError => "BadDecodingError"
  | .badOutOfRange => "BadOutOfRange"
  | .badWriteNotSupported => "BadWriteNotSupported"
  | .badDeviceFailure => "BadDeviceFailure"
  | .badInternalError => "BadInternalError"
  | .badNotWritable => "BadNotWritable"
  | .badUserAccessDenied => "BadUserAccessDenied"
  | .badResourceUnavailable => "BadResourceUnavailable"
  | .badTypeMismatch => "BadTypeMismatch"

def statusCode : UaStatus → UInt32
  | .good => 0
  | .uncertainLastUsableValue => 0x40900000
  | .badNoCommunication => 0x80310000
  | .badDecodingError => 0x80070000
  | .badOutOfRange => 0x803C0000
  | .badWriteNotSupported => 0x80730000
  | .badDeviceFailure => 0x808B0000
  | .badInternalError => 0x80020000
  | .badNotWritable => 0x803B0000
  | .badUserAccessDenied => 0x801F0000
  | .badResourceUnavailable => 0x80040000
  | .badTypeMismatch => 0x80740000

/-- The types that tags have; of another type there is nothing to show. -/
def scalarJson : UaVariant → Json
  | .boolean v => .bool v
  | .uint16 v => .int v.toNat
  | .int16 v => .int v.toInt
  | .uint32 v => .int v.toNat
  | .int32 v => .int v.toInt
  | .float v => .float (Platform.widen v)
  | .double v => .float v
  | .other => .null

def unixMs (value : ℤ) : ℤ :=
  if value ≤ 116444736000000000 then 0 else (value - 116444736000000000) / 10000

def onDataChange (item : Item) (value : UaDataValue) : Json :=
  .object ([("event", .string "dataChange"),
    ("subscriptionId", item.externalId),
    ("nodeId", .string item.nodeId),
    ("value", (value.value.map scalarJson).getD .null),
    ("statusCode", .int (statusCode value.status).toNat),
    ("statusName", .string (statusName value.status))] ++
    (value.sourceTimestamp.map fun t => ("sourceTimestamp", .int (unixMs t))).toList ++
    (value.serverTimestamp.map fun t => ("serverTimestamp", .int (unixMs t))).toList)

/-- A scalar that went through a line of text: a number that is not finite is written as
`null`, and of one that is finite `reread` says what its text is read as. -/
def lineScalar (reread : Double → Except String Double) : Json → Except String Json
  | .float v => if Platform.isFinite v then (reread v).map .float else .ok .null
  | j => .ok j

/-- An event that went through its line of text; no field holds numbers further inside. -/
def line (reread : Double → Except String Double) : Json → Except String Json
  | .object fields =>
    (fields.mapM fun f => (lineScalar reread f.2).map fun value => (f.1, value)).map .object
  | j => .ok j

/-! ### The event of the studio -/

structure LiveValue where
  nodeId : String
  browseName : String
  value : Json
  quality : String
  sourceTimestamp : String
  serverTimestamp : String

inductive MonitorEvent where
  | status (status : String) (message : Option String)
  | browse (nodes : Json)
  | value (value : LiveValue)
  | diagnostic (level message timestamp : String)

def asInt : Json → Option ℤ
  | .int v => some v
  | _ => none

/-- The text after the last of the characters that divide a node id. -/
def lastPart (nodeId : String) : String :=
  String.ofList (nodeId.toList.reverse.takeWhile fun c => c ≠ '/' && c ≠ ';' && c ≠ '=').reverse

def shownQuality (statusName : String) : String :=
  if "Bad".toList.isPrefixOf statusName.toList then "Bad"
  else if "Uncertain".toList.isPrefixOf statusName.toList then "Uncertain"
  else "Good"

/-- `rfc3339` writes a time, if it can. -/
def timestamp (rfc3339 : ℤ → Option String) (value : Option ℤ) : String :=
  (value.bind rfc3339).getD ""

def translateMonitorEvent (rfc3339 : ℤ → Option String) (now : String) (raw : Json) : MonitorEvent :=
  match (raw.get? "event").bind Json.asString with
  | some "connection" =>
    .status (match (raw.get? "state").bind Json.asString with
      | some "connected" => "connected"
      | some "reconnecting" => "connecting"
      | _ => "disconnected") ((raw.get? "statusName").bind Json.asString)
  | some "browseResult" => .browse ((raw.get? "children").getD (.array []))
  | some "dataChange" =>
    let nodeId := ((raw.get? "nodeId").bind Json.asString).getD ""
    let statusName := ((raw.get? "statusName").bind Json.asString).getD "Good"
    .value {
      nodeId := nodeId
      browseName := lastPart nodeId
      value := (raw.get? "value").getD .null
      quality := shownQuality statusName
      sourceTimestamp := timestamp rfc3339 ((raw.get? "sourceTimestamp").bind asInt)
      serverTimestamp := timestamp rfc3339 ((raw.get? "serverTimestamp").bind asInt) }
  | some "error" =>
    .diagnostic "error" (((raw.get? "message").bind Json.asString).getD "OPC UA error") now
  | _ => .diagnostic "warning" "Unknown opc-monitor event" now

/-- What the reader of the lines emits. -/
def lineEvent (rfc3339 : ℤ → Option String) (now : String) (raw : Except String Json) :
    MonitorEvent :=
  match raw with
  | .ok raw => translateMonitorEvent rfc3339 now raw
  | .error error => .diagnostic "error" ("Invalid sidecar output: " ++ error) now

/-! ### What is stored is shown -/

def qualityText : Quality → String
  | .good => "Good"
  | .uncertain => "Uncertain"
  | .bad => "Bad"

section Shown

variable (rfc3339 : ℤ → Option String) (reread : Double → Except String Double)

def shownNumber (v : Double) : Except String Json :=
  if Platform.isFinite v then (reread v).map .float else .ok .null

/-- A scalar as the studio shows it. -/
def shownScalar : ScalarValue → Except String Json
  | .monostate => .ok .null
  | .bool v => .ok (.bool v)
  | .uint16 v => .ok (.int v.toNat)
  | .int16 v => .ok (.int v.toInt)
  | .uint32 v => .ok (.int v.toNat)
  | .int32 v => .ok (.int v.toInt)
  | .float v => shownNumber reread (Platform.widen v)
  | .double v => shownNumber reread v

/-- A value that is not of the type of its node is not shown. -/
def shownValue (type : TagType) (value : ScalarValue) : Except String Json :=
  if holds type value then shownScalar reread value else .ok .null

/-- A time of the store, or what stands for it where there is none. -/
def shownTime (ms : TimestampMs) (clock : Option ℤ) : String :=
  timestamp rfc3339 (if 0 < ms then some ms else clock.map unixMs)

/-- The row of an entry of the store. -/
def entryRow (nodeId : String) (type : TagType) (tv : TagValue)
    (sourceClock serverClock : Option ℤ) : Except String LiveValue :=
  (shownValue reread type tv.value).map fun value => {
    nodeId := nodeId
    browseName := lastPart nodeId
    value := value
    quality := qualityText tv.quality
    sourceTimestamp := shownTime rfc3339 tv.sourceTs sourceClock
    serverTimestamp := shownTime rfc3339 tv.serverTs serverClock }

/-- A row that could be read, or the complaint about its line. -/
def rowEvent (now : String) : Except String LiveValue → MonitorEvent
  | .ok row => .value row
  | .error error => .diagnostic "error" ("Invalid sidecar output: " ++ error) now

end Shown

variable {rfc3339 : ℤ → Option String} {reread : Double → Except String Double}

omit [Platform] in
theorem shownQuality_statusName (quality : Quality) (reason : QualityReason) :
    shownQuality (statusName (qualityToStatus quality reason)) = qualityText quality := by
  cases quality <;> cases reason <;> decide

omit [Platform] in
theorem unixMs_msToUaDatetime {ms : ℤ} (h : 0 < ms) : unixMs (msToUaDatetime ms) = ms := by
  have hepoch : ¬ ms * 10000 + 116444736000000000 ≤ 116444736000000000 := by omega
  rw [msToUaDatetime, if_neg (Int.not_le.mpr h), unixMs, if_neg hepoch]
  omega

/-- The value of an entry, through the variant and the line of text. -/
theorem lineScalar_fillVariant (type : TagType) (value : ScalarValue) :
    lineScalar reread (((fillVariant type value).map scalarJson).getD .null) =
      shownValue reread type value := by
  cases type <;> cases value <;> rfl

omit [Platform] in
/-- A time of the store that is sent comes back, and else the clock does. -/
theorem shownTime_eq (ms : TimestampMs) (clock : Option ℤ) :
    timestamp rfc3339
        (((if 0 < ms then some (msToUaDatetime ms) else none).or clock).map unixMs) =
      shownTime rfc3339 ms clock := by
  unfold shownTime
  split
  · rename_i hms
    rw [Option.some_or, Option.map_some, unixMs_msToUaDatetime hms]
  · rw [Option.none_or]

theorem lineScalar_key {key : Json} (h : (subscriptionKey key).isSome) :
    lineScalar reread key = .ok key := by
  cases key with
  | string id => rfl
  | int n => rfl
  | null => cases h
  | bool v => cases h
  | float v => cases h
  | array items => cases h
  | object fields => cases h

theorem lineScalar_int (n : ℤ) : lineScalar reread (.int n) = .ok (.int n) := rfl

theorem lineScalar_string (text : String) : lineScalar reread (.string text) = .ok (.string text) :=
  rfl

/-- The row of a notification whose item has a string or an integer as its id. -/
theorem lineEvent_onDataChange (now : String) {item : Item} (value : UaDataValue)
    (hkey : (subscriptionKey item.externalId).isSome) :
    lineEvent rfc3339 now (line reread (onDataChange item value)) =
      rowEvent now ((lineScalar reread ((value.value.map scalarJson).getD .null)).map fun shown => {
        nodeId := item.nodeId
        browseName := lastPart item.nodeId
        value := shown
        quality := shownQuality (statusName value.status)
        sourceTimestamp := timestamp rfc3339 (value.sourceTimestamp.map unixMs)
        serverTimestamp := timestamp rfc3339 (value.serverTimestamp.map unixMs) }) := by
  obtain ⟨status, variant, source, server⟩ := value
  simp only [onDataChange, line, List.mapM_append, List.mapM_cons, lineScalar_key hkey,
    lineScalar_string, lineScalar_int]
  cases hshown : lineScalar reread ((variant.map scalarJson).getD .null) with
  | error error => rfl
  | ok shown =>
    cases source with
    | none =>
      cases server with
      | none => rfl
      | some server => rfl
    | some source =>
      cases server with
      | none => rfl
      | some server => rfl

theorem fillVariant_monostate (type : TagType) : fillVariant type .monostate = none := by
  cases type <;> rfl

/-- A tag without an entry reads as one that never had a value. -/
theorem dataSourceRead_eq (ctx : OpcUaNodeContext) (store : TagStore) :
    dataSourceRead ctx true store =
      let tv := (store.get ctx.tagId).getD {}
      { status := qualityToStatus tv.quality tv.reason
        value := fillVariant ctx.type tv.value
        sourceTimestamp := if 0 < tv.sourceTs then some (msToUaDatetime tv.sourceTs) else none
        serverTimestamp := if 0 < tv.serverTs then some (msToUaDatetime tv.serverTs) else none } := by
  unfold dataSourceRead
  cases store.get ctx.tagId with
  | none =>
    simp only [Option.getD_none, fillVariant_monostate]
    rfl
  | some tv =>
    have hvalue : (if tv.value ≠ .monostate then fillVariant ctx.type tv.value else none) =
        fillVariant ctx.type tv.value := by
      split
      · rfl
      · rename_i hnone
        rw [not_not.mp hnone, fillVariant_monostate]
    simp only [hvalue, Option.getD_some, true_and, gt_iff_lt]

/-- What the monitor is told of a tag becomes the row of its entry. -/
theorem stored_is_shown (now : String) {item : Item} (ctx : OpcUaNodeContext) (store : TagStore)
    (sourceClock serverClock : Option ℤ) (hkey : (subscriptionKey item.externalId).isSome) :
    lineEvent rfc3339 now (line reread
        (onDataChange item (sent sourceClock serverClock (dataSourceRead ctx true store)))) =
      rowEvent now (entryRow rfc3339 reread item.nodeId ctx.type ((store.get ctx.tagId).getD {})
        sourceClock serverClock) := by
  rw [lineEvent_onDataChange now _ hkey, dataSourceRead_eq]
  simp only [sent, lineScalar_fillVariant, shownQuality_statusName, shownTime_eq]
  rfl

end OpcServer.Studio
