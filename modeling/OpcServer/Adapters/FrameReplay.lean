import OpcServer.Adapters.DecodeBounds
import OpcServer.Adapters.Transact
import OpcServer.Core.Dispatcher

/-! Frame records, and the transport that plays them back without field I/O. An
operation takes the next record and decodes its received bytes with copies of the
decoders of the live transports. As in the wire format, `none` is an access outside
the bytes. -/

namespace OpcServer.Adapters

open Domain

variable [Platform]

/-- One journalled transaction. -/
structure FrameRecord where
  tsMs : Int64 := 0
  endpointId : String := ""
  tx : List UInt8 := []
  rx : List UInt8 := []
  exceptionCode : Option Int32 := none
  rttMs : Double := Platform.ofInt 0
  error : Option String := none
  deriving DecidableEq

/-- Where the PDU starts: after the canonical header, or after one with the unit twice. -/
def pduOffset (rx : List UInt8) (length : UInt16) : Option ℕ :=
  if rx.length = 7 + length.toNat ∧ length ≥ 2 then some 8
  else if rx.length ≠ 6 + length.toNat then none
  else some 7

def pduFromRx (frame : FrameRecord) : Option (Result (List UInt8)) :=
  match frame.error with
  | some message => some (.error (replayErr .connection message true))
  | none =>
    match frame.exceptionCode with
    | some code => some (.error { replayErr .modbusException "modbus exception" true with
        protocolStatus := some code.toInt })
    | none =>
      if frame.rx.length < 8 then some (.error (replayErr .decoding "short replay RX"))
      else do
        let length := word (← frame.rx[4]?) (← frame.rx[5]?)
        match pduOffset frame.rx length with
        | none => return .error (replayErr .decoding "RX length mismatch")
        | some offset =>
          if frame.rx.length ≤ offset then return .error (replayErr .decoding "short replay PDU")
          else return .ok (frame.rx.drop offset)

/-! ### The transport -/

/-- The frames from the next one on. -/
structure ReplayModbusTransport where
  frames : List FrameRecord := []
  connected : Bool := false
  deriving DecidableEq

namespace ReplayModbusTransport

def connect (t : ReplayModbusTransport) : ReplayModbusTransport := { t with connected := true }

def consume (t : ReplayModbusTransport) : Result FrameRecord × ReplayModbusTransport :=
  if !t.connected then (.error (replayErr .connection "not connected" true), t)
  else
    match t.frames with
    | [] => (.error (replayErr .notFound "replay exhausted"), t)
    | frame :: rest => (.ok frame, { t with frames := rest })

def nextPdu (t : ReplayModbusTransport) :
    Option (Result (List UInt8)) × ReplayModbusTransport :=
  match t.consume with
  | (.error e, t) => (some (.error e), t)
  | (.ok frame, t) => (pduFromRx frame, t)

/-- Take the next PDU and decode it. -/
def decodeNext {α : Type} (decode : List UInt8 → Option (Result α)) (t : ReplayModbusTransport) :
    Option (Result α) × ReplayModbusTransport :=
  match t.nextPdu with
  | (none, t) => (none, t)
  | (some (.error e), t) => (some (.error e), t)
  | (some (.ok pdu), t) => (decode pdu, t)

/-- Input registers are read as holding registers, whatever the address. -/
def readHoldingRegisters (quantity : UInt16) (t : ReplayModbusTransport) :
    Option (Result (List UInt16)) × ReplayModbusTransport :=
  t.decodeNext fun pdu => decodeRegisters pdu quantity

def readCoils (quantity : UInt16) (t : ReplayModbusTransport) :
    Option (Result (List Bool)) × ReplayModbusTransport :=
  t.decodeNext fun pdu => decodeBits pdu quantity

/-- All four writes take a PDU and look no further. -/
def writeAny (t : ReplayModbusTransport) : Option (Result Unit) × ReplayModbusTransport :=
  t.decodeNext discard

/-- The operations of the port over a replay. -/
def perform (op : Operation) (t : ReplayModbusTransport) :
    Option (Result Reply) × ReplayModbusTransport :=
  match op with
  | .readHoldingRegisters _ q | .readInputRegisters _ q =>
    (t.readHoldingRegisters q).map (Option.map (Except.map .registers)) id
  | .readCoils _ q | .readDiscreteInputs _ q =>
    (t.readCoils q).map (Option.map (Except.map .bits)) id
  | .writeSingleRegister _ _ | .writeMultipleRegisters _ _ | .writeSingleCoil _ _
  | .writeMultipleCoils _ _ => t.writeAny.map (Option.map (Except.map fun _ => .written)) id

/-- A replay as the transport of an endpoint. A read outside the PDU, which the source
leaves undefined, is an internal error here. -/
def port : Core.IModbusTransport ReplayModbusTransport where
  isConnected t := t.connected
  connect _ _ t := (.ok (), t.connect)
  readRegisters request t :=
    match request with
    | .readHoldingRegisters _ _ q | .readInputRegisters _ _ q =>
      (t.readHoldingRegisters q).map (·.getD (.error {})) id
  readBits request t :=
    match request with
    | .readCoils _ _ q | .readDiscreteInputs _ _ q => (t.readCoils q).map (·.getD (.error {})) id
  write _ t := t.writeAny.map (·.getD (.error {})) id

end ReplayModbusTransport

end OpcServer.Adapters
