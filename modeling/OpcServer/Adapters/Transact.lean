import OpcServer.Adapters.ModbusProtocol

/-! One Modbus transaction over TCP and over UDP, and the eight operations both
transports build on it. The socket is an input: what the peer's bytes are and how
a read or write ends. The TCP transport parses the header inline as it reads; the
UDP transport receives one datagram into a 260-byte buffer and hands it to
`unpackAdu`. -/

namespace OpcServer.Adapters

open Domain

/-- Bytes sent and received in a transaction, and what it returned; `none` is an
access outside the received bytes. -/
structure Transaction where
  tx : List UInt8 := []
  rx : List UInt8 := []
  result : Option (Result (List UInt8))

/-! ### TCP -/

structure TcpTransport where
  connected : Bool := false
  transactionId : UInt16 := 1
  deriving DecidableEq, Repr

/-- How an asio operation ends when it does not succeed. The deadline timer cancels
the socket, which ends the pending operation as `aborted`. -/
inductive IoError where
  | aborted
  | eof
  | other (message : String)
  deriving DecidableEq, Repr

def IoError.message : IoError → String
  | .aborted => "Operation aborted."
  | .eof => "End of file"
  | .other m => m

/-- The outcome of the request's write, the bytes that then arrive, and how a read
that runs out of them ends. -/
structure TcpIo where
  write : Option IoError := none
  bytes : List UInt8 := []
  ending : IoError := .eof

def makeErr (code : ErrorCode) (message : String) (retryable : Bool := true) : Error :=
  { code := code, message := message, component := "adapters.modbus_tcp", retryable := retryable }

def writeError : IoError → Error
  | .aborted => makeErr .timeout "operation timeout"
  | e => makeErr .connection ("send failed: " ++ e.message)

def readError : IoError → Error
  | .aborted => makeErr .timeout "operation timeout"
  | .eof => makeErr .connection "peer closed"
  | .other m => makeErr .connection ("recv failed: " ++ m)

/-- The read chain: six header bytes, then as many bytes as the header announces.
Nothing of the header but the length is looked at. -/
def tcpRespond (bytes : List UInt8) (ending : IoError) : List UInt8 × Result (List UInt8) :=
  match bytes with
  | b0 :: b1 :: b2 :: b3 :: b4 :: b5 :: rest =>
    let length := word b4 b5
    if length < 2 ∨ length > 254 then ([], .error (makeErr .decoding "bad MBAP length" false))
    else if rest.length < length.toNat then ([], .error (readError ending))
    else
      let body := rest.take length.toNat
      let rx := [b0, b1, b2, b3, b4, b5] ++ body
      match body with
      | _ :: function :: data =>
        if function &&& 0x80 ≠ 0 then
          let ex : ℤ := match data with
            | code :: _ => code.toNat
            | [] => -1
          (rx, .error (exceptionErr "adapters.modbus_tcp" ex))
        else (rx, .ok (function :: data))
      | _ => (rx, .error (makeErr .decoding "short PDU" false))
  | _ => ([], .error (readError ending))

/-- Connection errors and timeouts close the socket. -/
def disconnects {α : Type} (r : Result α) : Bool :=
  match r with
  | .error e => e.code = .connection ∨ e.code = .timeout
  | .ok _ => false

def TcpTransport.transact (t : TcpTransport) (io : TcpIo) (unit : UInt8) (pdu : List UInt8) :
    Transaction × TcpTransport :=
  if !t.connected then
    ({ result := some (.error (makeErr .connection "not connected")) }, t)
  else
    let tx := packMbap t.transactionId unit pdu
    let (rx, result) := match io.write with
      | some e => ([], .error (writeError e))
      | none => tcpRespond io.bytes io.ending
    ({ tx := tx, rx := rx, result := some result },
      { connected := !disconnects result, transactionId := t.transactionId + 1 })

/-! ### UDP -/

structure UdpTransport where
  isOpen : Bool := false
  transactionId : UInt16 := 1
  deriving DecidableEq, Repr

inductive Recv where
  | datagram (bytes : List UInt8)
  | timedOut
  | failed
  deriving DecidableEq, Repr

structure UdpIo where
  sendOk : Bool := true
  recv : Recv

def udpErr (code : ErrorCode) (message : String) (retryable : Bool := true) : Error :=
  { code := code, message := message, component := "adapters.modbus_udp", retryable := retryable }

/-- What one datagram answers to the request with transaction id `tid`. -/
def udpRespond (tid : UInt16) (bytes : List UInt8) : Option (Result (List UInt8)) :=
  match unpackAdu bytes with
  | none => none
  | some (.error e) => some (.error e)
  | some (.ok unpacked) =>
    if unpacked.transactionId ≠ tid then
      some (.error (udpErr .decoding "transaction id mismatch" false))
    else some (.ok unpacked.pdu)

def UdpTransport.transact (t : UdpTransport) (io : UdpIo) (unit : UInt8) (pdu : List UInt8) :
    Transaction × UdpTransport :=
  if !t.isOpen then
    ({ result := some (.error (udpErr .connection "not connected")) }, t)
  else
    let tx := packMbap t.transactionId unit pdu
    let t' := { t with transactionId := t.transactionId + 1 }
    if !io.sendOk then
      ({ tx := tx, result := some (.error (udpErr .connection "send failed")) }, t')
    else
      match io.recv with
      | .timedOut => ({ tx := tx, result := some (.error (udpErr .timeout "recv timeout")) }, t')
      | .failed => ({ tx := tx, result := some (.error (udpErr .connection "recv failed")) }, t')
      | .datagram bytes =>
        -- a datagram longer than the buffer is cut off by `recv`
        let rx := bytes.take 260
        ({ tx := tx, rx := rx, result := udpRespond t.transactionId rx }, t')

/-! ### Operations -/

/-- The transact call of a transport, in the circumstances of one operation. -/
abbrev ModbusTransact := UInt8 → List UInt8 → Option (Result (List UInt8))

/-- Build a PDU, transact, decode. -/
def exchange {α : Type} (tx : ModbusTransact) (unit : UInt8) (pdu : Result (List UInt8))
    (decode : List UInt8 → Option (Result α)) : Option (Result α) :=
  match pdu with
  | .error e => some (.error e)
  | .ok pdu =>
    match tx unit pdu with
    | none => none
    | some (.error e) => some (.error e)
    | some (.ok resp) => decode resp

def modbusReadRegisters (tx : ModbusTransact) (function unit : UInt8) (address quantity : UInt16) :
    Option (Result (List UInt16)) :=
  exchange tx unit (.ok (makeReadRegistersPdu function address quantity))
    (fun resp => decodeRegisterResponse resp quantity)

def modbusReadBits (tx : ModbusTransact) (function unit : UInt8) (address quantity : UInt16) :
    Option (Result (List Bool)) :=
  exchange tx unit (.ok (makeReadBitsPdu function address quantity))
    (fun resp => decodeBitsResponse resp quantity)

/-- Write operations discard the response PDU. -/
def discard (_ : List UInt8) : Option (Result Unit) := some (.ok ())

def modbusWriteSingleRegister (tx : ModbusTransact) (unit : UInt8) (address value : UInt16) :
    Option (Result Unit) :=
  exchange tx unit (.ok (makeWriteSingleRegisterPdu address value)) discard

def modbusWriteMultipleRegisters (tx : ModbusTransact) (unit : UInt8) (address : UInt16)
    (values : List UInt16) : Option (Result Unit) :=
  exchange tx unit (.ok (makeWriteMultipleRegistersPdu address values)) discard

def modbusWriteSingleCoil (tx : ModbusTransact) (unit : UInt8) (address : UInt16) (value : Bool) :
    Option (Result Unit) :=
  exchange tx unit (.ok (makeWriteSingleCoilPdu address value)) discard

def modbusWriteMultipleCoils (tx : ModbusTransact) (unit : UInt8) (address : UInt16)
    (values : List UInt8) : Option (Result Unit) :=
  exchange tx unit (makeWriteMultipleCoilsPdu address values) discard

/-- The read and write methods of a transport. -/
inductive Operation where
  | readHoldingRegisters (address quantity : UInt16)
  | readInputRegisters (address quantity : UInt16)
  | readCoils (address quantity : UInt16)
  | readDiscreteInputs (address quantity : UInt16)
  | writeSingleRegister (address value : UInt16)
  | writeMultipleRegisters (address : UInt16) (values : List UInt16)
  | writeSingleCoil (address : UInt16) (value : Bool)
  | writeMultipleCoils (address : UInt16) (values : List UInt8)
  deriving DecidableEq, Repr

inductive Reply where
  | registers (values : List UInt16)
  | bits (values : List Bool)
  | written
  deriving DecidableEq, Repr

/-- Both transports implement the methods by these calls. -/
def Operation.perform (tx : ModbusTransact) (unit : UInt8) : Operation → Option (Result Reply)
  | .readHoldingRegisters a q => (modbusReadRegisters tx 0x03 unit a q).map (Except.map .registers)
  | .readInputRegisters a q => (modbusReadRegisters tx 0x04 unit a q).map (Except.map .registers)
  | .readCoils a q => (modbusReadBits tx 0x01 unit a q).map (Except.map .bits)
  | .readDiscreteInputs a q => (modbusReadBits tx 0x02 unit a q).map (Except.map .bits)
  | .writeSingleRegister a v =>
    (modbusWriteSingleRegister tx unit a v).map (Except.map fun _ => .written)
  | .writeMultipleRegisters a vs =>
    (modbusWriteMultipleRegisters tx unit a vs).map (Except.map fun _ => .written)
  | .writeSingleCoil a v => (modbusWriteSingleCoil tx unit a v).map (Except.map fun _ => .written)
  | .writeMultipleCoils a vs =>
    (modbusWriteMultipleCoils tx unit a vs).map (Except.map fun _ => .written)

end OpcServer.Adapters
