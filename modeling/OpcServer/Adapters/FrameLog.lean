import OpcServer.Adapters.FrameReplay
import OpcServer.Lib.TextStream

/-! The journal of frames as a text file. A frame is one line: time, endpoint, round
trip, exception code and error, separated by blanks, then the bytes sent and received
in hexadecimal, with a bar between them. Writer and reader are written separately; the
reader takes the five fields before the bytes as words. -/

namespace OpcServer.Adapters

open Domain TextStream

variable [Platform]

/-- How a stream prints a `double`, and reads one after the white space before it. -/
structure DoubleFormat where
  print : Double → Text
  read : Text → Option (Double × Text)

/-! ### Writing -/

section Hex
omit [Platform]

def hexByte (b : UInt8) : Text := [(b.toNat / 16).digitChar, (b.toNat % 16).digitChar]

def toHex : List UInt8 → Text
  | [] => []
  | b :: rest => hexByte b ++ rest.flatMap fun b => ' ' :: hexByte b

/-- An error text between quotes, which it cannot contain itself. -/
def quoted (message : String) : Text :=
  '"' :: message.toList.map (fun c => if c = '"' ∨ c = '\n' then '_' else c) ++ ['"']

/-- The line that a journal starts with. -/
def journalHeader : Text := "# ts_ms endpoint rtt_ms exception error tx_hex | rx_hex".toList

end Hex

def exceptionText (frame : FrameRecord) : Text :=
  match frame.exceptionCode with
  | some code => printInt code.toInt
  | none => ['-']

def errorText (frame : FrameRecord) : Text :=
  match frame.error with
  | some message => quoted message
  | none => ['-']

/-- The fields before the error. -/
def lineStart (format : DoubleFormat) (frame : FrameRecord) : Text :=
  printInt frame.tsMs.toInt ++ ' ' :: frame.endpointId.toList ++ ' ' :: format.print frame.rttMs ++
    ' ' :: exceptionText frame

def frameLine (format : DoubleFormat) (frame : FrameRecord) : Text :=
  lineStart format frame ++ ' ' :: (errorText frame ++ ' ' :: toHex frame.tx ++
    ' ' :: '|' :: ' ' :: toHex frame.rx)

/-- A journal file and whether it could be opened. -/
structure FileFrameLog where
  file : Text := []
  isOpen : Bool := false

/-- Opening appends the header to what the file has. -/
def FileFrameLog.open (opens : Bool) (file : Text) : FileFrameLog :=
  if opens then { file := file ++ journalHeader ++ ['\n'], isOpen := true } else { file := file }

def FileFrameLog.logFrame (format : DoubleFormat) (log : FileFrameLog) (frame : FrameRecord) :
    FileFrameLog :=
  if !log.isOpen then log
  else { log with file := log.file ++ frameLine format frame ++ ['\n'] }

/-! ### Reading -/

section Hex
omit [Platform]

def hexNibble (c : Char) : Option ℕ :=
  if '0' ≤ c ∧ c ≤ '9' then some (c.toNat - '0'.toNat)
  else if 'a' ≤ c ∧ c ≤ 'f' then some (c.toNat - 'a'.toNat + 10)
  else if 'A' ≤ c ∧ c ≤ 'F' then some (c.toNat - 'A'.toNat + 10)
  else none

def parseHexBytes : Text → Result (List UInt8)
  | [] => .ok []
  | [c] => if isSpace c then .ok [] else .error (replayErr .decoding "odd hex nibble")
  | c :: d :: text =>
    if isSpace c then parseHexBytes (d :: text)
    else
      match hexNibble c, hexNibble d with
      | some hi, some lo => (parseHexBytes text).map (UInt8.ofNat (hi * 16 + lo) :: ·)
      | _, _ => .error (replayErr .decoding "invalid hex byte")

/-- `std::stoi`; `none` stands for what it throws. -/
def stoi (text : Text) : Option Int32 :=
  (readInt (-2 ^ 31) (2 ^ 31 - 1) text).map fun (n, _) => Int32.ofInt n

def exceptionField (word : Text) : Result (Option Int32) :=
  if word = ['-'] then .ok none
  else
    match stoi word with
    | some code => .ok (some code)
    | none => .error (replayErr .decoding "bad exception code")

/-- The error text of a word: without its quotes, or without the one it starts with. -/
def errorField (word : Text) : Option String :=
  if word = ['-'] then none
  else
    match word with
    | '"' :: text =>
      if text.getLast? = some '"' then some (String.ofList text.dropLast)
      else some (String.ofList text)
    | _ => some (String.ofList word)

end Hex

/-- The fields read from the text before the bar: time, endpoint and round trip in a
record, the words of the exception and of the error, and the text after them. -/
def readFields (format : DoubleFormat) (text : Text) : Option (FrameRecord × Text × Text × Text) := do
  let (ts, text) ← readInt (-2 ^ 63) (2 ^ 63 - 1) text
  let (endpoint, text) ← readWord text
  let (rtt, text) ← format.read (skipSpace text)
  let (exception, text) ← readWord text
  let (error, text) ← readWord text
  return ({ tsMs := Int64.ofInt ts, endpointId := String.ofList endpoint, rttMs := rtt },
    exception, error, text)

/-- The frame of a line, from the text before the bar and the text after it. -/
def parseParts (format : DoubleFormat) (fields received : Text) : Result FrameRecord :=
  match readFields format fields with
  | none => .error (replayErr .decoding "bad frame log prefix")
  | some (frame, exception, error, text) => do
    let exceptionCode ← exceptionField exception
    let tx ← parseHexBytes (trim (text.takeWhile (· ≠ '\n')))
    let rx ← parseHexBytes (trim received)
    return { frame with exceptionCode := exceptionCode, error := errorField error, tx := tx, rx := rx }

def parseFrameLogLine (format : DoubleFormat) (line : Text) : Result FrameRecord :=
  let line := trim line
  if line = [] ∨ line.head? = some '#' then
    .error (replayErr .invalidArgument "comment or empty")
  else if '|' ∉ line then .error (replayErr .decoding "missing TX/RX separator")
  else parseParts format (line.takeWhile (· ≠ '|')) ((line.dropWhile (· ≠ '|')).drop 1)

/-- The frames of the lines; blank lines and comments are passed over, and a line that
cannot be read ends the reading. -/
def loadLines (format : DoubleFormat) : List Text → Result (List FrameRecord)
  | [] => .ok []
  | line :: rest =>
    let trimmed := trim line
    if trimmed = [] ∨ trimmed.head? = some '#' then loadLines format rest
    else
      match parseFrameLogLine format trimmed with
      | .error e => .error e
      | .ok frame => (loadLines format rest).map (frame :: ·)

/-- `none` is a file that cannot be opened. -/
def loadFrameLogFile (format : DoubleFormat) (path : String) (file : Option Text) :
    Result (List FrameRecord) :=
  match file with
  | none => .error (replayErr .notFound ("cannot open frame log: " ++ path))
  | some text => loadLines format (lines text)

end OpcServer.Adapters
