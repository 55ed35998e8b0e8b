import OpcServer.Lib.TextStream
import OpcServer.Project.Load

/-! The import of a register map from CSV text. A field is a list of characters until it
is trimmed; what the import throws is the text of its error. `std::stod` is a
parameter, with the text that it leaves behind the number. -/

set_option linter.dupNamespace false

namespace OpcServer.Project

open Domain TextStream

structure ImportCsvOptions where
  projectName : String := "csv-import"
  deviceId : String := "csv-device"
  endpointId : String := "csv-endpoint"
  unitId : ℤ := 1
  group : String := "csv-imported"
  host : String := "127.0.0.1"
  port : UInt16 := 502

/-! ### Lines and fields -/

def stripUtf8Bom (text : Text) : Text := if text.head? = some '\uFEFF' then text.tail else text

/-- The loop of `parse_csv_line`, with the field read so far. -/
def scanCsvLine : Bool → Text → Text → Except String (List Text)
  | true, current, '"' :: '"' :: rest => scanCsvLine true (current ++ ['"']) rest
  | true, current, '"' :: rest => scanCsvLine false current rest
  | true, current, c :: rest => scanCsvLine true (current ++ [c]) rest
  | true, _, [] => .error "CSV: unterminated quoted field"
  | false, current, c :: rest =>
    if c = '"' then scanCsvLine true current rest
    else if c = ',' then (scanCsvLine false [] rest).map (current :: ·)
    else if c = '\r' then scanCsvLine false current rest
    else scanCsvLine false (current ++ [c]) rest
  | false, current, [] => .ok [current]

def parseCsvLine (line : Text) : Except String (List Text) := scanCsvLine false [] line

def trimmed (text : Text) : String := String.ofList (trim text)

/-- A carriage return before the newline is not part of the line. -/
def dropReturn (line : Text) : Text := if line.getLast? = some '\r' then line.dropLast else line

/-- Blank lines and comments. -/
def isSkipped (line : Text) : Bool := (trim line).isEmpty || (trim line).head? = some '#'

/-- The columns of the header with their places; of several with one name the last. -/
def headerColumns (fields : List Text) : List (String × ℕ) :=
  (fields.zipIdx.filterMap fun (f, i) =>
    if trimmed f = "" then none else some (trimmed f, i)).reverse

theorem headerColumns_concat (fields : List Text) (last : Text) :
    headerColumns (fields ++ [last]) =
      (if trimmed last = "" then [] else [(trimmed last, fields.length)]) ++
        headerColumns fields := by
  rw [headerColumns, List.zipIdx_append, List.filterMap_append, List.reverse_append]
  congr 1
  by_cases hlast : trimmed last = ""
  · simp [hlast]
  · simp [hlast]

/-- A column is found by the last of the headers that have its name, white space around it
apart. -/
theorem lookup_headerColumns (fields : List Text) {name : String} (hname : name ≠ "") (i : ℕ) :
    (headerColumns fields).lookup name = some i ↔
      fields[i]?.map trimmed = some name ∧ ∀ j, i < j → fields[j]?.map trimmed ≠ some name := by
  induction fields using List.reverseRecOn with
  | nil => simp [headerColumns]
  | append_singleton fields last ih =>
    rw [headerColumns_concat, List.lookup_append]
    by_cases hlast : trimmed last = name
    · subst hlast
      rw [if_neg hname, List.lookup_cons_self, Option.some_or, Option.some_inj]
      constructor
      · rintro rfl
        refine ⟨by simp, fun j hj => ?_⟩
        rw [List.getElem?_eq_none (by rw [List.length_append]; exact hj)]
        exact fun h => nomatch h
      · rintro ⟨hi, hlater⟩
        obtain ⟨f, hf, -⟩ := Option.map_eq_some_iff.mp hi
        have hlt := (List.getElem?_eq_some_iff.mp hf).1
        rw [List.length_append, List.length_singleton] at hlt
        by_contra hne
        exact hlater fields.length (by omega) (by simp)
    · have hsame : ∀ j : ℕ, (fields ++ [last])[j]?.map trimmed = some name ↔
          fields[j]?.map trimmed = some name := by
        intro j
        rcases lt_trichotomy j fields.length with hj | rfl | hj
        · rw [List.getElem?_append_left hj]
        · simp [hlast]
        · rw [List.getElem?_eq_none (by rw [List.length_append]; exact hj),
            List.getElem?_eq_none hj.le]
      have hskip : (if trimmed last = "" then [] else [(trimmed last, fields.length)]).lookup name =
          none := by
        split
        · rfl
        · rw [List.lookup_cons, beq_false_of_ne (Ne.symm hlast)]
          rfl
      rw [hskip, Option.none_or, ih, hsame]
      simp only [ne_eq, hsame]
def requiredColumns : List String :=
  ["name", "area", "address", "type", "byteOrder", "scale", "offset", "unit", "writable"]

def field (row : List Text) (cols : List (String × ℕ)) (name : String) (required : Bool) :
    Except String Text :=
  match cols.lookup name with
  | none => if required then .error ("CSV: missing required column '" ++ name ++ "'") else .ok []
  | some i => .ok (row[i]?.getD [])

def ensure (condition : Bool) (what : String) : Except String Unit :=
  if condition then .ok () else .error what

/-! ### Values -/

def trueWords : List String := ["true", "TRUE", "True", "1", "yes", "YES"]

def falseWords : List String := ["false", "FALSE", "False", "0", "no", "NO", ""]

def parseBool (raw : Text) (column : String) : Except String Bool :=
  let v := trimmed raw
  if trueWords.contains v then .ok true
  else if falseWords.contains v then .ok false
  else .error ("CSV: invalid boolean in '" ++ column ++ "': " ++ v)

/-- A C++ integer that takes up the whole text. -/
def wholeInt (text : Text) : Option ℤ :=
  match readInt (-2 ^ 31) (2 ^ 31 - 1) text with
  | some (n, []) => some n
  | _ => none

def parseInt (raw : Text) (column : String) : Except String ℤ :=
  match wholeInt (trim raw) with
  | some n => .ok n
  | none => .error ("CSV: invalid integer in '" ++ column ++ "': " ++ trimmed raw)

def parseQuantity (raw : Text) : Except String (Option ℤ) :=
  if trim raw = [] then .ok none else (parseInt raw "quantity").map some

section Import
variable [Platform] (stod : Text → Option (Double × Text))

/-- A number that takes up the whole text. -/
def wholeDouble? (text : Text) : Option Double :=
  match stod text with
  | some (d, []) => some d
  | _ => none

def parseDouble (raw : Text) (column : String) : Except String Double :=
  if trim raw = [] then .ok (Platform.ofInt 0)
  else
    match wholeDouble? stod (trim raw) with
    | some d => .ok d
    | none => .error ("CSV: invalid number in '" ++ column ++ "': " ++ trimmed raw)

def parseScale (raw : Text) : Except String Double :=
  if trim raw = [] then .ok (Platform.ofInt 1) else parseDouble stod raw "scale"

/-! ### Rows -/

/-- What a row says of a tag. -/
structure CsvTag where
  name : String
  area : String
  type : String
  byteOrder : String
  address : ℤ
  writable : Bool
  nodePath : String
  scale : Double
  offset : Double
  unit : String
  group : String
  description : String
  quantity : Option ℤ
  deriving DecidableEq

def optionalField (key value : String) : List (String × Json) :=
  if value = "" then [] else [(key, .string value)]

def quantityField : Option ℤ → List (String × Json)
  | some q => [("quantity", .int q)]
  | none => []

def CsvTag.toJson (tag : CsvTag) : Json := .object
  ([("address", .int tag.address), ("area", .string tag.area)] ++
    optionalField "byteOrder" tag.byteOrder ++ optionalField "description" tag.description ++
    optionalField "group" tag.group ++
    [("name", .string tag.name), ("nodePath", .string tag.nodePath),
      ("offset", .float tag.offset)] ++
    quantityField tag.quantity ++
    [("scale", .float tag.scale), ("type", .string tag.type)] ++
    optionalField "unit" tag.unit ++ [("writable", .bool tag.writable)])

def kAreas : List String := ["holding", "input", "coil", "discrete"]

def kTypes : List String := ["bool", "uint16", "int16", "uint32", "int32", "float32", "float64"]

def kByteOrders : List String := ["", "ABCD", "CDAB", "BADC", "DCBA", "AB", "BA"]

/-- `tag_json_from_row`, before the tag is written as JSON. -/
def tagFromRow (row : List Text) (cols : List (String × ℕ)) (options : ImportCsvOptions) :
    Except String CsvTag := do
  let name := trimmed (← field row cols "name" true)
  ensure (name ≠ "") "CSV: tag name is required"
  let area := trimmed (← field row cols "area" true)
  ensure (kAreas.contains area) ("CSV: unknown area '" ++ area ++ "' for tag '" ++ name ++ "'")
  let type := trimmed (← field row cols "type" true)
  ensure (kTypes.contains type) ("CSV: unknown type '" ++ type ++ "' for tag '" ++ name ++ "'")
  let byteOrder := trimmed (← field row cols "byteOrder" true)
  ensure (kByteOrders.contains byteOrder)
    ("CSV: invalid byteOrder '" ++ byteOrder ++ "' for tag '" ++ name ++ "'")
  let address ← parseInt (← field row cols "address" true) "address"
  let writable ← parseBool (← field row cols "writable" true) "writable"
  let nodePath := trimmed (← field row cols "nodePath" false)
  let scale ← parseScale stod (← field row cols "scale" true)
  let offset ← parseDouble stod (← field row cols "offset" true) "offset"
  let unit := trimmed (← field row cols "unit" true)
  let group := trimmed (← field row cols "group" false)
  let description := trimmed (← field row cols "description" false)
  let quantity ← parseQuantity (← field row cols "quantity" false)
  return {
    name, area, type, byteOrder, address, writable, scale, offset, unit, description, quantity
    nodePath := if nodePath = "" then "Plant/" ++ name else nodePath
    group := if group = "" then options.group else group }

/-! ### The text -/

/-- What the loop over the lines carries along; there are columns once there was a header. -/
structure CsvState where
  cols : Option (List (String × ℕ)) := none
  tags : List CsvTag := []
  names : List String := []
  rowNo : ℕ := 0

def readHeader (fields : List Text) : Except String (List (String × ℕ)) :=
  let cols := headerColumns fields
  match requiredColumns.find? fun name => (cols.lookup name).isNone with
  | some name => .error ("CSV: missing required header column '" ++ name ++ "'")
  | none => .ok cols

def readRow (row : List Text) (cols : List (String × ℕ)) (options : ImportCsvOptions)
    (names : List String) : Except String CsvTag := do
  let tag ← tagFromRow stod row cols options
  ensure (!names.contains tag.name) ("duplicate tag name '" ++ tag.name ++ "'")
  return tag

def importLine (options : ImportCsvOptions) (s : CsvState) (next : Text) :
    Except String CsvState :=
  let s := { s with rowNo := s.rowNo + 1 }
  let line := dropReturn next
  if isSkipped line then .ok s
  else
    match parseCsvLine line with
    | .error what => .error what
    | .ok fields =>
      match s.cols with
      | none => (readHeader fields).map fun cols => { s with cols := some cols }
      | some cols =>
        match readRow stod fields cols options s.names with
        | .error what => .error ("CSV row " ++ toString s.rowNo ++ ": " ++ what)
        | .ok tag => .ok { s with tags := s.tags ++ [tag], names := tag.name :: s.names }

def csvEndpoint (options : ImportCsvOptions) : Json := .object
  [("connectTimeoutMs", .int 3000), ("host", .string options.host),
    ("id", .string options.endpointId), ("port", .int options.port.toNat),
    ("reconnectDelayMs", .int 2000), ("responseTimeoutMs", .int 1000),
    ("transport", .string "tcp")]

def csvDevice (options : ImportCsvOptions) (tags : List CsvTag) : Json := .object
  [("description", .string "Imported from CSV"), ("endpointId", .string options.endpointId),
    ("id", .string options.deviceId), ("tags", .array (tags.map CsvTag.toJson)),
    ("unitId", .int options.unitId)]

def csvGroup (options : ImportCsvOptions) (tags : List CsvTag) : Json := .object
  [("deviceId", .string options.deviceId), ("id", .string options.group),
    ("periodMs", .int 1000), ("priority", .string "normal"),
    ("tagNames", .array ((tags.map CsvTag.name).map Json.string))]

def csvProject (options : ImportCsvOptions) (tags : List CsvTag) : Json := .object
  [("addressBase", .int 0),
    ("description", .string
      "Imported from CSV register map. TODO: set endpoints host/port and poll periods."),
    ("deviceProfiles", .array []), ("devices", .array [csvDevice options tags]),
    ("endpoints", .array [csvEndpoint options]), ("name", .string options.projectName),
    ("opcua", .object [("applicationName", .string "OPC_SERVER CSV Import"),
      ("endpointUrl", .string "opc.tcp://0.0.0.0:4840"),
      ("namespaceUri", .string "urn:opc-server:csv-import"), ("securityMode", .string "None"),
      ("securityPolicy", .string "None")]),
    ("pollGroups", .array [csvGroup options tags]), ("schemaVersion", .int 1)]

def importCsvText (csv : Text) (options : ImportCsvOptions) : Except String Json := do
  ensure (!(options.unitId < 0 || options.unitId > 255)) "import-csv: unit-id must be in [0, 255]"
  ensure (!(options.deviceId = "" || options.endpointId = ""))
    "import-csv: device-id and endpoint-id must be non-empty"
  let s ← (lines (stripUtf8Bom csv)).foldlM (importLine stod options) {}
  ensure s.cols.isSome "CSV: missing header row"
  ensure (!s.tags.isEmpty) "CSV: no data rows"
  return csvProject options s.tags

end Import

end OpcServer.Project
