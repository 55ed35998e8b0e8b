import OpcServer.Project.Types

/-! JSON documents and the field readers of the loader. A reader returns a value
together with the diagnostics it adds, in the order of the source; the value of a
field that is missing or of the wrong kind is the default of the C++ struct. -/

set_option linter.dupNamespace false

namespace OpcServer.Project

open Domain

/-- `get<int>` of a JSON integer: the value modulo `2 ^ 32`. -/
def toInt (n : ℤ) : ℤ := Int.bmod n (2 ^ 32)

def addError (path message : String) : List Diagnostic := [{ path := path, message := message }]

/-- A required field, its default and the message in its absence. -/
def required {α : Type} (value : Option α) (default : α) (path message : String) :
    α × List Diagnostic :=
  match value with
  | some v => (v, [])
  | none => (default, addError path message)

variable [Platform]

/-! ### Documents -/

inductive Json where
  | null
  | bool (v : Bool)
  | int (v : ℤ)
  | float (v : Double)
  | string (v : String)
  | array (items : List Json)
  | object (fields : List (String × Json))

namespace Json

/-- The value of a key of an object. -/
def get? (j : Json) (key : String) : Option Json :=
  match j with
  | .object fields => (fields.find? fun f => f.1 == key).map Prod.snd
  | _ => none

def isObject : Json → Bool
  | .object _ => true
  | _ => false

def asString : Json → Option String
  | .string v => some v
  | _ => none

def asInt : Json → Option ℤ
  | .int v => some (toInt v)
  | _ => none

def asBool : Json → Option Bool
  | .bool v => some v
  | _ => none

def asNumber : Json → Option Double
  | .int v => some (Platform.ofInt v)
  | .float v => some v
  | _ => none

def asArray : Json → Option (List Json)
  | .array items => some items
  | _ => none

def string? (j : Json) (key : String) : Option String := (j.get? key).bind asString

def int? (j : Json) (key : String) : Option ℤ := (j.get? key).bind asInt

def bool? (j : Json) (key : String) : Option Bool := (j.get? key).bind asBool

def number? (j : Json) (key : String) : Option Double := (j.get? key).bind asNumber

def array? (j : Json) (key : String) : Option (List Json) := (j.get? key).bind asArray

end Json

/-! ### Readers -/

def requiredString (j : Json) (path key : String) : String × List Diagnostic :=
  required (j.string? key) "" (path ++ "." ++ key) "required string"

def requiredInt (j : Json) (path key : String) (default : ℤ) : ℤ × List Diagnostic :=
  required (j.int? key) default (path ++ "." ++ key) "required integer"

def parseEnum {α : Type} (value : Json) (table : List (String × α)) (path : String) (fallback : α) :
    α × List Diagnostic :=
  match value with
  | .string s =>
    match table.find? fun e => e.1 == s with
    | some e => (e.2, [])
    | none => (fallback, addError path ("unknown enum value '" ++ s ++ "'"))
  | _ => (fallback, addError path "expected string enum")

def requiredEnum {α : Type} (j : Json) (table : List (String × α)) (path key : String)
    (fallback : α) : α × List Diagnostic :=
  match j.get? key with
  | none => (fallback, addError (path ++ "." ++ key) "required")
  | some value => parseEnum value table (path ++ "." ++ key) fallback

/-- Parse the items of an array in order; an item gives its values and diagnostics under
the path `base[i]`. -/
def each {α : Type} (parse : String → Json → List α × List Diagnostic) (base : String) :
    ℕ → List Json → List α × List Diagnostic
  | _, [] => ([], [])
  | i, item :: rest =>
    let (values, diags) := parse (base ++ "[" ++ toString i ++ "]") item
    let (values', diags') := each parse base (i + 1) rest
    (values ++ values', diags ++ diags')

end OpcServer.Project
