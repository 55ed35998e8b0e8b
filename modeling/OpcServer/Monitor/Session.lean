import OpcServer.Monitor.Browse
import Mathlib.Data.List.Nodup

/-! The monitor's client: its session with a server, the items that it watches, and the
commands and ticks that drive it. What the client library answers is chosen with each
command or tick; in every call to it that waits, the library may notify the client of changes
to the items that it has on its books. An item is known to the library by its address, here
the number of its creation; the sampling interval, which only the library reads, is left out.
Time is read from a steady clock, in milliseconds. -/

namespace OpcServer.Monitor

open Domain Project

def badSecurityChecksFailed : UInt32 := 0x80130000
def badNotSupported : UInt32 := 0x803D0000
def badNotFound : UInt32 := 0x803E0000
def badEntryExists : UInt32 := 0x809F0000

/-- `kReconnectDelay`. -/
def reconnectDelay : ℕ := 2000

section Types
variable [Platform] (NodeId V : Type)

inductive SessionEvent where
  | connection (state endpoint : String) (status : UInt32) (requestId : Option Json)
  | error (message : String) (status : UInt32) (requestId : Option Json)
  | dataChange (subscriptionId : Json) (nodeId : String) (value : V)
  | browsed (event : Event) (requestId : Option Json)

/-- A watched item; the number tells one allocation from another. -/
structure Item where
  serial : ℕ
  externalId : Json
  nodeId : String
  monitoredItemId : ℕ := 0

/-- What the client and its library know of the connection, the subscription and the items:
below the members of the client, the items that the library would notify, with their ids; how
many items were made; and whether a notification ever met an item that was gone. -/
structure Books where
  connected : Bool := false
  serverSubscriptionId : ℕ := 0
  items : List (String × Item) := []
  registered : List (ℕ × ℕ) := []
  serials : ℕ := 0
  dangling : Bool := false

/-- The client. Below its members: the clock; what was emitted; and when the connection was
lost or the client tried, by itself, to have it back (`true`), the latest first. -/
structure Session extends Books where
  endpoint : String := ""
  securityMode : String := "None"
  securityPolicy : String := "None"
  certificatePath : String := ""
  privateKeyPath : String := ""
  userCertificatePath : String := ""
  userPrivateKeyPath : String := ""
  username : String := ""
  password : String := ""
  securityOk : Bool := true
  wantConnected : Bool := false
  reconnectAt : ℕ := 0
  clock : ℕ := 0
  events : List (SessionEvent V) := []
  marks : List (Bool × ℕ) := []

/-- A service of the library: its status, the id it gives, and the notifications that come
in while it waits. -/
structure Answer where
  status : UInt32 := 0
  id : ℕ := 0
  notified : List (ℕ × V) := []

/-- What the library answers to the calls of one command or tick, how long it takes, and the
order in which the unordered map of the items is gone through: `released` are notifications
while the old client object is deleted, `made` says whether there is a new one. A file is
read whole, and has bytes or not; a read that breaks off, as of a directory, is `none`. -/
structure Answers where
  before : ℕ := 0
  during : ℕ := 0
  released : List (ℕ × V) := []
  made : Bool := true
  security : Option (String × UInt32) := none
  file : String → Option Bool := fun _ => some true
  authentication : UInt32 := 0
  authenticationName : String := ""
  connect : UInt32 := 0
  disconnect : Answer V := {}
  subscription : Answer V := {}
  order : List (String × Item) → List (String × Item) := id
  item : ℕ → Answer V
  delete : Answer V := {}
  deleteSubscription : Answer V := {}
  browsed : List (ℕ × V) := []
  browse : NodeId → BrowseResponse NodeId := fun _ => {}
  iterate : Answer V := {}
  activated : Bool := true
  connectionStatus : UInt32 := 0

end Types

section Session
variable [Platform] {NodeId V : Type}

/-- `value(key, default)` of an object for a text: another kind of value is an exception. -/
def textValue (command : Json) (key default : String) : Option String :=
  match command.get? key with
  | none => some default
  | some (.string v) => some v
  | some _ => none

/-- The key of an item; another kind of id is an exception. -/
def subscriptionKey : Json → Option String
  | .string id => some ("s:" ++ id)
  | .int n => some (if 0 ≤ n then "u:" ++ toString n else "i:" ++ toString n)
  | _ => none

def forgetIds (items : List (String × Item)) : List (String × Item) :=
  items.map fun p => (p.1, { p.2 with monitoredItemId := 0 })

namespace Session

/-! ### Events -/

def emit (e : SessionEvent V) (s : Session V) : Session V := { s with events := s.events ++ [e] }

def requestId (command : Option Json) : Option Json := command.bind (·.get? "requestId")

def emitError (message : String) (status : UInt32) (command : Option Json) (s : Session V) :
    Session V := s.emit (.error message status (requestId command))

def emitConnection (state : String) (status : UInt32) (command : Option Json) (s : Session V) :
    Session V := s.emit (.connection state s.endpoint status (requestId command))

/-- `on_data_change`, called by the library for an item on its books. -/
def notify (s : Session V) (n : ℕ × V) : Session V :=
  if s.registered.any fun r => r.1 == n.1 then
    match s.items.find? fun p => p.2.serial == n.1 with
    | some p => s.emit (.dataChange p.2.externalId p.2.nodeId n.2)
    | none => { s with dangling := true }
  else s

def deliver (notified : List (ℕ × V)) (s : Session V) : Session V := notified.foldl notify s

/-! ### Services -/

def createServerSubscription (a : Answer V) (s : Session V) : Bool × Session V :=
  let s := s.deliver a.notified
  if a.status ≠ 0 then (false, s.emitError "create OPC UA subscription failed" a.status none)
  else (true, { s with serverSubscriptionId := a.id })

/-- The id under which the library now watches an item. -/
def createMonitoredItem (parse : String → Option NodeId) (a : Answer V) (item : Item)
    (s : Session V) : Option ℕ × Session V :=
  if (parse item.nodeId).isNone then
    (none, s.emitError ("invalid nodeId: " ++ item.nodeId) badNodeIdInvalid none)
  else
    let s := s.deliver a.notified
    if a.status ≠ 0 then
      (none, s.emitError ("create monitored item failed for " ++ item.nodeId) a.status none)
    else (some a.id, { s with registered := (item.serial, a.id) :: s.registered })

def setMonitored (key : String) (id : ℕ) (s : Session V) : Session V :=
  { s with items := s.items.map fun p =>
      if p.1 = key then (p.1, { p.2 with monitoredItemId := id }) else p }

/-- The loop over the items of a new connection. -/
def monitorAll (parse : String → Option NodeId) (answer : ℕ → Answer V) :
    List (String × Item) → Session V → Session V
  | [], s => s
  | p :: rest, s =>
    match createMonitoredItem parse (answer p.2.serial) p.2 s with
    | (some id, s) => monitorAll parse answer rest (s.setMonitored p.1 id)
    | (none, s) => monitorAll parse answer rest s

/-- The items that there are, on a new connection. -/
def monitorItems (parse : String → Option NodeId) (a : Answers NodeId V) (s : Session V) : Session V :=
  if s.items.isEmpty then s
  else
    match s.createServerSubscription a.subscription with
    | (false, s) => s
    | (true, s) => monitorAll parse a.item (a.order s.items) s

/-! ### Connecting -/

/-- `apply_security`; `none` stands for an exception that leaves the function. -/
def applySecurity (a : Answers NodeId V) (s : Session V) : Option (Session V) :=
  if s.securityMode = "None" ∨ s.securityMode = "" then some s
  else if (s.certificatePath ≠ "" ∧ s.privateKeyPath ≠ "") ∧
      ((a.file s.certificatePath).isNone ∨ (a.file s.privateKeyPath).isNone) then none
  else
    match a.security with
    | none => some s
    | some (message, status) => some { s.emitError message status none with securityOk := false }

/-- A new client object of the library in place of the old one. -/
def resetClient (a : Answers NodeId V) (s : Session V) : Option (Session V) :=
  let s := s.deliver a.released
  if !a.made then none
  else { s with registered := [], securityOk := true }.applySecurity a

def disconnected (status : UInt32) (command : Option Json) (s : Session V) : Session V :=
  { s with connected := false }.emitConnection "disconnected" status command

/-- The identity of the user and the connection: a status, and a message when it fails
before the server is called. -/
def authenticate (a : Answers NodeId V) (s : Session V) : Option (Option String × UInt32) :=
  if s.userCertificatePath ≠ "" ∨ s.userPrivateKeyPath ≠ "" then
    if s.userCertificatePath = "" ∨ s.userPrivateKeyPath = "" then
      some (some "userCertificate and userPrivateKey are both required for X509IdentityToken",
        badInvalidArgument)
    else do
      let certificate ← a.file s.userCertificatePath
      let key ← a.file s.userPrivateKeyPath
      if !certificate || !key then
        return (some "failed to read user identity certificate/key", badInvalidArgument)
      else if a.authentication ≠ 0 then
        return (some ("failed to set X509IdentityToken: " ++ a.authenticationName),
          a.authentication)
      else return (none, a.connect)
  else some (none, a.connect)

def establish (parse : String → Option NodeId) (a : Answers NodeId V) (command : Option Json)
    (s : Session V) : Option (Session V) :=
  if !s.securityOk then some (s.disconnected badSecurityChecksFailed command)
  else
    match s.authenticate a with
    | none => none
    | some (some message, status) =>
      some ((s.emitError message status command).disconnected status command)
    | some (none, status) =>
      if status ≠ 0 then some (s.disconnected status command)
      else
        some (monitorItems parse a
          ({ s with connected := true, reconnectAt := 0 }.emitConnection "connected" 0 command))

def close (a : Answers NodeId V) (notify : Bool) (command : Option Json) (s : Session V) : Session V :=
  let s := { s with wantConnected := false }
  let s := if s.connected then s.deliver a.disconnect.notified else s
  let s := { s with connected := false, serverSubscriptionId := 0, items := forgetIds s.items }
  if notify && s.endpoint ≠ "" then s.emitConnection "disconnected" 0 command else s

def advance (n : ℕ) (s : Session V) : Session V := { s with clock := s.clock + n }

/-- The connection is gone, or did not come about: wait before the next attempt. -/
def backOff (s : Session V) : Session V :=
  { s with reconnectAt := s.clock + reconnectDelay, marks := (false, s.clock) :: s.marks }

/-- `reset_client` and `establish`, and the wait when there is no connection then. -/
def attempt (parse : String → Option NodeId) (a : Answers NodeId V) (command : Option Json)
    (s : Session V) : Option (Session V) := do
  let s ← s.resetClient a
  let s ← s.establish parse a command
  let s := s.advance a.during
  return if s.connected then s else s.backOff

/-! ### Commands -/

def connect (parse : String → Option NodeId) (a : Answers NodeId V) (command : Json)
    (s : Session V) : Option (Session V) :=
  match command.string? "endpoint" with
  | none => some (s.emitError "connect requires string endpoint" badInvalidArgument (some command))
  | some endpoint => do
    let s := s.close a false none
    let securityMode ← textValue command "securityMode" "None"
    let securityPolicy ← textValue command "securityPolicy" "None"
    let certificatePath ← textValue command "certificate" ""
    let privateKeyPath ← textValue command "privateKey" ""
    let userCertificatePath ← textValue command "userCertificate" ""
    let userPrivateKeyPath ← textValue command "userPrivateKey" ""
    let s := { s with
      endpoint, securityMode, securityPolicy, certificatePath, privateKeyPath, userCertificatePath,
      userPrivateKeyPath
      username := (command.string? "username").getD ""
      password := (command.string? "password").getD ""
      wantConnected := true }
    s.attempt parse a (some command)

def subscribe (parse : String → Option NodeId) (a : Answers NodeId V) (command : Json)
    (s : Session V) : Session V :=
  if !s.connected then
    s.emitError "subscribe requires an active connection" badNotConnected (some command)
  else
    match command.string? "nodeId", command.get? "subscriptionId" with
    | some nodeId, some externalId =>
      match subscriptionKey externalId with
      | none =>
        s.emitError "subscriptionId must be a string or integer" badInvalidArgument (some command)
      | some key =>
        if s.items.any fun p => p.1 == key then
          s.emitError "subscriptionId already exists" badEntryExists (some command)
        else
          let (ok, s) :=
            if s.serverSubscriptionId = 0 then s.createServerSubscription a.subscription
            else (true, s)
          if !ok then s
          else
            let item : Item := { serial := s.serials, externalId, nodeId }
            let s := { s with serials := s.serials + 1 }
            match s.createMonitoredItem parse (a.item item.serial) item with
            | (none, s) => s
            | (some id, s) =>
              { s with items := s.items ++ [(key, { item with monitoredItemId := id })] }
    | _, _ =>
      s.emitError "subscribe requires nodeId and subscriptionId" badInvalidArgument (some command)

/-- The item leaves the map, and the last one takes the subscription with it. -/
def removeItem (a : Answers NodeId V) (key : String) (s : Session V) : Session V :=
  let s := { s with items := s.items.filter fun p => p.1 ≠ key }
  if s.items.isEmpty && s.connected && s.serverSubscriptionId ≠ 0 then
    { s.deliver a.deleteSubscription.notified with serverSubscriptionId := 0 }
  else s

def unsubscribe (a : Answers NodeId V) (command : Json) (s : Session V) : Session V :=
  match command.get? "subscriptionId" with
  | none => s.emitError "unsubscribe requires subscriptionId" badInvalidArgument (some command)
  | some externalId =>
    match subscriptionKey externalId with
    | none => s.emitError "subscriptionId must be a string or integer" badInvalidArgument (some command)
    | some key =>
      match s.items.find? fun p => p.1 == key with
      | none => s.emitError "subscriptionId not found" badNotFound (some command)
      | some (_, item) =>
        if s.connected && item.monitoredItemId ≠ 0 then
          let s := s.deliver a.delete.notified
          if a.delete.status ≠ 0 then s.emitError "unsubscribe failed" a.delete.status (some command)
          else
            { s with registered := s.registered.filter fun r => r.2 ≠ item.monitoredItemId }.removeItem
              a key
        else s.removeItem a key

def browse (print : NodeId → String) (parse : String → Option NodeId) (a : Answers NodeId V)
    (command : Json) (s : Session V) : Session V :=
  let outcome := Monitor.browse s.connected print parse a.browse command
  let s := if outcome.asked.isEmpty then s else s.deliver a.browsed
  s.emit (.browsed outcome.event outcome.requestId)

def dispatch (print : NodeId → String) (parse : String → Option NodeId) (a : Answers NodeId V)
    (command : Json) (s : Session V) : Option (Session V) :=
  match command.string? "command" with
  | none =>
    some (s.emitError "JSON object with string command is required" badInvalidArgument (some command))
  | some name =>
    if name = "connect" then s.connect parse a command
    else if name = "browse" then some (s.browse print parse a command)
    else if name = "subscribe" then some (s.subscribe parse a command)
    else if name = "unsubscribe" then some (s.unsubscribe a command)
    else if name = "disconnect" ∨ name = "shutdown" then some (s.close a true (some command))
    else some (s.emitError ("unknown command: " ++ name) badNotSupported (some command))

/-- One turn of the client: the library works on an open connection, or the client tries to
have it back. -/
def tick (parse : String → Option NodeId) (a : Answers NodeId V) (s : Session V) :
    Option (Session V) :=
  if s.connected then
    let s := (s.deliver a.iterate.notified).advance a.during
    if a.iterate.status ≠ 0 ∨ !a.activated then
      { s with connected := false, serverSubscriptionId := 0, items := forgetIds s.items }
        |>.emitConnection "disconnected"
          (if a.iterate.status ≠ 0 then a.iterate.status else a.connectionStatus) none
        |>.backOff |> some
    else some s
  else if s.wantConnected && s.reconnectAt ≤ s.clock then
    let s := s.emitConnection "reconnecting" 0 none
    { s with marks := (true, s.clock) :: s.marks }.attempt parse a none
  else some s

end Session

/-! ### Runs -/

inductive SessionAction (NodeId V : Type) where
  | command (command : Json) (answers : Answers NodeId V)
  | tick (answers : Answers NodeId V)
  | shutdown (answers : Answers NodeId V)

def SessionAction.answers : SessionAction NodeId V → Answers NodeId V
  | .command _ a | .tick a | .shutdown a => a

/-- Some time passes, then the client acts. -/
def sessionStep (print : NodeId → String) (parse : String → Option NodeId)
    (action : SessionAction NodeId V) (s : Session V) : Option (Session V) :=
  let s := s.advance action.answers.before
  match action with
  | .command command a => s.dispatch print parse a command
  | .tick a => s.tick parse a
  | .shutdown a => some (s.close a false none)

end Session

end OpcServer.Monitor
