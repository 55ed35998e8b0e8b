import OpcServer.Lib.FirstPaths
import OpcServer.Lib.TextStream
import OpcServer.Project.Json
import Mathlib.Logic.Nontrivial.Defs

/-! The `browse` command of the monitor. The server it asks is any function from nodes to
responses, and node ids are any type that is printed to a text and parsed from one. -/

namespace OpcServer.Monitor

open Domain Project DepthFirst

/-- `UA_NodeClass`. -/
inductive NodeClass where
  | unspecified | object | variable | method | objectType | variableType | referenceType | dataType
  | view
  deriving DecidableEq

def nodeClassName : NodeClass → String
  | .object => "Object"
  | .variable => "Variable"
  | .method => "Method"
  | .objectType => "ObjectType"
  | .variableType => "VariableType"
  | .referenceType => "ReferenceType"
  | .dataType => "DataType"
  | .view => "View"
  | .unspecified => "Unspecified"

/-- `UA_ReferenceDescription`, as far as it is read. -/
structure Reference (NodeId : Type) where
  nodeId : NodeId
  serverIndex : UInt32 := 0
  namespaceUri : String := ""
  browseName : String := ""
  namespaceIndex : UInt16 := 0
  displayName : String := ""
  nodeClass : NodeClass := .object
  deriving DecidableEq

structure BrowseResult (NodeId : Type) where
  statusCode : UInt32 := 0
  references : List (Reference NodeId) := []

/-- `UA_BrowseResponse`. -/
structure BrowseResponse (NodeId : Type) where
  serviceResult : UInt32 := 0
  results : List (BrowseResult NodeId) := []

def badUnexpectedError : UInt32 := 0x80010000
def badNodeIdInvalid : UInt32 := 0x80330000
def badNotConnected : UInt32 := 0x808A0000
def badInvalidArgument : UInt32 := 0x80AB0000

section Browse
variable {NodeId : Type}

/-- The `result_status` of `browse_children`, zero for a response that it goes on with. -/
def BrowseResponse.status (response : BrowseResponse NodeId) : UInt32 :=
  if response.serviceResult ≠ 0 then response.serviceResult
  else
    match response.results with
    | [result] => result.statusCode
    | _ => badUnexpectedError

def BrowseResponse.references (response : BrowseResponse NodeId) : List (Reference NodeId) :=
  if response.status ≠ 0 then []
  else response.results.flatMap BrowseResult.references

/-- `can_recurse` apart from the depth. -/
def opensInto (ref : Reference NodeId) : Bool :=
  ref.serverIndex = 0 && ref.namespaceUri.isEmpty &&
    (ref.nodeClass = .object || ref.nodeClass = .view)

/-- A node of the `browseResult` event. -/
structure Child where
  nodeId : String
  browseName : String
  namespaceIndex : UInt16
  displayName : String
  nodeClass : String
  deriving DecidableEq

def child (print : NodeId → String) (ref : Reference NodeId) : Child where
  nodeId := print ref.nodeId
  browseName := ref.browseName
  namespaceIndex := ref.namespaceIndex
  displayName := ref.displayName
  nodeClass := nodeClassName ref.nodeClass

/-- The limit on `node_count`. -/
def nodeLimit : ℕ := 10000

/-- `browse_children`. A nested response with an error has no children, and its status is
dropped. -/
def browseChildren (print : NodeId → String) (service : NodeId → BrowseResponse NodeId) (depth : ℕ)
    (node : NodeId) (s : State NodeId String) : Forest (Reference NodeId) × State NodeId String :=
  walk nodeLimit (fun n => (service n).references) Reference.nodeId print opensInto depth node s

inductive Event where
  | error (message : String) (statusCode : UInt32)
  | browseResult (nodeId : String) (children : Forest Child)
  deriving DecidableEq

/-- The nodes of the event. -/
def Event.children : Event → Forest Child
  | error .. => .nil
  | browseResult _ children => children

variable [Platform]

/-- `std::clamp(get<int>(), 1, 16)`, or 1 when there is no integer. -/
def maxDepth (command : Json) : ℤ :=
  match command.int? "maxDepth" with
  | some depth => max 1 (min depth 16)
  | none => 1

/-- What a command emits, and the nodes that the server was asked for on the way. -/
structure Outcome (NodeId : Type) where
  event : Event
  requestId : Option Json
  asked : List NodeId := []

def browse (connected : Bool) (print : NodeId → String) (parse : String → Option NodeId)
    (service : NodeId → BrowseResponse NodeId) (command : Json) : Outcome NodeId :=
  let requestId := command.get? "requestId"
  if !connected then
    { event := .error "browse requires an active connection" badNotConnected, requestId }
  else
    match command.string? "nodeId" with
    | none => { event := .error "browse requires string nodeId" badInvalidArgument, requestId }
    | some input =>
      match parse input with
      | none => { event := .error ("invalid nodeId: " ++ input) badNodeIdInvalid, requestId }
      | some node =>
        let (children, s) :=
          browseChildren print service (maxDepth command).toNat node { visited := {input} }
        let status := (service node).status
        { event :=
            if status ≠ 0 then .error ("browse failed for " ++ input) status
            else .browseResult input (children.map (child print))
          requestId, asked := s.asked }

/-! ### Bounds -/

/-- The depth that a command asks for. -/
def requestedDepth (command : Json) : ℤ :=
  match command.get? "maxDepth" with
  | some (.int m) => m
  | _ => 1

theorem maxDepth_eq (command : Json) :
    maxDepth command = max 1 (min (toInt (requestedDepth command)) 16) := by
  have hone : (1 : ℤ) = max 1 (min (toInt 1) 16) := by decide
  unfold maxDepth requestedDepth Json.int?
  cases command.get? "maxDepth" with
  | none => exact hone
  | some value =>
    cases value with
    | int m => rfl
    | _ => exact hone

theorem maxDepth_pos (command : Json) : 1 ≤ maxDepth command := by
  rw [maxDepth_eq]
  exact le_max_left _ _

/-- The depth is more than asked for only when a negative number loses its upper bits. -/
theorem requestedDepth_le_zero {command : Json}
    (h : ¬ maxDepth command ≤ min (max (requestedDepth command) 1) 16) :
    requestedDepth command ≤ 0 ∧ 2 ≤ maxDepth command := by
  rw [maxDepth_eq] at h ⊢
  have hbmod : toInt (requestedDepth command) = Int.bmod (requestedDepth command) (2 ^ 32) := rfl
  have hsmall : 1 ≤ requestedDepth command → requestedDepth command < 16 →
      toInt (requestedDepth command) = requestedDepth command := by
    intro hlow hhigh
    rw [hbmod, Int.bmod_eq_of_le (by omega) (by omega)]
  by_cases hm : requestedDepth command ≤ 0
  · omega
  · by_cases hbig : requestedDepth command < 16
    · rw [hsmall (by omega) hbig] at h
      omega
    · omega

section Bounds
variable {print : NodeId → String} {parse : String → Option NodeId} {command : Json} {text : String}
  {node : NodeId} {service : NodeId → BrowseResponse NodeId}

/-- A browse of a node that can be named. -/
theorem browse_eq (htext : command.string? "nodeId" = some text) (hparse : parse text = some node) :
    let out := browseChildren print service (maxDepth command).toNat node { visited := {text} }
    (browse true print parse service command).asked = out.2.asked ∧
      (browse true print parse service command).event.children =
        if (service node).status ≠ 0 then .nil else out.1.map (child print) := by
  simp only [browse, htext, hparse, Bool.not_true, Bool.false_eq_true, if_false]
  refine ⟨trivial, ?_⟩
  split_ifs <;> rfl

/-- At most the limit of nodes, nested no deeper than asked for, and no node asked for
twice. -/
def Bounded (depth : ℤ) (out : Outcome NodeId) : Prop :=
  out.event.children.nodes.length ≤ nodeLimit ∧
    (out.event.children.height : ℤ) ≤ min (max depth 1) 16 ∧
    out.asked.Nodup ∧ out.asked.length ≤ nodeLimit + 1

/-- A server whose nodes all have one reference to the same object. -/
def onlyObject (a : NodeId) (_ : NodeId) : BrowseResponse NodeId :=
  { results := [{ references := [{ nodeId := a }] }] }

omit [Platform] in
theorem browseChildren_onlyObject {a : NodeId} (hnew : print a ≠ text) (k : ℕ) (node : NodeId) :
    browseChildren print (onlyObject a) (k + 2) node { visited := {text} } =
      (.branch { nodeId := a } (.leaf { nodeId := a } .nil) .nil,
        { count := 2, visited := {print a, text}, asked := [node, a] }) := by
  have hrefs : ∀ n, (onlyObject a n).references = [{ nodeId := a }] := fun _ => rfl
  simp only [browseChildren, walk, hrefs]
  simp [loop, State.ask, State.emit, State.visit, nodeLimit, opensInto, hnew]

theorem browse_onlyObject (htext : command.string? "nodeId" = some text)
    (hparse : parse text = some node) (htwo : 2 ≤ maxDepth command) {a : NodeId}
    (hnew : print a ≠ text) :
    (browse true print parse (onlyObject a) command).asked = [node, a] ∧
      (browse true print parse (onlyObject a) command).event.children.height = 2 := by
  obtain ⟨k, hk⟩ : ∃ k, (maxDepth command).toNat = k + 2 :=
    ⟨(maxDepth command).toNat - 2, by omega⟩
  have hstatus : ¬ (onlyObject a node).status ≠ 0 := not_not_intro rfl
  obtain ⟨hasked, hchildren⟩ := browse_eq htext hparse
  rw [hk, browseChildren_onlyObject hnew] at hasked hchildren
  rw [if_neg hstatus] at hchildren
  exact ⟨hasked, by rw [hchildren]; rfl⟩

/-- A text that is not printed for its node does not keep the node from being met again. -/
theorem asked_nodup (h : maxDepth command = 1 ∨ text = print node) :
    (browseChildren print service (maxDepth command).toNat node
      { visited := {text} }).2.asked.Nodup := by
  rcases h with hone | rfl
  · have hasked : (browseChildren print service 1 node { visited := {text} }).2.asked = [node] :=
      asked_walk_one node { visited := {text} }
    rw [hone]
    exact hasked ▸ List.nodup_singleton node
  · obtain ⟨new, hleaves, -⟩ : ∃ new, Leaves nodeLimit (fun n => (service n).references) print _
        (browseChildren print service (maxDepth command).toNat node { visited := {print node} })
        new ∧ _ := walk_leaves (maxDepth command).toNat node { visited := {print node} }
    rw [hleaves.asked]
    refine List.nodup_cons.mpr ⟨fun hmem => ?_, hleaves.nodup.of_map⟩
    exact hleaves.fresh node hmem (Finset.mem_singleton_self _)

theorem bounded_browse (htext : command.string? "nodeId" = some text)
    (hparse : parse text = some node) (hcanonical : maxDepth command = 1 ∨ text = print node)
    (hdepth : maxDepth command ≤ min (max (requestedDepth command) 1) 16) :
    Bounded (requestedDepth command) (browse true print parse service command) := by
  have hpos := maxDepth_pos command
  obtain ⟨k, hk⟩ : ∃ k, (maxDepth command).toNat = k + 1 :=
    ⟨(maxDepth command).toNat - 1, by omega⟩
  have hnodup : (browseChildren print service (maxDepth command).toNat node
      { visited := {text} }).2.asked.Nodup := asked_nodup hcanonical
  obtain ⟨hasked, hchildren⟩ := browse_eq htext hparse
  rw [hk] at hnodup hasked hchildren
  set out := browseChildren print service (k + 1) node { visited := {text} }
  have hcount : out.2.count ≤ nodeLimit := walk_count_le _ _ _ (Nat.zero_le _)
  have hheight : out.1.height ≤ k + 1 := walk_height_le k node _
  obtain ⟨new, hleaves, -⟩ : ∃ new, Leaves nodeLimit (fun n => (service n).references) print _
      out new ∧ _ := walk_leaves (k + 1) node { visited := {text} }
  have hlength : out.1.nodes.length ≤ nodeLimit := by
    have heq : out.2.count = 0 + out.1.nodes.length := hleaves.count
    omega
  have hrequests : out.2.asked.length ≤ nodeLimit + 1 := by
    have heq : out.2.asked = node :: new := hleaves.asked
    have hfewer := hleaves.fewer
    rw [heq, List.length_cons]
    omega
  refine ⟨?_, ?_, hasked ▸ hnodup, hasked ▸ hrequests⟩
  · rw [hchildren]
    split_ifs
    · exact Nat.zero_le _
    · rw [Forest.nodes_map, List.length_map]
      exact hlength
  · rw [hchildren]
    split_ifs
    · simp only [Forest.height]
      omega
    · rw [Forest.height_map]
      omega

/-- A browse is bounded, whatever the server answers, if and only if the text is the one
that its node is printed as, or no depth is left below it, and the depth is not more than
asked for. -/
theorem browse_bounded_iff [Nontrivial NodeId] (print : NodeId → String)
    (parse : String → Option NodeId) (hprint : ∀ n, parse (print n) = some n) (command : Json)
    (text : String) (node : NodeId) (htext : command.string? "nodeId" = some text)
    (hparse : parse text = some node) :
    (∀ service, Bounded (requestedDepth command) (browse true print parse service command)) ↔
      (maxDepth command = 1 ∨ text = print node) ∧
        maxDepth command ≤ min (max (requestedDepth command) 1) 16 := by
  constructor
  · intro hbounded
    by_contra hnot
    rw [not_and_or, not_or] at hnot
    rcases hnot with ⟨hdeep, hother⟩ | hwrapped
    · -- the node refers to itself
      have htwo : 2 ≤ maxDepth command := by
        have hpos := maxDepth_pos command
        omega
      have hnodup := (hbounded (onlyObject node)).2.2.1
      rw [(browse_onlyObject htext hparse htwo (Ne.symm hother)).1] at hnodup
      simp at hnodup
    · -- the node refers to another one, which refers to itself
      obtain ⟨hle, htwo⟩ := requestedDepth_le_zero hwrapped
      obtain ⟨a, ha⟩ := exists_ne node
      have hnew : print a ≠ text := by
        rintro rfl
        exact ha (Option.some.inj ((hprint a).symm.trans hparse))
      have hheight := (hbounded (onlyObject a)).2.1
      rw [(browse_onlyObject htext hparse htwo hnew).2] at hheight
      omega
  · rintro ⟨hcanonical, hdepth⟩ service
    exact bounded_browse htext hparse hcanonical hdepth

end Bounds

end Browse

/-! ### Two texts of one node -/

attribute [local instance] exactPlatform

/-- The print of a numeric id in the first namespace. -/
def printNumeric (n : ℕ) : String := String.ofList ('i' :: '=' :: Nat.toDigits 10 n)

def parseDigits (text : List Char) : Option ℕ :=
  match TextStream.readDigits text with
  | some (n, []) => some n
  | _ => none

/-- The namespace of an id may be left out when it is zero. -/
def parseNumeric (text : String) : Option ℕ :=
  match text.toList with
  | 'i' :: '=' :: digits => parseDigits digits
  | 'n' :: 's' :: '=' :: '0' :: ';' :: 'i' :: '=' :: digits => parseDigits digits
  | _ => none

theorem parse_printNumeric (n : ℕ) : parseNumeric (printNumeric n) = some n := by
  have hread : TextStream.readDigits (Nat.toDigits 10 n ++ []) = some (n, []) :=
    TextStream.readDigits_toDigits n (by simp)
  rw [List.append_nil] at hread
  rw [parseNumeric, printNumeric, String.toList_ofList]
  simp only [parseDigits, hread]

def browseCommand (nodeId : String) (depth : ℤ) : Json :=
  .object [("nodeId", .string nodeId), ("maxDepth", .int depth)]

theorem objects_bounded : printNumeric 85 = "i=85" ∧ ∀ service, Bounded 3
    (browse true printNumeric parseNumeric service (browseCommand "i=85" 3)) :=
  ⟨by decide, (browse_bounded_iff printNumeric parseNumeric parse_printNumeric
    (browseCommand "i=85" 3) "i=85" 85 rfl (by decide)).mpr ⟨.inr (by decide), by decide⟩⟩

/-- Named with its namespace the start is asked for again when a reference leads back to
it. A number that is out of range by far asks for more than one level. -/
theorem start_asked_twice :
    (browse true printNumeric parseNumeric (onlyObject 85) (browseCommand "ns=0;i=85" 2)).asked =
        [85, 85] ∧
      requestedDepth (browseCommand "i=85" (-4294967291)) = -4294967291 ∧
      (browse true printNumeric parseNumeric (onlyObject 86)
        (browseCommand "i=85" (-4294967291))).event.children.height = 2 := by
  decide +kernel

end OpcServer.Monitor
