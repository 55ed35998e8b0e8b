import OpcServer.Monitor.Browse

/-! How far a browse comes. A node that has been looked into is not looked into again, even
where it is met with more depth left. -/

namespace OpcServer.Monitor

open Domain Project DepthFirst

section Reach
variable {NodeId : Type}

/-- The nodes that a node refers to. -/
def referred (service : NodeId → BrowseResponse NodeId) (n : NodeId) : List NodeId :=
  (service n).references.map Reference.nodeId

/-- The same between the texts that nodes go by, which for the start is the one typed. -/
def referredTexts (print : NodeId → String) (parse : String → Option NodeId) (start : NodeId)
    (service : NodeId → BrowseResponse NodeId) : String → List String :=
  links (fun n => (service n).references) Reference.nodeId print fun text => (parse text).getD start

/-- Every browse succeeds, and every node is a local object. -/
def LocalObjects (service : NodeId → BrowseResponse NodeId) : Prop :=
  ∀ n, (service n).status = 0 ∧ ∀ ref ∈ (service n).references,
    ref.serverIndex = 0 ∧ ref.namespaceUri = "" ∧ ref.nodeClass = .object

theorem LocalObjects.opensInto {service : NodeId → BrowseResponse NodeId}
    (h : LocalObjects service) (n : NodeId) : ∀ ref ∈ (service n).references,
      Monitor.opensInto ref = true := by
  intro ref href
  obtain ⟨hserver, huri, hclass⟩ := (h n).2 ref href
  simp [Monitor.opensInto, hserver, huri, hclass]

variable [Platform]

/-- A browse that stays below the limit shows every node within the depth, if the first of
the simple paths to a node that is to be looked into is never longer than another. -/
theorem browse_complete_of_first_shortest (print : NodeId → String)
    (parse : String → Option NodeId) (hprint : ∀ n, parse (print n) = some n) (command : Json)
    (text : String) (node : NodeId) (htext : command.string? "nodeId" = some text)
    (hparse : parse text = some node) (service : NodeId → BrowseResponse NodeId)
    (hlocal : LocalObjects service) (d : ℕ) (hd : maxDepth command = d)
    (hcount : (browse true print parse service command).event.children.nodes.length < 10000)
    (hfirst : FirstPathsShortest (referredTexts print parse node service) d text) :
    ∀ path w, follow (referred service) node path = some w → 1 ≤ path.length → path.length ≤ d →
      ∃ child ∈ (browse true print parse service command).event.children.nodes,
        child.nodeId = print w := by
  intro path w hpath hpos hle
  have hdpos : 0 < d := by
    have := maxDepth_pos command
    omega
  have hnode : ∀ n, (parse (print n)).getD node = n := by
    intro n
    rw [hprint]
    rfl
  have hstart : (parse text).getD node = node := by
    rw [hparse]
    rfl
  have hstatus : ¬ (service node).status ≠ 0 := not_not_intro (hlocal node).1
  have hchildren : (browse true print parse service command).event.children = _ :=
    (browse_eq htext hparse).2
  rw [if_neg hstatus, hd, Int.toNat_natCast] at hchildren
  rw [hchildren, Forest.nodes_map] at hcount ⊢
  rw [List.length_map] at hcount
  set out := browseChildren print service d node { visited := {text} } with hout
  obtain ⟨new, hleaves, -⟩ : ∃ new, Leaves nodeLimit (fun n => (service n).references) print _
      out new ∧ _ := walk_leaves d node { visited := {text} }
  have hbelow : out.2.count < nodeLimit := by
    have heq : out.2.count = 0 + out.1.nodes.length := hleaves.count
    rw [heq, Nat.zero_add]
    exact hcount
  have htexts : follow (referredTexts print parse node service) text path = some (print w) :=
    follow_links hnode hpath (List.ne_nil_of_length_pos hpos) hstart
  rw [← hstart] at hout
  obtain ⟨ref, href, hkey⟩ :=
    walk_reaches hnode hlocal.opensInto hdpos hfirst (hout ▸ hbelow) htexts hpos hle
  refine ⟨child print ref, List.mem_map_of_mem ?_, hkey⟩
  rw [hout]
  exact href

/-- With two levels the condition always holds. -/
example (print : NodeId → String) (parse : String → Option NodeId) (node : NodeId)
    (service : NodeId → BrowseResponse NodeId) (text : String) :
    FirstPathsShortest (referredTexts print parse node service) 2 text :=
  firstPathsShortest_of_le_two le_rfl

end Reach

/-! ### A node met too late -/

attribute [local instance] exactPlatform

/-- A server of local objects. -/
def objects (refs : ℕ → List ℕ) (n : ℕ) : BrowseResponse ℕ :=
  { results := [{ references := (refs n).map fun m => { nodeId := m } }] }

theorem localObjects_objects (refs : ℕ → List ℕ) : LocalObjects (objects refs) := by
  intro n
  refine ⟨rfl, fun ref href => ?_⟩
  have hrefs : (objects refs n).references = (refs n).map fun m => { nodeId := m } := by
    simp [BrowseResponse.references, BrowseResponse.status, objects]
  rw [hrefs] at href
  obtain ⟨m, -, rfl⟩ := List.mem_map.mp href
  exact ⟨rfl, rfl, rfl⟩

/-- Node 87 is met twice, the second time on a longer path. -/
def shared : ℕ → List ℕ
  | 85 => [87, 86]
  | 86 => [87]
  | 87 => [88]
  | 88 => [89]
  | _ => []

theorem shared_shortest :
    FirstPathsShortest (referredTexts printNumeric parseNumeric 85 (objects shared)) 3 "i=85" := by
  have hstart : referredTexts printNumeric parseNumeric 85 (objects shared) "i=85" =
      ["i=87", "i=86"] := by decide +kernel
  have hnext : referredTexts printNumeric parseNumeric 85 (objects shared) "i=87" = ["i=88"] := by
    decide +kernel
  apply firstPathsShortest_three
  intro i k hik u v hu hv
  rw [hstart] at hu ⊢
  match i, k with
  | _, k + 2 => exact fun h => nomatch h
  | 0, 1 =>
    obtain rfl := Option.some.inj hu
    rw [hnext, List.mem_singleton] at hv
    subst hv
    decide

/-- What is three references away by way of it is shown. -/
theorem shared_shown : ∃ child ∈ (browse true printNumeric parseNumeric (objects shared)
    (browseCommand "i=85" 3)).event.children.nodes, child.nodeId = "i=89" :=
  browse_complete_of_first_shortest printNumeric parseNumeric parse_printNumeric
    (browseCommand "i=85" 3) "i=85" 85 rfl (by decide) (objects shared)
    (localObjects_objects shared) 3 (by decide) (by decide +kernel) shared_shortest [0, 0, 0] 89
    (by decide) (by decide) (by decide)

def detour : ℕ → List ℕ
  | 0 => [1, 2]
  | 1 => [2]
  | 2 => [3]
  | 3 => [4]
  | _ => []

/-- Node 2 is looked into below node 1, where one level is left, and then not again. What
is three references away by way of it is missing. -/
theorem detour_cuts_short : LocalObjects (objects detour) ∧
    (browse true printNumeric parseNumeric (objects detour)
      (browseCommand "i=0" 3)).event.children.nodes.map Child.nodeId =
        ["i=1", "i=2", "i=3", "i=2"] ∧
    follow (referred (objects detour)) 0 [1, 0, 0] = some 4 ∧ printNumeric 4 = "i=4" :=
  ⟨localObjects_objects detour, by decide +kernel, by decide, by decide⟩

end OpcServer.Monitor
