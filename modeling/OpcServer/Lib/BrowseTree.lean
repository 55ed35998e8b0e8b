import Mathlib.Data.Set.Lattice
import Mathlib.Logic.Function.Basic

/-! Trees below a root that are given by a list of nodes, each with its own id, the id of
its parent and its browse name. What such a list describes is the set of browse paths
from the root with the kind of the node at the end. -/

namespace BrowseTree

inductive Kind (τ : Type*) where
  | folder
  | variable (attributes : τ)
  deriving DecidableEq

/-- A node without a parent is below the root. -/
structure Node (ι ν τ : Type*) where
  id : ι
  parent : Option ι
  name : ν
  kind : Kind τ
  deriving DecidableEq

variable {ι ν τ : Type*}

/-- The browse paths from the root to a place. -/
inductive Reaches (nodes : List (Node ι ν τ)) : Option ι → List ν → Prop where
  | root : Reaches nodes none []
  | child {n : Node ι ν τ} {path : List ν} : n ∈ nodes → Reaches nodes n.parent path →
      Reaches nodes (some n.id) (path ++ [n.name])

def tree (nodes : List (Node ι ν τ)) : Set (List ν × Kind τ) :=
  {e | ∃ n ∈ nodes, ∃ path, Reaches nodes n.parent path ∧ e = (path ++ [n.name], n.kind)}

/-- Every folder on a path. -/
def folders (path : List ν) : Set (List ν × Kind τ) :=
  {e | e.1 ≠ [] ∧ e.1 <+: path ∧ e.2 = .folder}

/-- A variable with the folders above it. -/
def branch (path : List ν) (attributes : τ) : Set (List ν × Kind τ) :=
  folders path.dropLast ∪ {(path, .variable attributes)}

/-- The path of a place when every node has a label. -/
def place (label : ι → List ν) (parent : Option ι) : List ν := parent.elim [] label

/-- Every parent exists, and the label of a node is that of its parent and its name. -/
structure Labels (nodes : List (Node ι ν τ)) (label : ι → List ν) : Prop where
  step : ∀ n ∈ nodes, label n.id = place label n.parent ++ [n.name]
  parent : ∀ n ∈ nodes, ∀ p ∈ n.parent, ∃ m ∈ nodes, m.id = p

/-- Only places that exist are reached. -/
theorem Reaches.exists_node {nodes : List (Node ι ν τ)} {id : ι} {path : List ν}
    (h : Reaches nodes (some id) path) : ∃ n ∈ nodes, n.id = id := by
  cases h with
  | child hn _ => exact ⟨_, hn, rfl⟩

/-! ### Folders -/

@[simp] theorem folders_nil : folders ([] : List ν) = (∅ : Set (List ν × Kind τ)) := by
  refine Set.eq_empty_of_forall_notMem fun e he => ?_
  exact he.1 (List.prefix_nil.mp he.2.1)

theorem folders_concat (path : List ν) (name : ν) :
    folders (path ++ [name]) = folders path ∪ {(path ++ [name], (.folder : Kind τ))} := by
  ext ⟨q, kind⟩
  simp only [folders, Set.mem_ofPred_eq, Set.mem_union, Set.mem_singleton_iff, Prod.mk.injEq,
    List.prefix_concat_iff]
  constructor
  · rintro ⟨hne, rfl | hq, hkind⟩
    · exact .inr ⟨rfl, hkind⟩
    · exact .inl ⟨hne, hq, hkind⟩
  · rintro (⟨hne, hq, hkind⟩ | ⟨rfl, hkind⟩)
    · exact ⟨hne, .inr hq, hkind⟩
    · exact ⟨by simp, .inl rfl, hkind⟩

theorem branch_concat (path : List ν) (name : ν) (attributes : τ) :
    branch (path ++ [name]) attributes =
      folders path ∪ {(path ++ [name], .variable attributes)} := by
  rw [branch, List.dropLast_concat]

/-! ### Labels -/

namespace Labels

variable {nodes : List (Node ι ν τ)} {label : ι → List ν}

theorem eq_place (h : Labels nodes label) {parent : Option ι} {path : List ν}
    (hreach : Reaches nodes parent path) : path = place label parent := by
  induction hreach with
  | root => rfl
  | child hn _ ih => rw [ih, ← h.step _ hn, place, Option.elim_some]

/-- The parent of a node has a shorter label, so that going up ends at the root. -/
theorem reaches (h : Labels nodes label) {n : Node ι ν τ} (hn : n ∈ nodes) :
    Reaches nodes n.parent (place label n.parent) := by
  induction hlen : (label n.id).length using Nat.strong_induction_on generalizing n with
  | _ k ih =>
    cases hparent : n.parent with
    | none => exact .root
    | some p =>
      obtain ⟨m, hm, rfl⟩ := h.parent n hn p hparent
      have hstep := h.step n hn
      rw [hparent] at hstep
      have hlt : (label m.id).length < k := by
        rw [← hlen, hstep, List.length_append, List.length_singleton]
        exact Nat.lt_succ_self _
      have hreach := Reaches.child hm (ih _ hlt hm rfl)
      rwa [← h.step m hm] at hreach

theorem tree_eq (h : Labels nodes label) :
    tree nodes = {e | ∃ n ∈ nodes, e = (label n.id, n.kind)} := by
  ext e
  constructor
  · rintro ⟨n, hn, path, hreach, rfl⟩
    refine ⟨n, hn, ?_⟩
    rw [h.eq_place hreach, h.step n hn]
  · rintro ⟨n, hn, rfl⟩
    refine ⟨n, hn, _, h.reaches hn, ?_⟩
    rw [h.step n hn]

variable [DecidableEq ι]

theorem update_apply {n : Node ι ν τ} (hid : ∀ m ∈ nodes, m.id ≠ n.id) (path : List ν)
    {m : Node ι ν τ} (hm : m ∈ nodes) : Function.update label n.id path m.id = label m.id :=
  Function.update_of_ne (hid m hm) _ _

theorem place_update {n : Node ι ν τ} (hid : ∀ m ∈ nodes, m.id ≠ n.id) (path : List ν)
    {parent : Option ι} (hparent : ∀ p ∈ parent, ∃ m ∈ nodes, m.id = p) :
    place (Function.update label n.id path) parent = place label parent := by
  cases parent with
  | none => rfl
  | some p =>
    obtain ⟨m, hm, rfl⟩ := hparent p rfl
    exact update_apply hid path hm

/-- A node with a new id below a place that exists. -/
theorem cons (h : Labels nodes label) {n : Node ι ν τ} (hid : ∀ m ∈ nodes, m.id ≠ n.id)
    (hparent : ∀ p ∈ n.parent, ∃ m ∈ nodes, m.id = p) :
    Labels (n :: nodes) (Function.update label n.id (place label n.parent ++ [n.name])) where
  step m hm := by
    rcases List.mem_cons.mp hm with rfl | hm
    · rw [Function.update_self, place_update hid _ hparent]
    · rw [update_apply hid _ hm, place_update hid _ (h.parent m hm), h.step m hm]
  parent m hm p hp := by
    have hold : ∃ m ∈ nodes, m.id = p := by
      rcases List.mem_cons.mp hm with rfl | hm
      · exact hparent p hp
      · exact h.parent m hm p hp
    obtain ⟨m', hm', heq⟩ := hold
    exact ⟨m', List.mem_cons_of_mem _ hm', heq⟩

theorem tree_cons (h : Labels nodes label) {n : Node ι ν τ} (hid : ∀ m ∈ nodes, m.id ≠ n.id)
    (hparent : ∀ p ∈ n.parent, ∃ m ∈ nodes, m.id = p) :
    tree (n :: nodes) = tree nodes ∪ {(place label n.parent ++ [n.name], n.kind)} := by
  rw [(h.cons hid hparent).tree_eq, h.tree_eq]
  ext e
  constructor
  · rintro ⟨m, hm, rfl⟩
    rcases List.mem_cons.mp hm with rfl | hm
    · exact .inr (by rw [Function.update_self]; rfl)
    · exact .inl ⟨m, hm, by rw [update_apply hid _ hm]⟩
  · rintro (⟨m, hm, rfl⟩ | rfl)
    · exact ⟨m, List.mem_cons_of_mem _ hm, by rw [update_apply hid _ hm]⟩
    · exact ⟨n, List.mem_cons_self, by rw [Function.update_self]⟩

end Labels

end BrowseTree
