import Mathlib.Data.Finset.Insert

/-! A depth-first walk over a graph that is asked for, node by node, and may be infinite.
All branches share one set of visited keys and one count of the nodes emitted, and a depth
bounds the nesting. A node that is met again is emitted again, but not asked again. -/

namespace DepthFirst

universe u v w

/-- Trees in a row. A leaf was not looked into; a branch was, and may be empty. -/
inductive Forest (ρ : Type u) where
  | nil
  | leaf (r : ρ) (rest : Forest ρ)
  | branch (r : ρ) (children rest : Forest ρ)
  deriving DecidableEq

namespace Forest

variable {ρ : Type u} {τ : Type v}

def map (f : ρ → τ) : Forest ρ → Forest τ
  | nil => nil
  | leaf r rest => leaf (f r) (rest.map f)
  | branch r children rest => branch (f r) (children.map f) (rest.map f)

/-- All nodes, before those below them. -/
def nodes : Forest ρ → List ρ
  | nil => []
  | leaf r rest => r :: rest.nodes
  | branch r children rest => r :: (children.nodes ++ rest.nodes)

def height : Forest ρ → ℕ
  | nil => 0
  | leaf _ rest => max 1 rest.height
  | branch _ children rest => max (children.height + 1) rest.height

theorem nodes_map (f : ρ → τ) (t : Forest ρ) : (t.map f).nodes = t.nodes.map f := by
  induction t with
  | nil => rfl
  | leaf r rest ih => rw [map, nodes, nodes, ih, List.map_cons]
  | branch r children rest ihc ih =>
    rw [map, nodes, nodes, ihc, ih, List.map_cons, List.map_append]

theorem height_map (f : ρ → τ) (t : Forest ρ) : (t.map f).height = t.height := by
  induction t with
  | nil => rfl
  | leaf r rest ih => rw [map, height, height, ih]
  | branch r children rest ihc ih => rw [map, height, height, ihc, ih]

end Forest

/-- What the branches share, with a log of the nodes asked. -/
structure State (ν : Type u) (κ : Type v) where
  count : ℕ := 0
  visited : Finset κ
  asked : List ν := []

namespace State
variable {ν : Type u} {κ : Type v} [DecidableEq κ]

def emit (s : State ν κ) : State ν κ := { s with count := s.count + 1 }

def visit (k : κ) (s : State ν κ) : State ν κ := { s with visited := insert k s.visited }

def ask (n : ν) (s : State ν κ) : State ν κ := { s with asked := s.asked ++ [n] }

end State

section Walk
variable {ν : Type u} {κ : Type v} {ρ : Type w} [DecidableEq κ] (limit : ℕ) (refs : ν → List ρ)
  (target : ρ → ν) (key : ν → κ) (opens : ρ → Bool)

/-- The loop over the references of a node. One that opens is entered if there is depth
left and its key is new. -/
def loop (deeper : Bool) (enter : ν → State ν κ → Forest ρ × State ν κ) :
    List ρ → State ν κ → Forest ρ × State ν κ
  | [], s => (.nil, s)
  | r :: rest, s =>
    if s.count < limit then
      if deeper && opens r && decide (key (target r) ∉ s.visited) then
        let (children, s) := enter (target r) (s.emit.visit (key (target r)))
        let (siblings, s) := loop deeper enter rest s
        (.branch r children siblings, s)
      else
        let (siblings, s) := loop deeper enter rest s.emit
        (.leaf r siblings, s)
    else (.nil, s)

/-- Ask a node for its references and walk over them with the depth given. -/
def walk : ℕ → ν → State ν κ → Forest ρ × State ν κ
  | 0, n, s => loop limit target key opens false (fun _ s => (.nil, s)) (refs n) (s.ask n)
  | d + 1, n, s => loop limit target key opens (decide (0 < d)) (walk d) (refs n) (s.ask n)

variable {limit refs target key opens}

/-- The induction over the references of one node: the list ends, or the limit ends it, or
the first reference is emitted without or with what is below it. -/
theorem loop_induction {deeper : Bool} {enter : ν → State ν κ → Forest ρ × State ν κ}
    {motive : List ρ → State ν κ → Forest ρ × State ν κ → Prop}
    (nil : ∀ s, motive [] s (.nil, s))
    (full : ∀ r rest s, limit ≤ s.count → motive (r :: rest) s (.nil, s))
    (leaf : ∀ r rest s out, s.count < limit →
      (deeper = true → opens r = true → key (target r) ∈ s.visited) →
      motive rest s.emit out → motive (r :: rest) s (.leaf r out.1, out.2))
    (branch : ∀ r rest s inner out, s.count < limit → deeper = true → opens r = true →
      key (target r) ∉ s.visited → inner = enter (target r) (s.emit.visit (key (target r))) →
      motive rest inner.2 out → motive (r :: rest) s (.branch r inner.1 out.1, out.2))
    (l : List ρ) (s : State ν κ) :
    motive l s (loop limit target key opens deeper enter l s) := by
  induction l generalizing s with
  | nil => exact nil s
  | cons r rest ih =>
    rw [loop]
    split_ifs with hcount henter
    · simp only [Bool.and_eq_true, decide_eq_true_eq] at henter
      exact branch r rest s _ _ hcount henter.1.1 henter.1.2 henter.2 rfl (ih _)
    · refine leaf r rest s _ hcount (fun hdeeper hopens => ?_) (ih _)
      by_contra hnew
      exact henter (by simp [hdeeper, hopens, hnew])
    · exact full r rest s (Nat.le_of_not_lt hcount)

/-! ### What a walk leaves behind -/

variable (limit refs key)

/-- The nodes `new` were asked on the way: each for a key that was not visited before, and
after its own emission. Short of the limit all their references were emitted. -/
structure Leaves (s : State ν κ) (out : Forest ρ × State ν κ) (new : List ν) : Prop where
  count : out.2.count = s.count + out.1.nodes.length
  asked : out.2.asked = s.asked ++ new
  visited : ∀ k, k ∈ out.2.visited ↔ k ∈ s.visited ∨ k ∈ new.map key
  nodup : (new.map key).Nodup
  fresh : ∀ n ∈ new, key n ∉ s.visited
  fewer : new.length ≤ out.1.nodes.length
  emitted : out.2.count < limit → ∀ n ∈ new, ∀ r ∈ refs n, r ∈ out.1.nodes

variable {limit refs key}

omit [DecidableEq κ] in
theorem Leaves.count_le {s : State ν κ} {out : Forest ρ × State ν κ} {new : List ν}
    (h : Leaves limit refs key s out new) : s.count ≤ out.2.count := by
  rw [h.count]
  exact Nat.le_add_right _ _

/-- The loop over some references, given what the walks that it enters leave behind. Short
of the limit it emits each reference. -/
theorem loop_leaves {deeper : Bool} {enter : ν → State ν κ → Forest ρ × State ν κ}
    (henter : deeper = true → ∀ n s, ∃ new, Leaves limit refs key (s.ask n) (enter n s) new ∧
      ((enter n s).2.count < limit → ∀ r ∈ refs n, r ∈ (enter n s).1.nodes))
    (l : List ρ) (s : State ν κ) :
    let out := loop limit target key opens deeper enter l s
    ∃ new, Leaves limit refs key s out new ∧
      (out.2.count < limit → ∀ r ∈ l, r ∈ out.1.nodes) := by
  refine loop_induction (motive := fun l s out => ∃ new, Leaves limit refs key s out new ∧
    (out.2.count < limit → ∀ r ∈ l, r ∈ out.1.nodes)) ?_ ?_ ?_ ?_ l s
  · intro s
    exact ⟨[], ⟨rfl, by simp, by simp, List.nodup_nil, by simp, by simp, by simp⟩, by simp⟩
  · intro r rest s hfull
    refine ⟨[], ⟨rfl, by simp, by simp, List.nodup_nil, by simp, by simp, by simp⟩, fun hlt => ?_⟩
    exact absurd hlt (Nat.not_lt.mpr hfull)
  · rintro r rest s out _ _ ⟨new, h, hall⟩
    refine ⟨new, ⟨?_, h.asked, h.visited, h.nodup, h.fresh, h.fewer.trans (Nat.le_succ _), ?_⟩, ?_⟩
    · rw [h.count, Forest.nodes, List.length_cons]
      simp only [State.emit]
      omega
    · intro hlt n hn r' hr'
      exact List.mem_cons_of_mem _ (h.emitted hlt n hn r' hr')
    · intro hlt r' hr'
      rcases List.mem_cons.mp hr' with rfl | hr'
      · exact List.mem_cons_self
      · exact List.mem_cons_of_mem _ (hall hlt r' hr')
  · rintro r rest s inner out _ hdeeper _ hnew rfl ⟨new, h, hall⟩
    obtain ⟨below, hb, hown⟩ := henter hdeeper (target r) (s.emit.visit (key (target r)))
    set inner := enter (target r) (s.emit.visit (key (target r)))
    have hle : inner.2.count ≤ out.2.count := h.count_le
    have hfreshBelow : ∀ n ∈ below, key n ≠ key (target r) ∧ key n ∉ s.visited := by
      intro n hn
      have := hb.fresh n hn
      simpa [State.ask, State.visit, State.emit] using this
    have hfreshNew : ∀ n ∈ new, key n ≠ key (target r) ∧ key n ∉ s.visited ∧
        key n ∉ below.map key := by
      intro n hn
      have := h.fresh n hn
      rw [hb.visited] at this
      simpa [State.ask, State.visit, State.emit, and_assoc] using this
    refine ⟨target r :: (below ++ new), ⟨?_, ?_, ?_, ?_, ?_, ?_, ?_⟩, ?_⟩
    · rw [h.count, hb.count, Forest.nodes, List.length_cons, List.length_append]
      simp only [State.emit, State.visit, State.ask]
      omega
    · rw [h.asked, hb.asked]
      simp [State.emit, State.visit, State.ask]
    · intro k
      rw [h.visited, hb.visited]
      simp only [State.emit, State.visit, State.ask, Finset.mem_insert, List.map_cons,
        List.map_append, List.mem_cons, List.mem_append]
      rw [or_assoc, or_assoc, or_left_comm]
    · rw [List.map_cons, List.map_append, List.nodup_cons, List.nodup_append]
      refine ⟨?_, hb.nodup, h.nodup, ?_⟩
      · rw [List.mem_append, List.mem_map, List.mem_map]
        rintro (⟨n, hn, heq⟩ | ⟨n, hn, heq⟩)
        · exact (hfreshBelow n hn).1 heq
        · exact (hfreshNew n hn).1 heq
      · rintro a ha b hb' rfl
        obtain ⟨n, hn, rfl⟩ := List.mem_map.mp hb'
        exact (hfreshNew n hn).2.2 ha
    · intro n hn
      rcases List.mem_cons.mp hn with rfl | hn
      · exact hnew
      · rcases List.mem_append.mp hn with hn | hn
        · exact (hfreshBelow n hn).2
        · exact (hfreshNew n hn).2.1
    · have hfewer := h.fewer
      have hfewerBelow := hb.fewer
      rw [Forest.nodes, List.length_cons, List.length_append, List.length_cons, List.length_append]
      omega
    · intro hlt n hn r' hr'
      rw [Forest.nodes, List.mem_cons, List.mem_append]
      rcases List.mem_cons.mp hn with rfl | hn
      · exact .inr (.inl (hown (hle.trans_lt hlt) r' hr'))
      · rcases List.mem_append.mp hn with hn | hn
        · exact .inr (.inl (hb.emitted (hle.trans_lt hlt) n hn r' hr'))
        · exact .inr (.inr (h.emitted hlt n hn r' hr'))
    · intro hlt r' hr'
      rw [Forest.nodes, List.mem_cons, List.mem_append]
      rcases List.mem_cons.mp hr' with rfl | hr'
      · exact .inl rfl
      · exact .inr (.inr (hall hlt r' hr'))

/-- A walk asks its node, then others with new keys; short of the limit it emits all the
references of each. -/
theorem walk_leaves (d : ℕ) (n : ν) (s : State ν κ) :
    let out := walk limit refs target key opens d n s
    ∃ new, Leaves limit refs key (s.ask n) out new ∧
      (out.2.count < limit → ∀ r ∈ refs n, r ∈ out.1.nodes) := by
  induction d generalizing n s with
  | zero => exact loop_leaves nofun (refs n) (s.ask n)
  | succ d ih => exact loop_leaves (fun _ => ih) (refs n) (s.ask n)

/-- With depth one nothing below the references is asked. -/
theorem asked_walk_one (n : ν) (s : State ν κ) :
    (walk limit refs target key opens 1 n s).2.asked = s.asked ++ [n] := by
  refine loop_induction (motive := fun _ s out => out.2.asked = s.asked) ?_ ?_ ?_ ?_ (refs n)
    (s.ask n)
  · exact fun _ => rfl
  · exact fun _ _ _ _ => rfl
  · exact fun _ _ _ _ _ _ ih => ih
  · intro r rest s inner out _ hdeeper
    exact absurd hdeeper (by decide)

/-! ### Bounds -/

theorem loop_count_le {deeper : Bool} {enter : ν → State ν κ → Forest ρ × State ν κ}
    (henter : ∀ n s, s.count ≤ limit → (enter n s).2.count ≤ limit) (l : List ρ) (s : State ν κ)
    (hs : s.count ≤ limit) :
    (loop limit target key opens deeper enter l s).2.count ≤ limit := by
  refine loop_induction (motive := fun _ s out => s.count ≤ limit → out.2.count ≤ limit)
    ?_ ?_ ?_ ?_ l s hs
  · exact fun _ h => h
  · exact fun _ _ _ _ h => h
  · intro r rest s out hlt _ ih _
    exact ih hlt
  · rintro r rest s inner out hlt - - - rfl ih -
    exact ih (henter _ _ hlt)

theorem walk_count_le (d : ℕ) (n : ν) (s : State ν κ) (hs : s.count ≤ limit) :
    (walk limit refs target key opens d n s).2.count ≤ limit := by
  induction d generalizing n s with
  | zero => exact loop_count_le (fun _ _ h => h) (refs n) (s.ask n) hs
  | succ d ih => exact loop_count_le ih (refs n) (s.ask n) hs

theorem loop_height_le {deeper : Bool} {enter : ν → State ν κ → Forest ρ × State ν κ} {d : ℕ}
    (henter : deeper = true → ∀ n s, (enter n s).1.height ≤ d) (l : List ρ) (s : State ν κ) :
    (loop limit target key opens deeper enter l s).1.height ≤ d + 1 := by
  refine loop_induction (motive := fun _ _ out => out.1.height ≤ d + 1) ?_ ?_ ?_ ?_ l s
  · exact fun _ => Nat.zero_le _
  · exact fun _ _ _ _ => Nat.zero_le _
  · intro r rest s out _ _ ih
    exact max_le (Nat.succ_le_succ (Nat.zero_le d)) ih
  · rintro r rest s inner out - hdeeper - - rfl ih
    exact max_le (Nat.succ_le_succ (henter hdeeper _ _)) ih

/-- The nesting is at most the depth. -/
theorem walk_height_le (d : ℕ) (n : ν) (s : State ν κ) :
    (walk limit refs target key opens (d + 1) n s).1.height ≤ d + 1 := by
  induction d generalizing n s with
  | zero => exact loop_height_le (fun h => absurd h (by decide)) (refs n) (s.ask n)
  | succ d ih => exact loop_height_le (fun _ => ih) (refs n) (s.ask n)

end Walk

end DepthFirst
