import OpcServer.Lib.DepthFirst
import Mathlib.Data.List.Induction
import Mathlib.Data.List.Lex

/-! Which nodes a depth-first walk reaches. A path is the list of the places of its
references, and paths are ordered as words: the walk meets them in this order. It enters a
node by the first of the simple paths to it, and everything within its depth as long as
these first paths are shortest ones. -/

namespace DepthFirst

universe u v w

/-! ### Words -/

section Words
variable {a b p : List ℕ} {i : ℕ}

theorem lt_append_cons (p : List ℕ) (i : ℕ) (t : List ℕ) : p < p ++ i :: t := by
  have h : p ++ [] < p ++ i :: t := List.append_left_lt (List.nil_lt_cons i t)
  rwa [List.append_nil] at h

theorem le_append (p t : List ℕ) : p ≤ p ++ t := by
  cases t with
  | nil => rw [List.append_nil]
  | cons i t => exact (lt_append_cons p i t).le

theorem append_singleton_lt {i j : ℕ} (h : i < j) (p t : List ℕ) : p ++ i :: t < p ++ [j] :=
  List.append_left_lt (List.cons_lt_cons_iff.mpr (.inl h))

/-- Words that part stay in their order, whatever follows. -/
theorem append_lt_append (h : a < b) (hpart : ¬ a <+: b) (x y : List ℕ) : a ++ x < b ++ y := by
  induction a generalizing b with
  | nil => exact absurd List.nil_prefix hpart
  | cons c a ih =>
    cases b with
    | nil => exact absurd h (List.not_lt_nil _)
    | cons e b =>
      rw [List.cons_append, List.cons_append, List.cons_lt_cons_iff]
      rcases List.cons_lt_cons_iff.mp h with hlt | ⟨rfl, hlt⟩
      · exact .inl hlt
      · refine .inr ⟨rfl, ih hlt fun hbegin => hpart ?_⟩
        exact List.cons_prefix_cons.mpr ⟨rfl, hbegin⟩

/-- What is before the next place is before this one or begins with it. -/
theorem lt_or_prefix_of_lt_succ (h : a < p ++ [i + 1]) : a < p ++ [i] ∨ p ++ [i] <+: a := by
  induction p generalizing a with
  | nil =>
    cases a with
    | nil => exact .inl (List.nil_lt_cons i [])
    | cons c a =>
      rcases List.cons_lt_cons_iff.mp h with hlt | ⟨-, hlt⟩
      · rcases Nat.lt_succ_iff_lt_or_eq.mp hlt with hlt | rfl
        · exact .inl (List.cons_lt_cons_iff.mpr (.inl hlt))
        · exact .inr (List.cons_prefix_cons.mpr ⟨rfl, List.nil_prefix⟩)
      · exact absurd hlt (List.not_lt_nil _)
  | cons e p ih =>
    cases a with
    | nil => exact .inl (List.nil_lt_cons _ _)
    | cons c a =>
      rcases List.cons_lt_cons_iff.mp h with hlt | ⟨rfl, hlt⟩
      · exact .inl (List.cons_lt_cons_iff.mpr (.inl hlt))
      · rcases ih hlt with hlt | hbegin
        · exact .inl (List.cons_lt_cons_iff.mpr (.inr ⟨rfl, hlt⟩))
        · exact .inr (List.cons_prefix_cons.mpr ⟨rfl, hbegin⟩)

/-- There is nothing between a word and its first continuation. -/
theorem le_of_lt_append_zero (h : a < p ++ [0]) : a ≤ p := by
  by_contra hnot
  have hlt := not_le.mp hnot
  by_cases hbegin : p <+: a
  · obtain ⟨t, rfl⟩ := hbegin
    cases t with
    | nil => exact hnot (List.append_nil p).le
    | cons m t =>
      rcases Nat.eq_zero_or_pos m with rfl | hpos
      · have hle : p ++ [0] ≤ p ++ [0] ++ t := le_append _ t
        rw [List.append_assoc] at hle
        exact absurd h (not_lt_of_ge hle)
      · have hgt : p ++ [0] < p ++ [m] ++ t :=
          (append_singleton_lt hpos p []).trans_le (le_append _ t)
        rw [List.append_assoc] at hgt
        exact absurd h hgt.asymm
  · have hgt := append_lt_append hlt hbegin [0] []
    rw [List.append_nil] at hgt
    exact absurd h hgt.asymm

end Words

/-! ### Paths -/

section Paths
variable {κ : Type v} (succ : κ → List κ)

/-- The end of a path. -/
def follow : κ → List ℕ → Option κ
  | v, [] => some v
  | v, i :: p => (succ v)[i]?.bind fun u => follow u p

/-- All nodes on a path. -/
def trail : κ → List ℕ → List κ
  | v, [] => [v]
  | v, i :: p => v :: ((succ v)[i]?.map fun u => trail u p).getD []

/-- A path that comes to no node twice. -/
def SimplePath (start : κ) (p : List ℕ) (v : κ) : Prop :=
  follow succ start p = some v ∧ (trail succ start p).Nodup

/-- The first of the simple paths to a node that have fewer than `d` references. -/
def FirstPath (d : ℕ) (start : κ) (p : List ℕ) (v : κ) : Prop :=
  SimplePath succ start p v ∧ p.length < d ∧
    ∀ q, SimplePath succ start q v → q.length < d → p ≤ q

/-- No path to a node is shorter than the first of the simple ones. -/
def FirstPathsShortest (d : ℕ) (start : κ) : Prop :=
  ∀ v p, FirstPath succ d start p v → ∀ q, follow succ start q = some v → p.length ≤ q.length

variable {succ} {start u v : κ} {p q : List ℕ} {i : ℕ}

theorem follow_append (start : κ) (p q : List ℕ) :
    follow succ start (p ++ q) = (follow succ start p).bind fun u => follow succ u q := by
  induction p generalizing start with
  | nil => rfl
  | cons i p ih =>
    rw [List.cons_append, follow, follow, Option.bind_assoc]
    congr 1
    funext u
    exact ih u

theorem follow_snoc (hp : follow succ start p = some u) (i : ℕ) :
    follow succ start (p ++ [i]) = (succ u)[i]? := by
  rw [follow_append, hp, Option.bind_some, follow]
  cases (succ u)[i]? <;> rfl

/-- A path with a last reference. -/
theorem exists_of_follow_snoc (h : follow succ start (p ++ [i]) = some v) :
    ∃ u, follow succ start p = some u ∧ (succ u)[i]? = some v := by
  cases hp : follow succ start p with
  | none =>
    rw [follow_append, hp] at h
    cases h
  | some u => exact ⟨u, rfl, (follow_snoc hp i).symm.trans h⟩

theorem trail_append (hp : follow succ start p = some u) (q : List ℕ) :
    trail succ start (p ++ q) = trail succ start p ++ (trail succ u q).tail := by
  induction p generalizing start with
  | nil =>
    obtain rfl := Option.some.inj hp
    cases q with
    | nil => rfl
    | cons i q => rfl
  | cons i p ih =>
    obtain ⟨w, hw, hp⟩ := Option.bind_eq_some_iff.mp hp
    simp only [List.cons_append, trail, hw, Option.map_some, Option.getD_some, ih hp]

theorem trail_snoc (hp : follow succ start p = some u) (hi : (succ u)[i]? = some v) :
    trail succ start (p ++ [i]) = trail succ start p ++ [v] := by
  rw [trail_append hp]
  simp [trail, hi]

theorem mem_trail (hp : follow succ start p = some v) : v ∈ trail succ start p := by
  induction p generalizing start with
  | nil =>
    obtain rfl := Option.some.inj hp
    exact List.mem_singleton_self start
  | cons i p ih =>
    obtain ⟨w, hw, hp⟩ := Option.bind_eq_some_iff.mp hp
    simp only [trail, hw, Option.map_some, Option.getD_some]
    exact List.mem_cons_of_mem _ (ih hp)

theorem SimplePath.init (h : SimplePath succ start (p ++ [i]) v) :
    ∃ u, SimplePath succ start p u ∧ (succ u)[i]? = some v := by
  obtain ⟨u, hp, hi⟩ := exists_of_follow_snoc h.1
  have hnodup := h.2
  rw [trail_snoc hp hi] at hnodup
  exact ⟨u, ⟨hp, hnodup.of_append_left⟩, hi⟩

/-- Of two simple paths to a node neither begins with the other. -/
theorem SimplePath.eq_of_prefix (hp : follow succ start p = some v) (hq : SimplePath succ start q v)
    (hbegin : p <+: q) : p = q := by
  obtain ⟨t, rfl⟩ := hbegin
  cases t using List.reverseRecOn with
  | nil => rw [List.append_nil]
  | append_singleton t i =>
    exfalso
    rw [← List.append_assoc] at hq
    obtain ⟨u, hu, hi⟩ := hq.init
    have hnodup := hq.2
    rw [trail_snoc hu.1 hi, List.nodup_append] at hnodup
    have hmem : v ∈ trail succ start (p ++ t) := by
      rw [trail_append hp]
      exact List.mem_append_left _ (mem_trail hp)
    exact hnodup.2.2 v hmem v (List.mem_singleton_self v) rfl

/-- The places of a path are places of references. -/
theorem lt_length_of_follow {x : κ} {c t : List ℕ} {m : ℕ} (hc : follow succ start c = some x)
    (h : follow succ start (c ++ m :: t) = some v) : m < (succ x).length := by
  rw [follow_append, hc, Option.bind_some] at h
  obtain ⟨w, hw, -⟩ := Option.bind_eq_some_iff.mp h
  exact (List.getElem?_eq_some_iff.mp hw).1

/-- With no more than two references the first paths are shortest. -/
theorem firstPathsShortest_of_le_two {d : ℕ} (hd : d ≤ 2) : FirstPathsShortest succ d start := by
  rintro v p ⟨hp, hlen, -⟩ q hq
  cases q with
  | cons j q =>
    rw [List.length_cons]
    omega
  | nil =>
    -- a path back to the start is not simple
    rw [SimplePath.eq_of_prefix hq hp List.nil_prefix]

/-- With three references they are if no node that the start refers to is one that an
earlier one refers to. -/
theorem firstPathsShortest_three
    (h : ∀ i k : ℕ, i < k → ∀ u v, (succ start)[i]? = some u → v ∈ succ u →
      (succ start)[k]? ≠ some v) :
    FirstPathsShortest succ 3 start := by
  rintro v p ⟨hp, hlen, hmin⟩ q hq
  match q with
  | [] => rw [SimplePath.eq_of_prefix hq hp List.nil_prefix]
  | _ :: _ :: q =>
    simp only [List.length_cons]
    omega
  | [k] =>
    by_cases hstart : start = v
    · subst hstart
      obtain rfl := SimplePath.eq_of_prefix rfl hp List.nil_prefix
      exact Nat.zero_le _
    have hk : (succ start)[k]? = some v := (follow_snoc (p := []) rfl k).symm.trans hq
    have hsimple : SimplePath succ start [k] v := by
      refine ⟨hq, ?_⟩
      simpa [trail, hk] using hstart
    have hle := hmin [k] hsimple (by simp)
    match p with
    | [] => exact Nat.zero_le _
    | [_] => exact le_rfl
    | [i, j] =>
      -- a first path of two references begins with an earlier one
      have hik : i < k := by
        rcases hle.lt_or_eq with hlt | heq
        · rcases List.cons_lt_cons_iff.mp hlt with hlt | ⟨-, hlt⟩
          · exact hlt
          · exact absurd hlt (List.not_lt_nil _)
        · cases heq
      obtain ⟨u, hu, hj⟩ := exists_of_follow_snoc (p := [i]) hp.1
      exact absurd hk (h i k hik u v ((follow_snoc (p := []) rfl i).symm.trans hu)
        (List.mem_of_getElem? hj))
    | _ :: _ :: _ :: p =>
      simp only [List.length_cons] at hlen
      omega

end Paths

/-! ### The nodes entered so far -/

section Covered
variable {κ : Type v} (succ : κ → List κ) (d : ℕ) (start : κ)

/-- The walk is about to take the reference `c`. It has entered a node by its first path,
and where a reference before `c` leads it was by no longer way. -/
structure Covered (via : κ → Option (List ℕ)) (c : List ℕ) : Prop where
  root : via start = some []
  first : ∀ v p, via v = some p → FirstPath succ d start p v
  before : ∀ v p, via v = some p → p < c
  closed : ∀ v p, via v = some p → ∀ u ∈ trail succ start p, (via u).isSome = true
  passed : ∀ u p i v, via u = some p → (succ u)[i]? = some v → p.length + 1 < d → p ++ [i] < c →
    ∃ q, via v = some q ∧ q.length ≤ p.length + 1

variable {succ d start} {via : κ → Option (List ℕ)} {c c' p : List ℕ} {i : ℕ} {x z : κ}

/-- The ends of the simple paths before `c` have been entered. -/
theorem Covered.reached (h : Covered succ d start via c) {v : κ} (hp : SimplePath succ start p v)
    (hlen : p.length < d) (hlt : p < c) : ∃ q, via v = some q ∧ q.length ≤ p.length := by
  induction p using List.reverseRecOn generalizing v with
  | nil =>
    obtain rfl := Option.some.inj hp.1
    exact ⟨[], h.root, le_rfl⟩
  | append_singleton p i ih =>
    obtain ⟨u, hu, hi⟩ := hp.init
    rw [List.length_append, List.length_singleton] at hlen ⊢
    obtain ⟨q, hq, hle⟩ := ih hu (by omega) ((lt_append_cons p i []).trans hlt)
    have hfirst := h.first u q hq
    -- the first path to the node before parts from `p`, or is `p` itself
    have hbefore : q ++ [i] < c := by
      rcases (hfirst.2.2 p hu (by omega)).lt_or_eq with hqp | rfl
      · have hpart : ¬ q <+: p := by
          intro hbegin
          exact absurd (SimplePath.eq_of_prefix hfirst.1.1 hu hbegin) hqp.ne
        exact (append_lt_append hqp hpart [i] [i]).trans hlt
      · exact hlt
    obtain ⟨q', hq', hle'⟩ := h.passed u q i v hq hi (by omega) hbefore
    exact ⟨q', hq', by omega⟩

/-- The walk goes on to a later reference. -/
theorem Covered.advance (h : Covered succ d start via c) (hle : c ≤ c')
    (hpassed : ∀ u p i v, via u = some p → (succ u)[i]? = some v → p.length + 1 < d →
      c ≤ p ++ [i] → p ++ [i] < c' → ∃ q, via v = some q ∧ q.length ≤ p.length + 1) :
    Covered succ d start via c' where
  root := h.root
  first := h.first
  before v p hv := (h.before v p hv).trans_le hle
  closed := h.closed
  passed u p i v hu hi hlen hlt := by
    rcases lt_or_ge (p ++ [i]) c with hbefore | hafter
    · exact h.passed u p i v hu hi hlen hbefore
    · exact hpassed u p i v hu hi hlen hafter hlt

/-- The walk enters a new node. -/
theorem Covered.enter [DecidableEq κ] (h : Covered succ d start via (p ++ [i]))
    (hz : via z = some p) (hi : (succ z)[i]? = some x) (hlen : p.length + 1 < d)
    (hnew : via x = none) :
    Covered succ d start (Function.update via x (some (p ++ [i]))) (p ++ [i] ++ [0]) := by
  have hsimple := (h.first z p hz).1
  have hx : follow succ start (p ++ [i]) = some x := (follow_snoc hsimple.1 i).trans hi
  have htrail : trail succ start (p ++ [i]) = trail succ start p ++ [x] := trail_snoc hsimple.1 hi
  have hcases : ∀ {v q}, Function.update via x (some (p ++ [i])) v = some q →
      (v = x ∧ q = p ++ [i]) ∨ via v = some q := by
    intro v q hv
    by_cases hvx : v = x
    · subst hvx
      rw [Function.update_self] at hv
      exact .inl ⟨rfl, (Option.some.inj hv).symm⟩
    · rw [Function.update_of_ne hvx] at hv
      exact .inr hv
  have hkeep : ∀ {v q}, via v = some q → Function.update via x (some (p ++ [i])) v = some q := by
    intro v q hv
    have hne : v ≠ x := by
      rintro rfl
      rw [hnew] at hv
      cases hv
    rwa [Function.update_of_ne hne]
  have hkeeps : ∀ {u}, (via u).isSome = true →
      (Function.update via x (some (p ++ [i])) u).isSome = true := by
    intro u hu
    obtain ⟨q, hq⟩ := Option.isSome_iff_exists.mp hu
    rw [hkeep hq]
    rfl
  refine ⟨hkeep h.root, fun v q hv => ?_, fun v q hv => ?_, fun v q hv u hu => ?_, ?_⟩
  · obtain ⟨rfl, rfl⟩ | hv := hcases hv
    · refine ⟨⟨hx, ?_⟩, by simpa using hlen, fun q hq hqlen => ?_⟩
      · -- the nodes on the way were entered before
        rw [htrail, List.nodup_append]
        refine ⟨hsimple.2, List.nodup_singleton v, ?_⟩
        rintro a ha b hb rfl
        have hin := h.closed z p hz a ha
        rw [List.mem_singleton.mp hb, hnew] at hin
        cases hin
      · by_contra hnot
        obtain ⟨q', hq', -⟩ := h.reached hq hqlen (not_le.mp hnot)
        rw [hnew] at hq'
        cases hq'
    · exact h.first v q hv
  · obtain ⟨rfl, rfl⟩ | hv := hcases hv
    · exact lt_append_cons _ 0 []
    · exact (h.before v q hv).trans (lt_append_cons _ 0 [])
  · obtain ⟨rfl, rfl⟩ | hv := hcases hv
    · rw [htrail, List.mem_append, List.mem_singleton] at hu
      rcases hu with hu | rfl
      · exact hkeeps (h.closed z p hz u hu)
      · rw [Function.update_self]
        rfl
    · exact hkeeps (h.closed v q hv u hu)
  · intro u q j v hu hj hqlen hlt
    have hle := le_of_lt_append_zero hlt
    obtain ⟨rfl, rfl⟩ | hu := hcases hu
    · exact absurd hle (not_le_of_gt (lt_append_cons _ j []))
    · rcases hle.lt_or_eq with hbefore | heq
      · obtain ⟨w, hw, hle⟩ := h.passed u q j v hu hj hqlen hbefore
        exact ⟨w, hkeep hw, hle⟩
      · -- the reference is the one to the new node itself
        have hv : v = x := by
          have hfollow := (follow_snoc (h.first u q hu).1.1 j).trans hj
          rw [heq, hx] at hfollow
          exact (Option.some.inj hfollow).symm
        subst hv
        refine ⟨p ++ [i], Function.update_self .., ?_⟩
        rw [← heq, List.length_append, List.length_singleton]

variable {q : List ℕ}

/-- The walk meets a node that it has entered, by a path at least as long. -/
theorem Covered.meet (h : Covered succ d start via (p ++ [i])) (hz : via z = some p)
    (hi : (succ z)[i]? = some x) (hx : via x = some q) (hle : q.length ≤ p.length + 1) :
    Covered succ d start via (p ++ [i + 1]) := by
  refine h.advance (append_singleton_lt (Nat.lt_succ_self i) p []).le ?_
  intro u r j v hu hj _ hge hlt
  rcases lt_or_prefix_of_lt_succ hlt with hbefore | ⟨t, ht⟩
  · exact absurd hbefore (not_lt_of_ge hge)
  · -- no path entered so far goes on from here
    cases t using List.reverseRecOn with
    | nil =>
      rw [List.append_nil] at ht
      have hv : v = x := by
        have hfollow := (follow_snoc (h.first u r hu).1.1 j).trans hj
        rw [← ht, follow_snoc (h.first z p hz).1.1, hi] at hfollow
        exact (Option.some.inj hfollow).symm
      subst hv
      have hlen := congrArg List.length ht
      simp only [List.length_append, List.length_singleton] at hlen
      exact ⟨q, hx, by omega⟩
    | append_singleton t m =>
      rw [← List.append_assoc] at ht
      have hr : p ++ [i] ++ t = r := (List.append_inj' ht rfl).1
      have hle : p ++ [i] ≤ r := hr ▸ le_append _ t
      exact absurd (h.before u r hu) (not_lt_of_ge hle)

/-- The walk passes a reference that it has no depth left to follow. -/
theorem Covered.pass (h : Covered succ d start via (p ++ [i])) (hover : d ≤ p.length + 1) :
    Covered succ d start via (p ++ [i + 1]) := by
  refine h.advance (append_singleton_lt (Nat.lt_succ_self i) p []).le ?_
  intro u r j v _ _ hlen hge hlt
  rcases lt_or_prefix_of_lt_succ hlt with hbefore | hbegin
  · exact absurd hbefore (not_lt_of_ge hge)
  · have hlen' := hbegin.length_le
    simp only [List.length_append, List.length_singleton] at hlen'
    omega

/-- The walk has taken all references of a node and goes back. -/
theorem Covered.leave (h : Covered succ d start via (p ++ [i] ++ [(succ x).length]))
    (hx : follow succ start (p ++ [i]) = some x) : Covered succ d start via (p ++ [i + 1]) := by
  have hnext : p ++ [i] ++ [(succ x).length] < p ++ [i + 1] := by
    rw [List.append_assoc]
    exact append_singleton_lt (Nat.lt_succ_self i) p _
  refine h.advance hnext.le ?_
  intro u r j v hu hj _ hge hlt
  -- a path that goes on from the node takes one of its references
  have hbefore : r ++ [j] < p ++ [i] ++ [(succ x).length] := by
    rcases lt_or_prefix_of_lt_succ hlt with hbefore | ⟨t, ht⟩
    · exact hbefore.trans (lt_append_cons _ _ [])
    · rw [← ht]
      cases t with
      | nil =>
        rw [List.append_nil]
        exact lt_append_cons _ _ []
      | cons m t =>
        have hfollow := (follow_snoc (h.first u r hu).1.1 j).trans hj
        rw [← ht] at hfollow
        exact append_singleton_lt (lt_length_of_follow hx hfollow) _ t
  exact absurd hbefore (not_lt_of_ge hge)

end Covered

/-! ### The walk -/

section Walk
variable {ν : Type u} {κ : Type v} {ρ : Type w} [DecidableEq κ] {limit : ℕ} {refs : ν → List ρ}
  {target : ρ → ν} {key : ν → κ} {opens : ρ → Bool}

/-- The graph of the keys, where `node` gives back the node of a key. -/
def links (refs : ν → List ρ) (target : ρ → ν) (key : ν → κ) (node : κ → ν) (k : κ) : List κ :=
  (refs (node k)).map fun r => key (target r)

variable {node : κ → ν} {d : ℕ} {start : κ}

omit [DecidableEq κ] in
/-- A path of nodes is one of keys. -/
theorem follow_links (hnode : ∀ n, node (key n) = n) {n w : ν} {path : List ℕ}
    (hpath : follow (fun n => (refs n).map target) n path = some w) (hne : path ≠ []) {k : κ}
    (hk : node k = n) : follow (links refs target key node) k path = some (key w) := by
  induction path generalizing n k with
  | nil => exact absurd rfl hne
  | cons i path ih =>
    obtain ⟨u, hu, hrest⟩ := Option.bind_eq_some_iff.mp hpath
    rw [List.getElem?_map] at hu
    obtain ⟨r, hr, rfl⟩ := Option.map_eq_some_iff.mp hu
    have hlink : (links refs target key node k)[i]? = some (key (target r)) := by
      simp [links, hk, hr]
    rw [follow, hlink, Option.bind_some]
    cases path with
    | nil =>
      obtain rfl := Option.some.inj hrest
      rfl
    | cons j path => exact ih hrest (List.cons_ne_nil _ _) (hnode _)

/-- The nodes entered, with their paths, are more than before and are those visited. -/
structure Goes (succ : κ → List κ) (d : ℕ) (start : κ) (via via' : κ → Option (List ℕ))
    (visited : Finset κ) (c : List ℕ) : Prop where
  covered : Covered succ d start via' c
  visited : ∀ v, v ∈ visited ↔ (via' v).isSome = true
  keeps : ∀ v q, via v = some q → via' v = some q

/-- With `k` references left to take from the node of `x`, `enter` brings the walk from the
first of its references to the end of them. -/
def Enters (limit : ℕ) (succ : κ → List κ) (node : κ → ν) (d : ℕ) (start : κ) (k : ℕ)
    (enter : ν → State ν κ → Forest ρ × State ν κ) : Prop :=
  ∀ x c via s, via x = some c → c.length + k = d →
    Goes succ d start via via s.visited (c ++ [0]) → (enter (node x) s).2.count < limit →
      ∃ via', Goes succ d start via via' (enter (node x) s).2.visited (c ++ [(succ x).length])

theorem loop_goes (hnode : ∀ n, node (key n) = n) (hopens : ∀ n, ∀ r ∈ refs n, opens r = true)
    (hshort : FirstPathsShortest (links refs target key node) d start) {k : ℕ} {deeper : Bool}
    {enter : ν → State ν κ → Forest ρ × State ν κ} (hdeeper : deeper = true ↔ 0 < k)
    (hmono : ∀ n s, s.count ≤ (enter n s).2.count)
    (henter : 0 < k → Enters limit (links refs target key node) node d start k enter)
    {z : κ} {p : List ℕ} (hlen : p.length + (k + 1) = d) (l : List ρ) (s : State ν κ) :
    let out := loop limit target key opens deeper enter l s
    s.count ≤ out.2.count ∧ ∀ i via, (refs (node z)).drop i = l → i ≤ (refs (node z)).length →
      via z = some p → Goes (links refs target key node) d start via via s.visited (p ++ [i]) →
      out.2.count < limit →
      ∃ via', Goes (links refs target key node) d start via via' out.2.visited
        (p ++ [(links refs target key node z).length]) := by
  have hplace : ∀ i r rest, (refs (node z)).drop i = r :: rest →
      (links refs target key node z)[i]? = some (key (target r)) ∧ opens r = true ∧
        i + 1 ≤ (refs (node z)).length ∧ (refs (node z)).drop (i + 1) = rest := by
    intro i r rest hdrop
    have hr : (refs (node z))[i]? = some r := by
      rw [← List.head?_drop, hdrop]
      rfl
    refine ⟨by simp [links, hr], hopens _ r (List.mem_of_getElem? hr),
      (List.getElem?_eq_some_iff.mp hr).1, ?_⟩
    rw [← List.drop_drop, hdrop]
    rfl
  refine loop_induction (motive := fun l s out => s.count ≤ out.2.count ∧ ∀ i via,
    (refs (node z)).drop i = l → i ≤ (refs (node z)).length → via z = some p →
    Goes (links refs target key node) d start via via s.visited (p ++ [i]) → out.2.count < limit →
    ∃ via', Goes (links refs target key node) d start via via' out.2.visited
      (p ++ [(links refs target key node z).length])) ?_ ?_ ?_ ?_ l s
  · refine fun s => ⟨le_rfl, fun i via hdrop hi _ hgoes _ => ⟨via, ?_⟩⟩
    have hend : (links refs target key node z).length = i := by
      rw [links, List.length_map]
      exact le_antisymm (List.drop_eq_nil_iff.mp hdrop) hi
    rw [hend]
    exact hgoes
  · intro r rest s hfull
    exact ⟨le_rfl, fun _ _ _ _ _ _ hlt => absurd hlt (Nat.not_lt.mpr hfull)⟩
  · rintro r rest s out - hseen ⟨hle, ih⟩
    refine ⟨(Nat.le_succ _).trans hle, fun i via hdrop hi hz hgoes hlt => ?_⟩
    obtain ⟨hx, hopen, hi', hdrop'⟩ := hplace i r rest hdrop
    have hnext : Covered (links refs target key node) d start via (p ++ [i + 1]) := by
      rcases Nat.eq_zero_or_pos k with rfl | hk
      · exact hgoes.covered.pass (by omega)
      · obtain ⟨q, hq⟩ := Option.isSome_iff_exists.mp
          ((hgoes.visited _).mp (hseen (hdeeper.mpr hk) hopen))
        have hpath := (follow_snoc (hgoes.covered.first z p hz).1.1 i).trans hx
        have hle := hshort _ q (hgoes.covered.first _ q hq) _ hpath
        rw [List.length_append, List.length_singleton] at hle
        exact hgoes.covered.meet hz hx hq hle
    exact ih (i + 1) via hdrop' hi' hz ⟨hnext, hgoes.visited, hgoes.keeps⟩ hlt
  · rintro r rest s inner out - hdeep hopen hnew rfl ⟨hle, ih⟩
    have hk := hdeeper.mp hdeep
    refine ⟨(Nat.le_succ _).trans ((hmono _ _).trans hle), fun i via hdrop hi hz hgoes hlt => ?_⟩
    obtain ⟨hx, -, hi', hdrop'⟩ := hplace i r rest hdrop
    set x := key (target r) with hxdef
    have hnone : via x = none := by
      rw [← Option.not_isSome_iff_eq_none, ← hgoes.visited]
      exact hnew
    have hin := hgoes.covered.enter hz hx (by omega) hnone
    have hxz : x ≠ z := by
      intro heq
      rw [heq, hz] at hnone
      cases hnone
    have hvisited : ∀ v, v ∈ (s.emit.visit x).visited ↔
        (Function.update via x (some (p ++ [i])) v).isSome = true := by
      intro v
      by_cases hv : v = x
      · simp [State.visit, hv]
      · simp [State.visit, State.emit, hv, hgoes.visited]
    obtain ⟨via₁, h₁⟩ := henter hk x (p ++ [i]) _ (s.emit.visit x) (Function.update_self ..)
      (by rw [List.length_append, List.length_singleton]; omega) ⟨hin, hvisited, fun _ _ h => h⟩
      (by rw [hxdef, hnode]; exact hle.trans_lt hlt)
    rw [hxdef, hnode, ← hxdef] at h₁
    have hfollow := (follow_snoc (hgoes.covered.first z p hz).1.1 i).trans hx
    have hz₁ : via₁ z = some p := h₁.keeps z p (by rw [Function.update_of_ne hxz.symm]; exact hz)
    obtain ⟨via₂, h₂⟩ := ih (i + 1) via₁ hdrop' hi' hz₁
      ⟨h₁.covered.leave hfollow, h₁.visited, fun _ _ h => h⟩ hlt
    refine ⟨via₂, h₂.covered, h₂.visited, fun v q hv => h₂.keeps v q (h₁.keeps v q ?_)⟩
    have hne : v ≠ x := by
      rintro rfl
      rw [hnone] at hv
      cases hv
    rw [Function.update_of_ne hne]
    exact hv

theorem walk_enters (hnode : ∀ n, node (key n) = n) (hopens : ∀ n, ∀ r ∈ refs n, opens r = true)
    (hshort : FirstPathsShortest (links refs target key node) d start) (k : ℕ) :
    Enters limit (links refs target key node) node d start (k + 1)
      (walk limit refs target key opens (k + 1)) := by
  have hmono : ∀ j n s, s.count ≤ (walk limit refs target key opens j n s).2.count := by
    intro j n s
    obtain ⟨new, h, -⟩ : ∃ new, Leaves limit refs key (s.ask n)
        (walk limit refs target key opens j n s) new ∧ _ := walk_leaves j n s
    exact h.count_le
  induction k with
  | zero =>
    intro x c via s hx hlen hgoes hlt
    exact (loop_goes hnode hopens hshort (by simp) (hmono 0) (fun h => absurd h (lt_irrefl 0)) hlen
      (refs (node x)) (s.ask (node x))).2 0 via rfl (Nat.zero_le _) hx hgoes hlt
  | succ k ih =>
    intro x c via s hx hlen hgoes hlt
    exact (loop_goes hnode hopens hshort (by simp) (hmono (k + 1)) (fun _ => ih) hlen
      (refs (node x)) (s.ask (node x))).2 0 via rfl (Nat.zero_le _) hx hgoes hlt

theorem covered_start (hd : 0 < d) (succ : κ → List κ) :
    Covered succ d start (fun v => if v = start then some [] else none) [0] := by
  have hcases : ∀ {v : κ} {p : List ℕ}, (if v = start then some [] else none) = some p →
      v = start ∧ p = [] := by
    intro v p h
    split_ifs at h with hv
    exact ⟨hv, (Option.some.inj h).symm⟩
  refine ⟨if_pos rfl, fun v p hv => ?_, fun v p hv => ?_, fun v p hv u hu => ?_,
    fun u p i v hu _ _ hlt => ?_⟩
  · obtain ⟨rfl, rfl⟩ := hcases hv
    exact ⟨⟨rfl, List.nodup_singleton v⟩, hd, fun q _ _ => le_append [] q⟩
  · obtain ⟨rfl, rfl⟩ := hcases hv
    exact List.nil_lt_cons 0 []
  · obtain ⟨rfl, rfl⟩ := hcases hv
    rw [List.mem_singleton.mp hu]
    simp
  · obtain ⟨rfl, rfl⟩ := hcases hu
    exact absurd (le_of_lt_append_zero hlt) (not_le_of_gt (lt_append_cons [] i []))

/-- A walk of depth `d` that stays short of the limit emits every node within `d`
references of its start, if the first paths to the nodes before are shortest ones. -/
theorem walk_reaches (hnode : ∀ n, node (key n) = n) (hopens : ∀ n, ∀ r ∈ refs n, opens r = true)
    (hd : 0 < d) (hshort : FirstPathsShortest (links refs target key node) d start)
    (hcount : (walk limit refs target key opens d (node start) { visited := {start} }).2.count < limit)
    {path : List ℕ} {w : κ} (hpath : follow (links refs target key node) start path = some w)
    (hpos : 0 < path.length) (hle : path.length ≤ d) :
    ∃ r ∈ (walk limit refs target key opens d (node start) { visited := {start} }).1.nodes,
      key (target r) = w := by
  obtain ⟨k, rfl⟩ : ∃ k, d = k + 1 := ⟨d - 1, by omega⟩
  obtain ⟨via, hgoes⟩ := walk_enters hnode hopens hshort k start [] _ { visited := {start} }
    (if_pos rfl) (Nat.zero_add _) ⟨covered_start hd _, fun v => by simp, fun _ _ h => h⟩ hcount
  set succ := links refs target key node with hsucc
  -- all references of the start have been taken, and so those of every node entered
  have hall : ∀ {u p i v}, via u = some p → (succ u)[i]? = some v →
      p ++ [i] < [] ++ [(succ start).length] := by
    intro u p i v hu hi
    have hfollow := (follow_snoc (hgoes.covered.first u p hu).1.1 i).trans hi
    rw [List.nil_append]
    cases p with
    | nil => exact append_singleton_lt (lt_length_of_follow rfl hfollow) [] []
    | cons m p =>
      exact append_singleton_lt (lt_length_of_follow (c := []) rfl hfollow) [] (p ++ [i])
  have hentered : ∀ (p : List ℕ) (u : κ), follow succ start p = some u → p.length < k + 1 →
      ∃ q, via u = some q ∧ q.length ≤ p.length := by
    intro p
    induction p using List.reverseRecOn with
    | nil =>
      intro u hu _
      obtain rfl := Option.some.inj hu
      exact ⟨[], hgoes.covered.root, le_rfl⟩
    | append_singleton p i ih =>
      intro v hv hlen
      obtain ⟨u, hu, hi⟩ := exists_of_follow_snoc hv
      rw [List.length_append, List.length_singleton] at hlen ⊢
      obtain ⟨q, hq, hqle⟩ := ih u hu (by omega)
      obtain ⟨q', hq', hqle'⟩ := hgoes.covered.passed u q i v hq hi (by omega) (hall hq hi)
      exact ⟨q', hq', by omega⟩
  obtain ⟨p, i, rfl⟩ : ∃ p i, path = p ++ [i] := by
    rcases List.eq_nil_or_concat path with rfl | ⟨p, i, rfl⟩
    · exact absurd hpos (lt_irrefl 0)
    · exact ⟨p, i, List.concat_eq_append⟩
  obtain ⟨u, hu, hi⟩ := exists_of_follow_snoc hpath
  rw [List.length_append, List.length_singleton] at hle
  obtain ⟨q, hq, -⟩ := hentered p u hu (by omega)
  have hvisited := (hgoes.visited u).mpr (by rw [hq]; rfl)
  obtain ⟨new, hleaves, hown⟩ : ∃ new, Leaves limit refs key _
      (walk limit refs target key opens (k + 1) (node start) { visited := {start} }) new ∧ _ :=
    walk_leaves (k + 1) (node start) { visited := {start} }
  have hrefs : ∀ r ∈ refs (node u), r ∈
      (walk limit refs target key opens (k + 1) (node start) { visited := {start} }).1.nodes := by
    rcases (hleaves.visited u).mp hvisited with hroot | hnew
    · rw [Finset.mem_singleton.mp hroot]
      exact hown hcount
    · obtain ⟨n, hn, rfl⟩ := List.mem_map.mp hnew
      rw [hnode]
      exact hleaves.emitted hcount n hn
  obtain ⟨r, hr, hw⟩ := List.mem_map.mp (List.mem_of_getElem? hi)
  exact ⟨r, hrefs r hr, hw⟩

end Walk

end DepthFirst
