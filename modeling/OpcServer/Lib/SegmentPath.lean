import Mathlib.Data.List.Infix

/-! Paths as texts whose segments are separated by one symbol. Splitting drops the empty
segments, so that only the paths without surplus separators are recovered by joining. -/

namespace SegmentPath

variable {α : Type*} [DecidableEq α] (sep : α)

/-- The segments of the rest of a path, with the segment read so far. -/
def scan : List α → List α → List (List α)
  | current, [] => if current = [] then [] else [current]
  | current, c :: path =>
    if c = sep then
      if current = [] then scan [] path else current :: scan [] path
    else scan (current ++ [c]) path

def split (path : List α) : List (List α) := scan sep [] path

/-- A path followed by one more segment. -/
def extend (path segment : List α) : List α :=
  (if path = [] then path else path ++ [sep]) ++ segment

def join (segments : List (List α)) : List α := segments.foldl (extend sep) []

/-- The place of the last separator. -/
def rfind : List α → Option ℕ
  | [] => none
  | c :: path =>
    match rfind path with
    | some i => some (i + 1)
    | none => if c = sep then some 0 else none

/-- What is before the last separator. -/
def parentPath (path : List α) : List α :=
  match rfind sep path with
  | none => []
  | some i => path.take i

/-- What is after the last separator. -/
def browseName (path : List α) : List α :=
  match rfind sep path with
  | none => path
  | some i => path.drop (i + 1)

/-- A segment has symbols, and the separator is not one of them. -/
def IsSegment (segment : List α) : Prop := segment ≠ [] ∧ sep ∉ segment

/-- No separator at the ends, and no two in a row. -/
structure Clean (path : List α) : Prop where
  head : path.head? ≠ some sep
  last : path.getLast? ≠ some sep
  single : ¬ [sep, sep] <:+: path

variable {sep}

/-! ### Splitting -/

theorem scan_segment {segment : List α} (h : sep ∉ segment) (current path : List α) :
    scan sep current (segment ++ path) = scan sep (current ++ segment) path := by
  induction segment generalizing current with
  | nil => rw [List.nil_append, List.append_nil]
  | cons c segment ih =>
    obtain ⟨hc, hrest⟩ := not_or.mp (mt List.mem_cons.mpr h)
    rw [List.cons_append, scan, if_neg (Ne.symm hc), ih hrest, List.append_assoc]
    rfl

theorem split_segment {segment : List α} (h : IsSegment sep segment) :
    split sep segment = [segment] := by
  have hscan := scan_segment h.2 [] []
  rw [List.append_nil, List.nil_append] at hscan
  rw [split, hscan, scan, if_neg h.1]

theorem scan_snoc {segment : List α} (h : IsSegment sep segment) (current path : List α) :
    scan sep current (path ++ sep :: segment) = scan sep current path ++ [segment] := by
  induction path generalizing current with
  | nil =>
    have hsplit : scan sep [] segment = [segment] := split_segment h
    rw [List.nil_append, scan.eq_2, if_pos rfl, hsplit, scan]
    split_ifs <;> rfl
  | cons c path ih =>
    rw [List.cons_append, scan, scan]
    split_ifs
    · exact ih _
    · rw [ih, List.cons_append]
    · exact ih _

theorem split_snoc {segment : List α} (h : IsSegment sep segment) (path : List α) :
    split sep (path ++ sep :: segment) = split sep path ++ [segment] :=
  scan_snoc h [] path

theorem split_cons {segment : List α} (h : IsSegment sep segment) (path : List α) :
    split sep (segment ++ sep :: path) = segment :: split sep path := by
  rw [split, scan_segment h.2, List.nil_append, scan, if_pos rfl, if_neg h.1]
  rfl

theorem isSegment_of_mem_scan {current path segment : List α} (hcurrent : sep ∉ current)
    (h : segment ∈ scan sep current path) : IsSegment sep segment := by
  induction path generalizing current with
  | nil =>
    rw [scan] at h
    split_ifs at h with hnil
    · cases h
    · rw [List.mem_singleton.mp h]
      exact ⟨hnil, hcurrent⟩
  | cons c path ih =>
    rw [scan] at h
    split_ifs at h with hc hnil
    · exact ih List.not_mem_nil h
    · rcases List.mem_cons.mp h with rfl | h
      · exact ⟨hnil, hcurrent⟩
      · exact ih List.not_mem_nil h
    · refine ih (fun hmem => ?_) h
      rcases List.mem_append.mp hmem with hmem | hmem
      · exact hcurrent hmem
      · exact hc (List.mem_singleton.mp hmem).symm

theorem isSegment_of_mem_split {path segment : List α} (h : segment ∈ split sep path) :
    IsSegment sep segment := isSegment_of_mem_scan List.not_mem_nil h

theorem mem_of_mem_scan {current path segment : List α} {c : α}
    (h : segment ∈ scan sep current path) (hc : c ∈ segment) : c ∈ current ∨ c ∈ path := by
  induction path generalizing current with
  | nil =>
    rw [scan] at h
    split_ifs at h
    · cases h
    · exact .inl (List.mem_singleton.mp h ▸ hc)
  | cons d path ih =>
    rw [scan] at h
    split_ifs at h with hd hnil
    · exact .inr (List.mem_cons_of_mem _ ((ih h).resolve_left List.not_mem_nil))
    · rcases List.mem_cons.mp h with rfl | h
      · exact .inl hc
      · exact .inr (List.mem_cons_of_mem _ ((ih h).resolve_left List.not_mem_nil))
    · rcases ih h with hmem | hmem
      · rcases List.mem_append.mp hmem with hmem | hmem
        · exact .inl hmem
        · exact .inr (List.mem_singleton.mp hmem ▸ List.mem_cons_self)
      · exact .inr (List.mem_cons_of_mem _ hmem)

/-- Segments have no other symbols than their path. -/
theorem mem_of_mem_split {path segment : List α} {c : α} (h : segment ∈ split sep path)
    (hc : c ∈ segment) : c ∈ path :=
  (mem_of_mem_scan h hc).resolve_left List.not_mem_nil

theorem eq_sep_of_scan_eq_nil {current path : List α} (h : scan sep current path = []) :
    current = [] ∧ ∀ c ∈ path, c = sep := by
  induction path generalizing current with
  | nil =>
    rw [scan] at h
    split_ifs at h with hnil
    exact ⟨hnil, fun c hc => absurd hc List.not_mem_nil⟩
  | cons d path ih =>
    rw [scan] at h
    split_ifs at h with hd hnil
    · exact ⟨hnil, List.forall_mem_cons.mpr ⟨hd, (ih h).2⟩⟩
    · exact absurd (ih h).1 (by simp)

/-- Only separators make no segment. -/
theorem eq_sep_of_split_eq_nil {path : List α} (h : split sep path = []) : ∀ c ∈ path, c = sep :=
  (eq_sep_of_scan_eq_nil h).2

theorem split_concat_sep (path : List α) : split sep (path ++ [sep]) = split sep path := by
  suffices ∀ current, scan sep current (path ++ [sep]) = scan sep current path from this []
  induction path with
  | nil =>
    intro current
    rw [List.nil_append, scan.eq_2, if_pos rfl, scan, scan]
    rfl
  | cons c path ih =>
    intro current
    rw [List.cons_append, scan, scan, ih, ih]

/-! ### Joining -/

omit [DecidableEq α] in
theorem extend_of_ne_nil {path : List α} (h : path ≠ []) (segment : List α) :
    extend sep path segment = path ++ sep :: segment := by
  rw [extend, if_neg h, List.append_assoc]
  rfl

omit [DecidableEq α] in
theorem mem_join {segments : List (List α)} {c : α} (h : c ∈ join sep segments) :
    c = sep ∨ ∃ segment ∈ segments, c ∈ segment := by
  induction segments using List.reverseRecOn with
  | nil => cases h
  | append_singleton segments segment ih =>
    rw [join, List.foldl_append, List.foldl_cons, List.foldl_nil, extend] at h
    have hpath : c ∈ join sep segments →
        c = sep ∨ ∃ segment' ∈ segments ++ [segment], c ∈ segment' := fun hmem =>
      (ih hmem).imp_right fun ⟨segment', hs, hc⟩ => ⟨segment', List.mem_append_left _ hs, hc⟩
    rcases List.mem_append.mp h with hmem | hmem
    · split_ifs at hmem
      · exact hpath hmem
      · rcases List.mem_append.mp hmem with hmem | hmem
        · exact hpath hmem
        · exact .inl (List.mem_singleton.mp hmem)
    · exact .inr ⟨segment, by simp, hmem⟩

theorem mem_of_mem_parentPath {path : List α} {c : α} (h : c ∈ parentPath sep path) : c ∈ path := by
  unfold parentPath at h
  split at h
  · cases h
  · exact List.mem_of_mem_take h

theorem mem_of_mem_browseName {path : List α} {c : α} (h : c ∈ browseName sep path) : c ∈ path := by
  unfold browseName at h
  split at h
  · exact h
  · exact List.mem_of_mem_drop h

omit [DecidableEq α] in
theorem join_snoc (segments : List (List α)) (segment : List α) :
    join sep (segments ++ [segment]) = extend sep (join sep segments) segment :=
  List.foldl_concat _ _ _ _

theorem split_join {segments : List (List α)} (h : ∀ s ∈ segments, IsSegment sep s) :
    split sep (join sep segments) = segments := by
  induction segments using List.reverseRecOn with
  | nil => rfl
  | append_singleton segments segment ih =>
    have hsegment := h segment (by simp)
    have hsplit := ih fun s hs => h s (List.mem_append_left _ hs)
    rw [join_snoc]
    by_cases hnil : join sep segments = []
    · rw [hnil] at hsplit ⊢
      obtain rfl : [] = segments := hsplit
      exact split_segment hsegment
    · rw [extend_of_ne_nil hnil, split_snoc hsegment, hsplit]

theorem join_injOn {segments segments' : List (List α)} (h : ∀ s ∈ segments, IsSegment sep s)
    (h' : ∀ s ∈ segments', IsSegment sep s) (heq : join sep segments = join sep segments') :
    segments = segments' := by
  rw [← split_join h, ← split_join h', heq]

theorem join_eq_nil_iff {segments : List (List α)} (h : ∀ s ∈ segments, IsSegment sep s) :
    join sep segments = [] ↔ segments = [] :=
  ⟨fun hnil => join_injOn h (fun _ hs => absurd hs List.not_mem_nil) hnil, fun hnil => hnil ▸ rfl⟩

omit [DecidableEq α] in
theorem exists_last_sep {path : List α} (h : sep ∈ path) :
    ∃ before after, path = before ++ sep :: after ∧ sep ∉ after := by
  obtain ⟨after, before, heq, hafter⟩ := List.eq_append_cons_of_mem (List.mem_reverse.mpr h)
  refine ⟨before.reverse, after.reverse, ?_, by simpa using hafter⟩
  rw [← List.reverse_reverse path, heq]
  simp

omit [DecidableEq α] in
theorem Clean.before {before after : List α} (h : Clean sep (before ++ sep :: after)) :
    Clean sep before ∧ before ≠ [] := by
  have hne : before ≠ [] := by
    rintro rfl
    exact h.head rfl
  refine ⟨⟨?_, fun hlast => ?_, fun hdouble => ?_⟩, hne⟩
  · obtain ⟨c, path, rfl⟩ := List.exists_cons_of_ne_nil hne
    exact h.head
  · obtain ⟨path, rfl⟩ : ∃ path, before = path ++ [sep] := by
      exact List.getLast?_eq_some_iff.mp hlast
    exact h.single ⟨path, after, by simp⟩
  · exact h.single (hdouble.trans (List.prefix_append _ _).isInfix)

omit [DecidableEq α] in
theorem Clean.concat {before after : List α} (h : Clean sep before) (hne : before ≠ [])
    (hsegment : IsSegment sep after) : Clean sep (before ++ sep :: after) where
  head := by
    obtain ⟨c, path, rfl⟩ := List.exists_cons_of_ne_nil hne
    exact h.head
  last := by
    intro hlast
    have hmem : sep ∈ after := by
      rw [List.getLast?_append_cons, List.getLast?_cons_of_ne_nil hsegment.1] at hlast
      exact List.mem_of_getLast? hlast
    exact hsegment.2 hmem
  single := by
    rintro ⟨x, y, heq⟩
    rw [List.append_assoc, List.cons_append, List.singleton_append] at heq
    rcases List.append_eq_append_iff.mp heq with ⟨c, rfl, hc⟩ | ⟨c, rfl, hc⟩
    · -- the two separators begin before the last one
      match c with
      | [] =>
        obtain ⟨-, rfl⟩ := List.cons.inj hc
        exact hsegment.2 List.mem_cons_self
      | [d] =>
        obtain ⟨rfl, -⟩ := List.cons.inj hc
        exact h.last List.getLast?_concat
      | d :: d' :: c =>
        obtain ⟨rfl, htail⟩ := List.cons.inj hc
        have hd' : sep = d' := (List.cons.inj htail).1
        exact h.single ⟨x, c, by simp [hd']⟩
    · match c with
      | [] =>
        obtain ⟨-, rfl⟩ := List.cons.inj hc
        exact hsegment.2 List.mem_cons_self
      | d :: c =>
        obtain ⟨-, rfl⟩ := List.cons.inj hc
        exact hsegment.2 (by simp)

omit [DecidableEq α] in
theorem clean_segment {segment : List α} (h : IsSegment sep segment) : Clean sep segment where
  head hhead := h.2 (List.mem_of_head? hhead)
  last hlast := h.2 (List.mem_of_getLast? hlast)
  single hdouble := h.2 (hdouble.subset List.mem_cons_self)

omit [DecidableEq α] in
/-- A joined path has no surplus separators. -/
theorem clean_join {segments : List (List α)} (h : ∀ s ∈ segments, IsSegment sep s) :
    Clean sep (join sep segments) := by
  induction segments using List.reverseRecOn with
  | nil => exact ⟨by simp [join], by simp [join], by simp [join]⟩
  | append_singleton segments segment ih =>
    have hsegment := h segment (by simp)
    have hclean := ih fun s hs => h s (List.mem_append_left _ hs)
    rw [join_snoc]
    by_cases hnil : join sep segments = []
    · rw [hnil]
      exact clean_segment hsegment
    · rw [extend_of_ne_nil hnil]
      exact hclean.concat hnil hsegment

/-- Only surplus separators are lost by splitting. -/
theorem join_split {path : List α} (h : Clean sep path) : join sep (split sep path) = path := by
  induction hlen : path.length using Nat.strong_induction_on generalizing path with
  | _ n ih =>
    by_cases hsep : sep ∈ path
    · obtain ⟨before, after, rfl, hafter⟩ := exists_last_sep hsep
      have hsegment : IsSegment sep after := by
        refine ⟨?_, hafter⟩
        rintro rfl
        exact h.last List.getLast?_concat
      obtain ⟨hbefore, hne⟩ := h.before
      have hjoin := ih before.length (by rw [← hlen]; simp) hbefore rfl
      rw [split_snoc hsegment, join_snoc, hjoin, extend_of_ne_nil hne]
    · by_cases hnil : path = []
      · rw [hnil]
        rfl
      · rw [split_segment ⟨hnil, hsep⟩]
        rfl

/-! ### The last separator -/

theorem rfind_eq_none {path : List α} (h : sep ∉ path) : rfind sep path = none := by
  induction path with
  | nil => rfl
  | cons c path ih =>
    obtain ⟨hc, hrest⟩ := not_or.mp (mt List.mem_cons.mpr h)
    rw [rfind, ih hrest, if_neg (Ne.symm hc)]

theorem rfind_append {after : List α} (h : sep ∉ after) (before : List α) :
    rfind sep (before ++ sep :: after) = some before.length := by
  induction before with
  | nil => rw [List.nil_append, rfind, rfind_eq_none h, if_pos rfl, List.length_nil]
  | cons c before ih => rw [List.cons_append, rfind, ih, List.length_cons]

theorem parentPath_snoc {segments : List (List α)} {segment : List α}
    (h : ∀ s ∈ segments ++ [segment], IsSegment sep s) :
    parentPath sep (join sep (segments ++ [segment])) = join sep segments := by
  have hsegment := h segment (by simp)
  rw [join_snoc]
  by_cases hnil : join sep segments = []
  · rw [hnil, parentPath, show extend sep [] segment = segment from rfl,
      rfind_eq_none hsegment.2]
  · rw [extend_of_ne_nil hnil, parentPath, rfind_append hsegment.2]
    exact List.take_left

theorem browseName_snoc {segments : List (List α)} {segment : List α}
    (h : ∀ s ∈ segments ++ [segment], IsSegment sep s) :
    browseName sep (join sep (segments ++ [segment])) = segment := by
  have hsegment := h segment (by simp)
  rw [join_snoc]
  by_cases hnil : join sep segments = []
  · rw [hnil, browseName, show extend sep [] segment = segment from rfl, rfind_eq_none hsegment.2]
  · rw [extend_of_ne_nil hnil, browseName, rfind_append hsegment.2]
    simp

end SegmentPath
