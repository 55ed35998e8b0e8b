import Mathlib.Algebra.Ring.Int.Defs
import Mathlib.Data.Finset.Max
import Mathlib.Data.Finset.Card
import Mathlib.Data.List.Sort

/-! Ranges of integers, and what a list of them covers. Two ways to look at a list without
forming its union: neighbours in the order of their starts, which show a gap where one ends
before the next begins, and the sum of the lengths. Each is right only for some lists, and
these are characterised here. -/

namespace OpcServer.Coverage

variable {α : Type*} (start stop : α → ℤ)

/-- A position is in one of the ranges. -/
def Covered (l : List α) (r : ℤ) : Prop := ∃ a ∈ l, start a ≤ r ∧ r < stop a

instance (l : List α) (r : ℤ) : Decidable (Covered start stop l r) :=
  inferInstanceAs (Decidable (∃ a ∈ l, _))

/-- A maximal run `[a, b)` of positions in no range, between two positions that are in one. -/
structure IsGap (l : List α) (a b : ℤ) : Prop where
  lt : a < b
  before : Covered start stop l (a - 1)
  outside : ∀ r, a ≤ r → r < b → ¬ Covered start stop l r
  after : Covered start stop l b

variable {start stop} {l : List α}

/-- A gap ends where a range starts, and begins where the last of those ends that start
before it. -/
theorem isGap_iff (hne : ∀ a ∈ l, start a < stop a) {a b : ℤ} :
    IsGap start stop l a b ↔ a < b ∧ (∃ t ∈ l, start t = b) ∧
      (∃ p ∈ l, start p < b ∧ stop p = a) ∧ ∀ u ∈ l, start u < b → stop u ≤ a := by
  constructor
  · intro h
    have hlt := h.lt
    refine ⟨hlt, ?_, ?_, ?_⟩
    · obtain ⟨t, ht, hstart, hstop⟩ := h.after
      refine ⟨t, ht, ?_⟩
      by_contra hneq
      exact h.outside (b - 1) (by omega) (by omega) ⟨t, ht, by omega, by omega⟩
    · obtain ⟨p, hp, hstart, hstop⟩ := h.before
      refine ⟨p, hp, by omega, ?_⟩
      by_contra hneq
      exact h.outside a (by omega) hlt ⟨p, hp, by omega, by omega⟩
    · intro u hu hstart
      by_contra hstop
      have hu' := hne u hu
      exact h.outside (max a (start u)) (by omega) (by omega) ⟨u, hu, by omega, by omega⟩
  · rintro ⟨hlt, ⟨t, ht, rfl⟩, ⟨p, hp, hstart, rfl⟩, hall⟩
    refine ⟨hlt, ⟨p, hp, ?_⟩, ?_, ⟨t, ht, le_rfl, hne t ht⟩⟩
    · have hp' := hne p hp
      omega
    · rintro r hr hr' ⟨u, hu, hustart, hustop⟩
      have hle := hall u hu (by omega)
      omega

/-! ### Neighbours -/

/-- Each element with the next one. -/
def neighbours : List α → List (α × α)
  | p :: t :: rest => (p, t) :: neighbours (t :: rest)
  | _ => []

theorem mem_of_mem_neighbours {p t : α} (h : (p, t) ∈ neighbours l) : p ∈ l ∧ t ∈ l := by
  induction l with
  | nil => cases h
  | cons a l ih =>
    cases l with
    | nil => cases h
    | cons b l =>
      rcases List.mem_cons.mp h with h | h
      · cases h
        exact ⟨List.mem_cons_self, List.mem_cons_of_mem _ List.mem_cons_self⟩
      · obtain ⟨hp, ht⟩ := ih h
        exact ⟨List.mem_cons_of_mem _ hp, List.mem_cons_of_mem _ ht⟩

theorem mem_neighbours_append (l₁ l₂ : List α) (p t : α) :
    (p, t) ∈ neighbours (l₁ ++ p :: t :: l₂) := by
  induction l₁ with
  | nil => exact List.mem_cons_self
  | cons a l₁ ih =>
    cases l₁ with
    | nil => exact List.mem_cons_of_mem _ ih
    | cons b l₁ => exact List.mem_cons_of_mem _ ih

/-- In the order of the starts nothing starts between two neighbours. -/
theorem start_of_mem_neighbours (hsorted : l.Pairwise (start · ≤ start ·)) {p t : α}
    (h : (p, t) ∈ neighbours l) : ∀ u ∈ l, start u ≤ start p ∨ start t ≤ start u := by
  induction l with
  | nil => cases h
  | cons a l ih =>
    cases l with
    | nil => cases h
    | cons b l =>
      obtain ⟨hhead, htail⟩ := List.pairwise_cons.mp hsorted
      intro u hu
      rcases List.mem_cons.mp h with heq | hrest
      · cases heq
        rcases List.mem_cons.mp hu with rfl | hu
        · exact .inl le_rfl
        · rcases List.mem_cons.mp hu with rfl | hu
          · exact .inr le_rfl
          · exact .inr ((List.pairwise_cons.mp htail).1 u hu)
      · rcases List.mem_cons.mp hu with rfl | hu
        · exact .inl (hhead p (mem_of_mem_neighbours hrest).1)
        · exact ih htail hrest u hu

/-- Between an element that starts before a position and one that does not, two neighbours
do the same. -/
theorem exists_neighbours {b : ℤ} (hbefore : ∃ p ∈ l, start p < b) (hafter : ∃ t ∈ l, b ≤ start t)
    (hsorted : l.Pairwise (start · ≤ start ·)) :
    ∃ p t, (p, t) ∈ neighbours l ∧ start p < b ∧ b ≤ start t := by
  induction l with
  | nil =>
    obtain ⟨p, hp, -⟩ := hbefore
    cases hp
  | cons a l ih =>
    obtain ⟨hhead, htail⟩ := List.pairwise_cons.mp hsorted
    -- the head starts before the position, as nothing in the tail starts earlier
    have ha : start a < b := by
      obtain ⟨p, hp, hlt⟩ := hbefore
      rcases List.mem_cons.mp hp with rfl | hp
      · exact hlt
      · exact (hhead p hp).trans_lt hlt
    obtain ⟨t, ht, hle⟩ := hafter
    have ht' : t ∈ l := (List.mem_cons.mp ht).resolve_left (by rintro rfl; omega)
    cases l with
    | nil => cases ht'
    | cons c l =>
      by_cases hc : start c < b
      · obtain ⟨p, t, hmem, hlt, hle⟩ := ih ⟨c, List.mem_cons_self, hc⟩ ⟨t, ht', hle⟩ htail
        exact ⟨p, t, List.mem_cons_of_mem _ hmem, hlt, hle⟩
      · exact ⟨a, c, List.mem_cons_self, ha, not_lt.mp hc⟩

theorem le_start_of_mem_neighbours {c : α} (hsorted : (c :: l).Pairwise (start · ≤ start ·))
    {p t : α} (h : (p, t) ∈ neighbours (c :: l)) : start c ≤ start p := by
  rcases List.mem_cons.mp (mem_of_mem_neighbours h).1 with rfl | hmem
  · exact le_rfl
  · exact (List.pairwise_cons.mp hsorted).1 p hmem

/-- There is one pair of neighbours that starts on both sides of a position. -/
theorem neighbours_unique {b : ℤ} (hsorted : l.Pairwise (start · ≤ start ·)) {p t p' t' : α}
    (h : (p, t) ∈ neighbours l) (hp : start p < b) (ht : b ≤ start t)
    (h' : (p', t') ∈ neighbours l) (hp' : start p' < b) (ht' : b ≤ start t') :
    p = p' ∧ t = t' := by
  induction l with
  | nil => cases h
  | cons a l ih =>
    cases l with
    | nil => cases h
    | cons c l =>
      obtain ⟨-, htail⟩ := List.pairwise_cons.mp hsorted
      rcases List.mem_cons.mp h with heq | hrest
      · cases heq
        rcases List.mem_cons.mp h' with heq' | hrest'
        · cases heq'
          exact ⟨rfl, rfl⟩
        · have hle := le_start_of_mem_neighbours htail hrest'
          omega
      · rcases List.mem_cons.mp h' with heq' | hrest'
        · cases heq'
          have hle := le_start_of_mem_neighbours htail hrest
          omega
        · exact ih htail hrest hrest'

/-! ### Gaps seen between neighbours -/

variable (start stop) in
/-- Neighbours of which one ends before the next begins, by at most `width`. -/
def gapsBetween (width : ℤ) (l : List α) : List (α × α) :=
  (neighbours l).filter fun e => stop e.1 < start e.2 ∧ start e.2 - stop e.1 ≤ width

variable (start stop) in
/-- The pairs of neighbours are those around the gaps up to a width, once for each. -/
structure ExactGaps (width : ℤ) (l : List α) (pairs : List (α × α)) : Prop where
  nodup : (pairs.map fun e => (stop e.1, start e.2)).Nodup
  mem_iff : ∀ a b, (a, b) ∈ pairs.map (fun e => (stop e.1, start e.2)) ↔
    IsGap start stop l a b ∧ b - a ≤ width

variable (start stop) in
/-- Of a range and one that starts last before it: if that ends before it, so do all that
start before, unless no gap of at most `width` is there and none is seen. -/
def GapsBounded (width : ℤ) (l : List α) : Prop :=
  ∀ p ∈ l, ∀ t ∈ l, start p < start t → (∀ u ∈ l, start u ≤ start p ∨ start t ≤ start u) →
    stop p < start t →
    (∀ u ∈ l, start u < start t → stop u ≤ stop p) ∨
      (width < start t - stop p ∧ ((∃ u ∈ l, start u < start t ∧ start t ≤ stop u) ∨
        ∀ u ∈ l, start u < start t → width < start t - stop u))

theorem mem_gapsBetween {width : ℤ} {p t : α} :
    (p, t) ∈ gapsBetween start stop width l ↔
      (p, t) ∈ neighbours l ∧ stop p < start t ∧ start t - stop p ≤ width := by
  simp [gapsBetween]

theorem gapsBetween_cons_cons (width : ℤ) (p t : α) (l : List α) :
    gapsBetween start stop width (p :: t :: l) =
      (if stop p < start t ∧ start t - stop p ≤ width then [(p, t)] else []) ++
        gapsBetween start stop width (t :: l) := by
  unfold gapsBetween
  rw [neighbours, List.filter_cons]
  by_cases h : stop p < start t ∧ start t - stop p ≤ width
  · rw [if_pos (by simpa using h), if_pos h]
    rfl
  · rw [if_neg (by simpa using h), if_neg h]
    rfl

/-- The gaps seen between neighbours begin at different positions. -/
theorem gapsBetween_nodup (hne : ∀ a ∈ l, start a < stop a)
    (hsorted : l.Pairwise (start · ≤ start ·)) (width : ℤ) :
    ((gapsBetween start stop width l).map fun e => (stop e.1, start e.2)).Nodup := by
  induction l with
  | nil => exact List.nodup_nil
  | cons a l ih =>
    cases l with
    | nil => exact List.nodup_nil
    | cons c l =>
      obtain ⟨-, htail⟩ := List.pairwise_cons.mp hsorted
      have hrest := ih (fun x hx => hne x (List.mem_cons_of_mem _ hx)) htail
      rw [gapsBetween_cons_cons]
      split_ifs with hgap
      · rw [List.singleton_append, List.map_cons, List.nodup_cons]
        refine ⟨fun hmem => ?_, hrest⟩
        -- a later gap ends after the start of `c`
        obtain ⟨⟨q, u⟩, hq, heq⟩ := List.mem_map.mp hmem
        obtain ⟨hq, hlt, -⟩ := mem_gapsBetween.mp hq
        have hfirst := le_start_of_mem_neighbours htail hq
        have hqne := hne q (List.mem_cons_of_mem _ (mem_of_mem_neighbours hq).1)
        have hstart : start u = start c := (Prod.mk.inj heq).2
        omega
      · exact hrest

/-- A gap lies between the neighbours around its end. -/
theorem exactGaps_of_bounded {sorted : List α} (hperm : sorted.Perm l)
    (hsorted : sorted.Pairwise (start · ≤ start ·)) (hne : ∀ a ∈ l, start a < stop a) {width : ℤ}
    (h : GapsBounded start stop width l) :
    ExactGaps start stop width l (gapsBetween start stop width sorted) := by
  refine ⟨gapsBetween_nodup (fun a ha => hne a (hperm.mem_iff.mp ha)) hsorted width, ?_⟩
  have hbetween : ∀ {p t}, (p, t) ∈ neighbours sorted → p ∈ l ∧ t ∈ l ∧
      ∀ u ∈ l, start u ≤ start p ∨ start t ≤ start u := fun {p t} hmem =>
    ⟨hperm.mem_iff.mp (mem_of_mem_neighbours hmem).1,
      hperm.mem_iff.mp (mem_of_mem_neighbours hmem).2, fun u hu =>
        start_of_mem_neighbours hsorted hmem u (hperm.mem_iff.mpr hu)⟩
  intro a b
  rw [List.mem_map]
  constructor
  · rintro ⟨⟨p, t⟩, hmem, heq⟩
    obtain ⟨rfl, rfl⟩ := Prod.mk.inj heq
    obtain ⟨hmem, hlt, hwidth⟩ := mem_gapsBetween.mp hmem
    obtain ⟨hp, ht, hnone⟩ := hbetween hmem
    have hpne := hne p hp
    rcases h p hp t ht (by omega) hnone hlt with hall | ⟨hwide, -⟩
    · have hplt : start p < start t := by omega
      exact ⟨(isGap_iff hne).mpr ⟨hlt, ⟨t, ht, rfl⟩, ⟨p, hp, hplt, rfl⟩, hall⟩, hwidth⟩
    · omega
  · rintro ⟨hgap, hwidth⟩
    obtain ⟨hlt, ⟨t₀, ht₀, hb⟩, ⟨p₀, hp₀, hp₀lt, ha⟩, hall⟩ := (isGap_iff hne).mp hgap
    obtain ⟨p, t, hmem, hplt, htle⟩ := exists_neighbours
      ⟨p₀, hperm.mem_iff.mpr hp₀, hp₀lt⟩ ⟨t₀, hperm.mem_iff.mpr ht₀, hb.ge⟩ hsorted
    obtain ⟨hp, ht, hnone⟩ := hbetween hmem
    -- the neighbour after the gap starts at its end
    have htb : start t = b := by
      rcases hnone t₀ ht₀ with hle | hle <;> omega
    have hstop := hall p hp hplt
    have hpa : stop p = a := by
      rcases h p hp t ht (by omega) hnone (by omega) with hlast | ⟨-, ⟨u, hu, hult, hule⟩ | hwide⟩
      · have hle := hlast p₀ hp₀ (by omega)
        omega
      · have hle := hall u hu (by omega)
        omega
      · have hgt := hwide p₀ hp₀ (by omega)
        omega
    refine ⟨(p, t), mem_gapsBetween.mpr ⟨hmem, by omega, by omega⟩, ?_⟩
    rw [hpa, htb]

variable (start) in
/-- A list in the order of the starts. -/
def byStart (l : List α) : List α := l.mergeSort fun a b => start a ≤ start b

theorem byStart_perm (l : List α) : (byStart start l).Perm l := List.mergeSort_perm _ _

theorem byStart_sorted (l : List α) : (byStart start l).Pairwise (start · ≤ start ·) := by
  have hpair : (byStart start l).Pairwise fun a b => decide (start a ≤ start b) = true :=
    List.pairwise_mergeSort
      (fun a b c hab hbc => by simp only [decide_eq_true_eq] at *; omega)
      (fun a b => by simp only [Bool.or_eq_true, decide_eq_true_eq]; omega) l
  exact hpair.imp fun h => by simpa using h

/-- An element goes after those that do not start later. -/
theorem sorted_insert {others : List α} (hsorted : others.Pairwise (start · ≤ start ·)) (p : α) :
    (others.filter (fun u => decide (start u ≤ start p)) ++
      p :: others.filter fun u => !decide (start u ≤ start p)).Pairwise (start · ≤ start ·) := by
  have hlater : ∀ u ∈ others.filter (fun u => !decide (start u ≤ start p)), start p ≤ start u := by
    intro u hu
    have hlt : start p < start u := by simpa using (List.mem_filter.mp hu).2
    exact hlt.le
  refine List.pairwise_append.mpr ⟨hsorted.sublist List.filter_sublist,
    List.pairwise_cons.mpr ⟨hlater, hsorted.sublist List.filter_sublist⟩, ?_⟩
  intro a ha b hb
  have hap : start a ≤ start p := by simpa using (List.mem_filter.mp ha).2
  rcases List.mem_cons.mp hb with rfl | hb
  · exact hap
  · exact hap.trans (hlater b hb)

/-- Any range can be put last among those with its start. -/
theorem exists_sorted_last [DecidableEq α] {p t : α} (hp : p ∈ l) (ht : t ∈ l)
    (hlt : start p < start t) (hnone : ∀ u ∈ l, start u ≤ start p ∨ start t ≤ start u) :
    ∃ sorted : List α, sorted.Perm l ∧ sorted.Pairwise (start · ≤ start ·) ∧
      ∃ t', (p, t') ∈ neighbours sorted ∧ start t' = start t := by
  obtain ⟨others, hothers, hsorted⟩ : ∃ others : List α, others.Perm (l.erase p) ∧
      others.Pairwise (start · ≤ start ·) := ⟨_, byStart_perm _, byStart_sorted _⟩
  have hlaterSorted := hsorted.sublist (List.filter_sublist (p := fun u => !decide (start u ≤ start p)))
  have htmem : t ∈ others.filter (fun u => !decide (start u ≤ start p)) := by
    have hne : t ≠ p := by rintro rfl; omega
    exact List.mem_filter.mpr
      ⟨hothers.mem_iff.mpr ((List.mem_erase_of_ne hne).mpr ht), by simpa using hlt⟩
  obtain ⟨t', rest, hlater⟩ := List.exists_cons_of_ne_nil (List.ne_nil_of_mem htmem)
  have ht' : t' ∈ others.filter (fun u => !decide (start u ≤ start p)) := by
    rw [hlater]
    exact List.mem_cons_self
  refine ⟨_, ?_, sorted_insert hsorted p, t', ?_, ?_⟩
  · have hsplit := List.filter_append_perm (fun u => decide (start u ≤ start p)) others
    have hall := (hsplit.trans hothers).cons p
    exact (List.perm_middle.trans hall).trans (List.perm_cons_erase hp).symm
  · rw [hlater]
    exact mem_neighbours_append _ _ p t'
  · rw [hlater] at htmem hlaterSorted
    have hle : start t' ≤ start t := by
      rcases List.mem_cons.mp htmem with rfl | hmem
      · exact le_rfl
      · exact (List.pairwise_cons.mp hlaterSorted).1 t hmem
    obtain ⟨hmem, hgt⟩ := List.mem_filter.mp ht'
    have hgt' : start p < start t' := by simpa using hgt
    rcases hnone t' (List.mem_of_mem_erase (hothers.mem_iff.mp hmem)) with hle' | hge <;> omega

variable (stop) in
/-- Of the ranges that start before a position one ends last. -/
theorem exists_last_stop [DecidableEq α] {b : ℤ} (hbefore : ∃ p ∈ l, start p < b) :
    ∃ m ∈ l, start m < b ∧ ∀ u ∈ l, start u < b → stop u ≤ stop m := by
  obtain ⟨p, hp, hlt⟩ := hbefore
  obtain ⟨m, hm, hmax⟩ := (l.toFinset.filter (start · < b)).exists_max_image stop
    ⟨p, by simpa using ⟨hp, hlt⟩⟩
  simp only [Finset.mem_filter, List.mem_toFinset] at hm hmax
  exact ⟨m, hm.1, hm.2, fun u hu hult => hmax u ⟨hu, hult⟩⟩

/-- Conversely, if the gaps are seen in every order, the ends are bounded. -/
theorem bounded_of_exactGaps [DecidableEq α] (hne : ∀ a ∈ l, start a < stop a) {width : ℤ}
    (h : ∀ sorted : List α, sorted.Perm l → sorted.Pairwise (start · ≤ start ·) →
      ExactGaps start stop width l (gapsBetween start stop width sorted)) :
    GapsBounded start stop width l := by
  intro p hp t ht hlt hnone hgap
  obtain ⟨sorted, hperm, hsorted, t', hmem, hstart⟩ := exists_sorted_last hp ht hlt hnone
  have hexact := h sorted hperm hsorted
  by_cases hwidth : start t - stop p ≤ width
  · -- the gap is seen, so it is one
    have hseen : (stop p, start t) ∈ (gapsBetween start stop width sorted).map
        (fun e => (stop e.1, start e.2)) :=
      List.mem_map.mpr ⟨(p, t'), mem_gapsBetween.mpr ⟨hmem, by omega, by omega⟩, by rw [hstart]⟩
    obtain ⟨-, -, -, hall⟩ := (isGap_iff hne).mp ((hexact.mem_iff _ _).mp hseen).1
    exact .inl hall
  · by_cases hreach : ∃ u ∈ l, start u < start t ∧ start t ≤ stop u
    · exact .inr ⟨by omega, .inl hreach⟩
    · -- the range that ends last of those before begins a gap
      obtain ⟨m, hm, hmlt, hmax⟩ := exists_last_stop stop ⟨p, hp, hlt⟩
      have hmstop : stop m < start t := by
        by_contra hnot
        exact hreach ⟨m, hm, hmlt, not_lt.mp hnot⟩
      have hisGap : IsGap start stop l (stop m) (start t) :=
        (isGap_iff hne).mpr ⟨hmstop, ⟨t, ht, rfl⟩, ⟨m, hm, hmlt, rfl⟩, hmax⟩
      by_cases hmwidth : start t - stop m ≤ width
      · obtain ⟨⟨q, u⟩, hseen, heq⟩ := List.mem_map.mp
          ((hexact.mem_iff _ _).mpr ⟨hisGap, hmwidth⟩)
        obtain ⟨hqstop, hustart⟩ := Prod.mk.inj heq
        have hq := (mem_gapsBetween.mp hseen).1
        have hqne := hne q (hperm.mem_iff.mp (mem_of_mem_neighbours hq).1)
        dsimp only at hqstop hustart
        obtain ⟨rfl, -⟩ := neighbours_unique hsorted hmem hlt hstart.ge hq (by omega) hustart.ge
        exact .inl fun u hu hult => (hmax u hu hult).trans hqstop.ge
      · refine .inr ⟨by omega, .inr fun u hu hult => ?_⟩
        have hle := hmax u hu hult
        omega

/-! ### Lengths inside a window -/

/-- The positions of `[lo, hi)`. -/
def window (lo hi : ℤ) : Finset ℤ :=
  (Finset.range (hi - lo).toNat).map
    ⟨fun i : ℕ => lo + i, fun _ _ h => Int.ofNat.inj (Int.add_left_cancel h)⟩

@[simp] theorem mem_window {lo hi r : ℤ} : r ∈ window lo hi ↔ lo ≤ r ∧ r < hi := by
  simp only [window, Finset.mem_map, Finset.mem_range]
  constructor
  · rintro ⟨i, hlt, heq⟩
    have hr : lo + (i : ℤ) = r := heq
    omega
  · intro h
    have hr : lo + ((r - lo).toNat : ℤ) = r := by omega
    exact ⟨(r - lo).toNat, by omega, hr⟩

theorem card_window (lo hi : ℤ) : (window lo hi).card = (hi - lo).toNat := by
  rw [window, Finset.card_map, Finset.card_range]

variable (start stop) in
/-- Length of a range inside `[lo, hi)`. -/
def overlap (lo hi : ℤ) (a : α) : ℤ := max 0 (min (stop a) hi - max (start a) lo)

variable (start stop) in
/-- The positions of `[lo, hi)` in one of the ranges. -/
def coveredIn (lo hi : ℤ) (l : List α) : Finset ℤ :=
  (window lo hi).filter (Covered start stop l)

variable (start stop) in
/-- The positions of `[lo, hi)` are each in at most one of the ranges. -/
def CoveredOnce (lo hi : ℤ) (l : List α) : Prop :=
  l.Pairwise fun a b => ∀ r, lo ≤ r → r < hi →
    ¬ ((start a ≤ r ∧ r < stop a) ∧ start b ≤ r ∧ r < stop b)

theorem overlap_eq_card (lo hi : ℤ) (a : α) :
    overlap start stop lo hi a = (window (max (start a) lo) (min (stop a) hi)).card := by
  rw [card_window, overlap]
  omega

@[simp] theorem coveredIn_nil (lo hi : ℤ) : coveredIn start stop lo hi [] = ∅ := by
  rw [coveredIn, Finset.filter_eq_empty_iff]
  rintro r - ⟨a, ha, -⟩
  cases ha

theorem coveredIn_cons (lo hi : ℤ) (a : α) (l : List α) :
    coveredIn start stop lo hi (a :: l) =
      window (max (start a) lo) (min (stop a) hi) ∪ coveredIn start stop lo hi l := by
  ext r
  simp only [coveredIn, Covered, List.mem_cons, exists_eq_or_imp, Finset.mem_filter,
    Finset.mem_union, mem_window]
  constructor
  · rintro ⟨hr, ha | hl⟩
    · exact .inl (by omega)
    · exact .inr ⟨hr, hl⟩
  · rintro (ha | ⟨hr, hl⟩)
    · exact ⟨by omega, .inl (by omega)⟩
    · exact ⟨hr, .inr hl⟩

theorem disjoint_coveredIn_iff (lo hi : ℤ) (a : α) (l : List α) :
    Disjoint (window (max (start a) lo) (min (stop a) hi)) (coveredIn start stop lo hi l) ↔
      ∀ b ∈ l, ∀ r, lo ≤ r → r < hi →
        ¬ ((start a ≤ r ∧ r < stop a) ∧ start b ≤ r ∧ r < stop b) := by
  rw [Finset.disjoint_left]
  simp only [coveredIn, Covered, Finset.mem_filter, mem_window]
  constructor
  · rintro h b hb r hlo hhi ⟨ha, hrb⟩
    exact h (a := r) (by omega) ⟨⟨hlo, hhi⟩, b, hb, hrb⟩
  · rintro h r hr ⟨⟨hlo, hhi⟩, b, hb, hrb⟩
    exact h b hb r hlo hhi ⟨by omega, hrb⟩

/-- The lengths add up to at least the number of positions. -/
theorem card_le_sum (lo hi : ℤ) (l : List α) :
    ((coveredIn start stop lo hi l).card : ℤ) ≤ (l.map (overlap start stop lo hi)).sum := by
  induction l with
  | nil => simp
  | cons a l ih =>
    have hunion := Finset.card_union_le (window (max (start a) lo) (min (stop a) hi))
      (coveredIn start stop lo hi l)
    rw [coveredIn_cons, List.map_cons, List.sum_cons, overlap_eq_card]
    omega

/-- They add up to the number of positions exactly if none is in two ranges. -/
theorem sum_eq_card_iff (lo hi : ℤ) (l : List α) :
    (l.map (overlap start stop lo hi)).sum = (coveredIn start stop lo hi l).card ↔
      CoveredOnce start stop lo hi l := by
  unfold CoveredOnce
  induction l with
  | nil => simp
  | cons a l ih =>
    rw [coveredIn_cons, List.map_cons, List.sum_cons, overlap_eq_card, List.pairwise_cons, ← ih,
      ← disjoint_coveredIn_iff, ← Finset.card_union_eq_card_add_card]
    have hle : ((coveredIn start stop lo hi l).card : ℤ) ≤ _ := card_le_sum lo hi l
    have hunion := Finset.card_union_le (window (max (start a) lo) (min (stop a) hi))
      (coveredIn start stop lo hi l)
    omega

end OpcServer.Coverage
