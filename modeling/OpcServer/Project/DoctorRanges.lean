import OpcServer.Project.Consistency
import OpcServer.Project.Doctor

/-! What the diagnostics say of ranges. Gaps are looked for between neighbours in the order
of their starts, which misses that an earlier tag may end later; the registers of a block
that map to tags are added up tag by tag, which counts a register twice where tags overlap.
Both are right exactly for the projects without such overlaps. -/

namespace OpcServer.Project

open Domain Coverage

/-! ### Positions -/

/-- What is selected from the results for all positions, where only one of them has it. -/
theorem filterMap_flatten_mapIdx {α β γ : Type} {l : List α} {i : ℕ} {a : α} (h : l[i]? = some a)
    (f : ℕ → α → List β) (select : β → Option γ)
    (hother : ∀ j x, j ≠ i → (f j x).filterMap select = []) :
    ((l.mapIdx f).flatten).filterMap select = (f i a).filterMap select := by
  induction l generalizing i f with
  | nil => cases h
  | cons x l ih =>
    rw [List.mapIdx_cons, List.flatten_cons, List.filterMap_append]
    cases i with
    | zero =>
      obtain rfl : x = a := by simpa using h
      have hrest : ((l.mapIdx fun j => f (j + 1)).flatten).filterMap select = [] := by
        rw [List.filterMap_flatten, List.flatten_eq_nil_iff]
        intro s hs
        obtain ⟨r, hr, rfl⟩ := List.mem_map.mp hs
        obtain ⟨j, hj, rfl⟩ := List.mem_mapIdx.mp hr
        exact hother (j + 1) _ (by omega)
      rw [hrest, List.append_nil]
    | succ i =>
      rw [hother 0 x (by omega), List.nil_append]
      exact ih (by simpa using h) (fun j => f (j + 1)) fun j y hj => hother (j + 1) y (by omega)

/-- The gaps that are reported for an area of a device. -/
def gapsOf (di : ℕ) (area : Area) (fs : List Finding) : List (ℤ × Span × Span) :=
  fs.filterMap fun
    | .gap i a hole p t => if i = di ∧ a = area then some (hole, p, t) else none
    | _ => none

theorem gapsOf_append (di : ℕ) (area : Area) (fs gs : List Finding) :
    gapsOf di area (fs ++ gs) = gapsOf di area fs ++ gapsOf di area gs :=
  List.filterMap_append

/-- The gaps between neighbours, as they are reported. -/
def neighbourGaps (spans : List Span) : List (ℤ × Span × Span) :=
  (gapsBetween Span.start Span.stop 8 spans).map fun e => (e.2.start - e.1.stop, e.1, e.2)

theorem gapsOf_holesBetween (di i : ℕ) (area area' : Area) (spans : List Span) :
    gapsOf di area (holesBetween i area' spans) =
      if i = di ∧ area' = area then neighbourGaps spans else [] := by
  rw [holesBetween_eq, gapsOf, List.filterMap_map]
  split_ifs with hplace
  · rw [neighbourGaps, ← List.filterMap_eq_map]
    apply List.filterMap_congr
    intro e _
    simp [hplace]
  · rw [List.filterMap_eq_nil_iff]
    intro e _
    simp [hplace]

theorem gapsOf_checkOverlaps (di i : ℕ) (area area' : Area) (spans : List Span) :
    gapsOf di area (checkOverlaps i area' spans) = [] := by
  induction spans with
  | nil => rfl
  | cons a rest ih =>
    rw [checkOverlaps, gapsOf_append, ih, List.append_nil, gapsOf, List.filterMap_map]
    exact List.filterMap_eq_nil_iff.mpr fun _ _ => rfl

/-- What `std::sort` does: it permutes the spans and leaves none before one that starts
earlier. -/
def Sorts (sort : List Span → List Span) : Prop :=
  ∀ spans, (sort spans).Perm spans ∧ (sort spans).Pairwise (·.start ≤ ·.start)

theorem gapsOf_checkHoles {sort : List Span → List Span} (hsort : Sorts sort) (di i : ℕ)
    (area area' : Area) (spans : List Span) :
    gapsOf di area (checkHoles sort i area' spans) =
      if i = di ∧ area' = area then neighbourGaps (sort spans) else [] := by
  unfold checkHoles
  split_ifs with hlen hplace hplace
  · -- fewer than two spans have no neighbours
    have hlen' := (hsort spans).1.length_eq
    match hsorted : sort spans, (by omega : (sort spans).length < 2) with
    | [], _ => rfl
    | [_], _ => rfl
  · rfl
  · rw [gapsOf_holesBetween, if_pos hplace]
  · rw [gapsOf_holesBetween, if_neg hplace]

/-- Spans that start one after the other are already sorted. -/
theorem sort_eq_self {sort : List Span → List Span} (hsort : Sorts sort) {spans : List Span}
    (hlt : spans.Pairwise (·.start < ·.start)) : sort spans = spans := by
  obtain ⟨hperm, hsorted⟩ := hsort spans
  refine hperm.eq_of_pairwise (fun a b ha hb hab hba => ?_) hsorted (hlt.imp le_of_lt)
  have hnodup : (spans.map Span.start).Nodup :=
    List.pairwise_map.mpr (hlt.imp ne_of_lt)
  exact List.inj_on_of_nodup_map hnodup (hperm.mem_iff.mp ha) hb (le_antisymm hab hba)

section Devices
variable [Platform]

theorem gapsOf_areaFindings {sort : List Span → List Span} (hsort : Sorts sort) (di i : ℕ)
    (area area' : Area) (device : Device) :
    gapsOf di area (areaFindings sort i device area') =
      if i = di ∧ area' = area then neighbourGaps (sort (spansOf device area')) else [] := by
  rw [areaFindings, gapsOf_append, gapsOf_checkOverlaps, List.nil_append, gapsOf_checkHoles hsort]

theorem gapsOf_tagFindings (di i ti : ℕ) (area : Area) (polled : List String) (device : Device)
    (tag : Tag) : gapsOf di area (tagFindings polled i device ti tag) = [] := by
  unfold tagFindings
  rw [gapsOf_append]
  split_ifs <;> rfl

theorem gapsOf_deviceFindings {sort : List Span → List Span} (hsort : Sorts sort) (di i : ℕ)
    (area : Area) (polled : List String) (device : Device) :
    gapsOf di area (deviceFindings sort polled i device) =
      if i = di then neighbourGaps (sort (spansOf device area)) else [] := by
  have htags : gapsOf di area (device.tags.mapIdx (tagFindings polled i device)).flatten = [] := by
    rw [gapsOf, List.filterMap_flatten, List.flatten_eq_nil_iff]
    intro fs hfs
    obtain ⟨gs, hgs, rfl⟩ := List.mem_map.mp hfs
    obtain ⟨ti, hti, rfl⟩ := List.mem_mapIdx.mp hgs
    exact gapsOf_tagFindings di i ti area polled device _
  rw [deviceFindings, gapsOf_append, htags, List.nil_append]
  simp only [List.flatMap_cons, List.flatMap_nil, gapsOf_append, gapsOf_areaFindings hsort]
  by_cases hi : i = di
  · cases area <;> simp [hi, gapsOf]
  · simp [hi, gapsOf]

theorem gapsOf_groupFindings (di gi : ℕ) (area : Area) (project : Project) (group : PollGroup) :
    gapsOf di area (groupFindings project gi group) = [] := by
  rw [gapsOf, List.filterMap_eq_nil_iff]
  intro f hf
  rcases mem_groupFindings.mp hf with ⟨rfl, -⟩ | ⟨bi, block, -, hf⟩
  · rfl
  · rcases mem_blockFindings.mp hf with ⟨rfl, -⟩ | ⟨device, -, rfl, -⟩
    · rfl
    · rfl

/-- The gaps reported for an area of a device are those between the neighbours. -/
theorem gapsOf_findings {sort : List Span → List Span} (hsort : Sorts sort) {project : Project}
    {di : ℕ} {device : Device} (hdevice : project.devices[di]? = some device) (area : Area) :
    gapsOf di area (findings sort project) = neighbourGaps (sort (spansOf device area)) := by
  have hgroups : gapsOf di area (project.pollGroups.mapIdx (groupFindings project)).flatten = [] := by
    rw [gapsOf, List.filterMap_flatten, List.flatten_eq_nil_iff]
    intro fs hfs
    obtain ⟨gs, hgs, rfl⟩ := List.mem_map.mp hfs
    obtain ⟨gi, hgi, rfl⟩ := List.mem_mapIdx.mp hgs
    exact gapsOf_groupFindings di gi area project _
  rw [findings, gapsOf_append, hgroups, List.append_nil, gapsOf,
    filterMap_flatten_mapIdx hdevice _ _ fun i d hi => ?_]
  · exact (gapsOf_deviceFindings hsort di di area _ device).trans (if_pos rfl)
  · exact (gapsOf_deviceFindings hsort di i area _ d).trans (if_neg hi)

/-! ### Gaps -/

theorem spansOf_nonempty (device : Device) (area : Area) :
    ∀ s ∈ spansOf device area, s.start < s.stop := by
  intro s hs
  obtain ⟨tag, -, rfl⟩ := List.mem_map.mp hs
  show tag.address < tag.address + max 1 (regsFor tag)
  omega

omit [Platform] in
theorem sorts_byStart : Sorts (byStart Span.start) := fun spans =>
  ⟨byStart_perm spans, byStart_sorted spans⟩

omit [Platform] in
/-- Any order of some spans is one that `std::sort` may give. -/
theorem exists_sorts {spans sorted : List Span} (hperm : sorted.Perm spans)
    (hsorted : sorted.Pairwise (·.start ≤ ·.start)) :
    ∃ sort, Sorts sort ∧ sort spans = sorted := by
  refine ⟨fun l => if l = spans then sorted else byStart Span.start l, fun l => ?_, if_pos rfl⟩
  dsimp only
  split_ifs with h
  · exact ⟨h ▸ hperm, hsorted⟩
  · exact sorts_byStart l

/-- The reported gaps are those of up to eight registers, once each and with their sizes. -/
structure GapsReported (spans : List Span) (gaps : List (ℤ × Span × Span)) : Prop where
  size : ∀ e ∈ gaps, e.1 = e.2.2.start - e.2.1.stop
  exact : ExactGaps Span.start Span.stop 8 spans (gaps.map Prod.snd)

omit [Platform] in
theorem gapsReported_neighbourGaps {spans sorted : List Span} :
    GapsReported spans (neighbourGaps sorted) ↔
      ExactGaps Span.start Span.stop 8 spans (gapsBetween Span.start Span.stop 8 sorted) := by
  have hpairs : (neighbourGaps sorted).map Prod.snd = gapsBetween Span.start Span.stop 8 sorted := by
    rw [neighbourGaps, List.map_map]
    exact List.map_id _
  constructor
  · intro h
    exact hpairs ▸ h.exact
  · intro h
    refine ⟨fun e he => ?_, hpairs.symm ▸ h⟩
    obtain ⟨pair, -, rfl⟩ := List.mem_map.mp he
    rfl

/-- The gap warnings of an area of a device are right, however `std::sort` orders tags with
one start, exactly if nothing leaves `int` and no tag ends after one that starts last before
another, where that leaves a gap of up to eight registers or seems to. -/
theorem gaps_reported_iff {project : Project} {di : ℕ} {device : Device}
    (hdevice : project.devices[di]? = some device) (area : Area) :
    (∀ sort, Sorts sort → (doctor sort project).isSome = true ∧
      GapsReported (spansOf device area) (gapsOf di area (findings sort project))) ↔
    (∀ sort, Sorts sort → ∀ n ∈ doctorInts sort project, IsInt n) ∧
      GapsBounded Span.start Span.stop 8 (spansOf device area) := by
  have hne := spansOf_nonempty device area
  constructor
  · intro h
    constructor
    · intro sort hsort
      exact doctor_isSome.mp (h sort hsort).1
    · apply bounded_of_exactGaps hne
      intro sorted hperm hsorted
      obtain ⟨sort, hsort, rfl⟩ := exists_sorts hperm hsorted
      have hgaps := (h sort hsort).2
      rw [gapsOf_findings hsort hdevice] at hgaps
      exact gapsReported_neighbourGaps.mp hgaps
  · rintro ⟨hints, hbounded⟩ sort hsort
    refine ⟨doctor_isSome.mpr (hints sort hsort), ?_⟩
    rw [gapsOf_findings hsort hdevice]
    obtain ⟨hperm, hsorted⟩ := hsort (spansOf device area)
    exact gapsReported_neighbourGaps.mpr (exactGaps_of_bounded hperm hsorted hne hbounded)

/-! ### Blocks -/

/-- The tags of a device that may have registers of a block. -/
def blockTags (device : Device) (block : RegisterBlock) : List Tag :=
  device.tags.filter (·.area = block.area)

/-- The registers of a block that are of one of its tags. -/
def mappedRegisters (device : Device) (block : RegisterBlock) : Finset ℤ :=
  coveredIn Tag.address tagStop block.start (block.start + block.count) (blockTags device block)

theorem covered_eq_card_iff (device : Device) (block : RegisterBlock) :
    covered device block = (mappedRegisters device block).card ↔
      CoveredOnce Tag.address tagStop block.start (block.start + block.count)
        (blockTags device block) :=
  sum_eq_card_iff _ _ _

/-- A block is reported as sparse with its count of registers. -/
theorem sparse_mem_findings {sort : List Span → List Span} {project : Project} {gi bi : ℕ}
    {group : PollGroup} {block : RegisterBlock} {device : Device}
    (hgroup : project.pollGroups[gi]? = some group) (hblock : group.blocks[bi]? = some block)
    (hdevice : deviceOf project group = some device) :
    (∃ c n, Finding.sparse gi bi c n ∈ findings sort project) ↔
      8 ≤ block.count ∧ covered device block * 2 < block.count := by
  constructor
  · rintro ⟨c, n, hmem⟩
    rcases mem_findings.mp hmem with ⟨di, d, -, hmem⟩ | ⟨gi', group', hgroup', hmem⟩
    · rcases mem_deviceFindings hmem with ⟨ti, tag, -, htag⟩ | ⟨_, _, _, h⟩ | ⟨_, _, _, _, h⟩
      · rcases mem_tagFindings.mp htag with ⟨h, -⟩ | ⟨h, -⟩ <;> cases h
      · cases h
      · cases h
    · rcases mem_groupFindings.mp hmem with ⟨h, -⟩ | ⟨bi', block', hblock', hmem⟩
      · cases h
      · rcases mem_blockFindings.mp hmem with ⟨h, -⟩ | ⟨device', hdevice', h, hsparse⟩
        · cases h
        · obtain ⟨rfl, rfl, -, -⟩ := Finding.sparse.inj h
          obtain rfl := Option.some.inj (hgroup.symm.trans hgroup')
          obtain rfl := Option.some.inj (hblock.symm.trans hblock')
          obtain rfl := Option.some.inj (hdevice.symm.trans hdevice')
          exact hsparse
  · intro hsparse
    refine ⟨covered device block, block.count, mem_findings.mpr (.inr ⟨gi, group, hgroup, ?_⟩)⟩
    refine mem_groupFindings.mpr (.inr ⟨bi, block, hblock, ?_⟩)
    exact mem_blockFindings.mpr (.inr ⟨device, hdevice, rfl, hsparse⟩)

/-- Of an accepted project: the registers of a block that map to a tag are counted, and the
block is reported if they are fewer than half of eight or more, exactly if nothing leaves
`int` and no register of the block is of two tags. -/
theorem sparse_counts_registers_iff {lib : JsonLibrary} (hlib : lib.ReportsViolations)
    {text sourceName : String} (hok : (loadJsonText lib text sourceName).ok = true)
    {gi bi : ℕ} {group : PollGroup} {block : RegisterBlock}
    (hgroup : (loadJsonText lib text sourceName).project.pollGroups[gi]? = some group)
    (hblock : group.blocks[bi]? = some block) (sort : List Span → List Span) :
    ∃ device, deviceOf (loadJsonText lib text sourceName).project group = some device ∧
      (((doctor sort (loadJsonText lib text sourceName).project).isSome = true ∧
        covered device block = (mappedRegisters device block).card ∧
        ((∃ c n, Finding.sparse gi bi c n ∈ findings sort (loadJsonText lib text sourceName).project) ↔
          8 ≤ block.count ∧ 2 * ((mappedRegisters device block).card : ℤ) < block.count)) ↔
      (∀ n ∈ doctorInts sort (loadJsonText lib text sourceName).project, IsInt n) ∧
        CoveredOnce Tag.address tagStop block.start (block.start + block.count)
          (blockTags device block)) := by
  have hconsistent := loadJsonText_consistent hlib hok
  obtain ⟨d, hd, hid, -⟩ := hconsistent.groups group (List.mem_of_getElem? hgroup)
  obtain ⟨device, hdevice⟩ : ∃ device,
      deviceOf (loadJsonText lib text sourceName).project group = some device := by
    rw [← Option.isSome_iff_exists, deviceOf, List.find?_isSome]
    exact ⟨d, hd, by simpa using hid⟩
  refine ⟨device, hdevice, ?_⟩
  rw [sparse_mem_findings hgroup hblock hdevice, doctor_isSome, covered_eq_card_iff]
  constructor
  · rintro ⟨hints, honce, -⟩
    exact ⟨hints, honce⟩
  · rintro ⟨hints, honce⟩
    refine ⟨hints, honce, ?_⟩
    rw [(covered_eq_card_iff device block).mpr honce, mul_comm]

end Devices

/-! ### Overlapping tags -/

attribute [local instance] exactPlatform

/-- A project file of holding registers, each range with its name, and a block. -/
def rangesDocument (ranges : List (String × ℤ × ℤ)) (start count : ℤ) : Json := .object
  [("schemaVersion", .int 1), ("name", .string "site"),
    ("endpoints", .array [.object [("id", .string "plc"), ("host", .string "10.0.0.2"),
      ("port", .int 502), ("transport", .string "tcp")]]),
    ("devices", .array [.object [("id", .string "pump"), ("endpointId", .string "plc"),
      ("unitId", .int 1), ("tags", .array (ranges.map fun (name, address, quantity) =>
        .object [("name", .string name), ("area", .string "holding"), ("address", .int address),
          ("type", .string "uint16"), ("quantity", .int quantity)]))]]),
    ("pollGroups", .array [.object [("id", .string "main"), ("periodMs", .int 100),
      ("priority", .string "fast"), ("deviceId", .string "pump"),
      ("blocks", .array [.object [("area", .string "holding"), ("start", .int start),
        ("count", .int count)]])]])]

/-- The device of such a file. -/
def rangesDevice (ranges : List (String × ℤ × ℤ)) : Device :=
  { id := "pump", endpointId := "plc", tags := ranges.map fun (name, address, quantity) =>
      { name := name, address := address, quantity := some quantity } }

/-- Ten registers, and two tags inside them. -/
def nested : List (String × ℤ × ℤ) := [("all", 0, 10), ("low", 2, 1), ("high", 5, 1)]

/-- A gap is reported between the two, where there is none. -/
theorem nested_gap_reported :
    (loadDocument (rangesDocument nested 0 10)).ok = true ∧
    ∀ sort, Sorts sort →
      gapsOf 0 .holding (findings sort (loadDocument (rangesDocument nested 0 10)).project) =
          [(2, ⟨2, 3, "low"⟩, ⟨5, 6, "high"⟩)] ∧
        ∀ a b, ¬ IsGap Span.start Span.stop (spansOf (rangesDevice nested) .holding) a b := by
  have hdevice : (loadDocument (rangesDocument nested 0 10)).project.devices[0]? =
      some (rangesDevice nested) := by decide +kernel
  have hspans : spansOf (rangesDevice nested) .holding =
      [⟨0, 10, "all"⟩, ⟨2, 3, "low"⟩, ⟨5, 6, "high"⟩] := by decide +kernel
  refine ⟨by decide +kernel, fun sort hsort => ⟨?_, fun a b hgap => ?_⟩⟩
  · rw [gapsOf_findings hsort hdevice, hspans, sort_eq_self hsort (by decide)]
    decide +kernel
  · obtain ⟨hlt, ⟨t, ht, hb⟩, ⟨p, hp, hplt, -⟩, hall⟩ :=
      (isGap_iff (spansOf_nonempty _ _)).mp hgap
    rw [hspans] at ht hp hall
    simp only [List.mem_cons, List.not_mem_nil, or_false] at ht hp
    have hb' : b ≤ 5 := by rcases ht with rfl | rfl | rfl <;> simp only at hb <;> omega
    have hp' : 0 ≤ p.start := by rcases hp with rfl | rfl | rfl <;> decide
    have hend : (10 : ℤ) ≤ a := hall ⟨0, 10, "all"⟩ List.mem_cons_self (hp'.trans_lt hplt)
    omega

/-- Two registers, and two after a gap of three. -/
def spread : List (String × ℤ × ℤ) := [("low", 0, 2), ("high", 5, 2)]

theorem spread_ints (sort : List Span → List Span) (hsort : Sorts sort) :
    ∀ n ∈ doctorInts sort (loadDocument (rangesDocument spread 0 8)).project, IsInt n := by
  have hperm : ∀ spans, (sort spans).Perm spans := fun spans => (hsort spans).1
  exact (isInt_doctorInts hperm (by decide +kernel)).mpr (by decide +kernel)

theorem spread_gap_reported :
    (doctor (byStart Span.start) (loadDocument (rangesDocument spread 0 8)).project).isSome = true ∧
      GapsReported (spansOf (rangesDevice spread) .holding) (gapsOf 0 .holding
        (findings (byStart Span.start) (loadDocument (rangesDocument spread 0 8)).project)) := by
  have hdevice : (loadDocument (rangesDocument spread 0 8)).project.devices[0]? =
      some (rangesDevice spread) := by decide +kernel
  refine (gaps_reported_iff hdevice .holding).mpr ⟨spread_ints, ?_⟩ _ sorts_byStart
  unfold GapsBounded
  decide +kernel

/-- The group of such a file, with a block of eight registers. -/
def rangesGroup : PollGroup :=
  { id := "main", periodMs := 100, priority := .fast, deviceId := "pump", blocks := [{ count := 8 }] }

/-- Two tags of the same three registers. -/
def doubled : List (String × ℤ × ℤ) := [("raw", 0, 3), ("copy", 0, 3)]

/-- Six registers of eight are counted where three map to tags, and so the block is not
reported. -/
theorem doubled_registers_counted_twice :
    (loadDocument (rangesDocument doubled 0 8)).ok = true ∧
    covered (rangesDevice doubled) { count := 8 } = 6 ∧
    (mappedRegisters (rangesDevice doubled) { count := 8 }).card = 3 ∧
    ∀ sort, ¬ ∃ c n, Finding.sparse 0 0 c n ∈
      findings sort (loadDocument (rangesDocument doubled 0 8)).project := by
  have hgroup : (loadDocument (rangesDocument doubled 0 8)).project.pollGroups[0]? =
      some rangesGroup := by decide +kernel
  have hdevice : deviceOf (loadDocument (rangesDocument doubled 0 8)).project rangesGroup =
      some (rangesDevice doubled) := by decide +kernel
  have hcovered : covered (rangesDevice doubled) { count := 8 } = 6 := by decide +kernel
  refine ⟨by decide +kernel, hcovered, by decide +kernel, fun sort => ?_⟩
  rw [sparse_mem_findings hgroup (rfl : rangesGroup.blocks[0]? = some { count := 8 }) hdevice,
    hcovered]
  decide

/-- Four registers of eight are mapped, each to one tag. -/
theorem spread_registers_counted : ∃ device,
    deviceOf (loadDocument (rangesDocument spread 0 8)).project rangesGroup = some device ∧
      covered device { count := 8 } = (mappedRegisters device { count := 8 }).card := by
  have hok : (loadDocument (rangesDocument spread 0 8)).ok = true := by decide +kernel
  have hgroup : (loadDocument (rangesDocument spread 0 8)).project.pollGroups[0]? =
      some rangesGroup := by decide +kernel
  obtain ⟨device, hdevice, hiff⟩ := sparse_counts_registers_iff
    (JsonLibrary.reading_reports fun _ => rangesDocument spread 0 8) hok hgroup
    (rfl : rangesGroup.blocks[0]? = some { count := 8 }) (byStart Span.start)
  have hspread : deviceOf (loadDocument (rangesDocument spread 0 8)).project rangesGroup =
      some (rangesDevice spread) := by decide +kernel
  obtain rfl : rangesDevice spread = device := Option.some.inj (hspread.symm.trans hdevice)
  have honce : CoveredOnce Tag.address tagStop 0 (0 + 8)
      (blockTags (rangesDevice spread) { count := 8 }) := by
    refine List.pairwise_pair.mpr fun r _ _ => ?_
    rintro ⟨⟨-, hlow⟩, hhigh, -⟩
    have hlow' : r < 2 := hlow
    have hhigh' : 5 ≤ r := hhigh
    omega
  exact ⟨_, hspread, (hiff.mpr ⟨spread_ints (byStart Span.start) sorts_byStart, honce⟩).2.1⟩

end OpcServer.Project
