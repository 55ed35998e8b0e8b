import OpcServer.Lib.Coverage
import OpcServer.Project.Validate

/-! The static diagnostics of a project: overlapping and almost adjacent tags, tags that no
poll group mentions, and sparse blocks. A finding is kept with what it is about and is
rendered into the path and text of the report at the end. The sums and differences of C++
`int`s that are formed on the way are listed apart, as one outside `int` leaves the report
undefined. -/

namespace OpcServer.Project

open Domain Coverage

variable [Platform]

def areaName : Area → String
  | .holding => "holding"
  | .input => "input"
  | .coil => "coil"
  | .discrete => "discrete"

/-- Registers of a tag, `stop` exclusive. -/
structure Span where
  start : ℤ := 0
  stop : ℤ := 0
  label : String := ""
  deriving DecidableEq, Repr

/-! ### Findings -/

/-- What is reported, by the positions of the device and tag or of the group and block. -/
inductive Finding where
  | unpolled (device tag : ℕ) (name : String)
  | readOnly (device tag : ℕ) (area : Area)
  | overlap (device : ℕ) (area : Area) (a b : Span)
  | gap (device : ℕ) (area : Area) (hole : ℤ) (before after : Span)
  | shortPeriod (group : ℕ)
  | largeBlock (group block : ℕ) (count : ℤ)
  | sparse (group block : ℕ) (covered count : ℤ)
  deriving DecidableEq, Repr

namespace Finding

def devicePath (di : ℕ) : String := indexed "devices" di

def tagPath (di ti : ℕ) : String := indexed (devicePath di ++ ".tags") ti

def groupPath (gi : ℕ) : String := indexed "pollGroups" gi

def blockPath (gi bi : ℕ) : String := indexed (groupPath gi ++ ".blocks") bi

def path : Finding → String
  | unpolled di ti _ => tagPath di ti
  | readOnly di ti _ => tagPath di ti ++ ".writable"
  | overlap di area _ _ => devicePath di ++ "." ++ areaName area
  | gap di area _ _ _ => devicePath di ++ "." ++ areaName area
  | shortPeriod gi => groupPath gi ++ ".periodMs"
  | largeBlock gi bi _ => blockPath gi bi ++ ".count"
  | sparse gi bi _ _ => blockPath gi bi

/-- A span in the text of an overlap. -/
def spanText (s : Span) : String :=
  s.label ++ " [" ++ toString s.start ++ "," ++ toString s.stop ++ ")"

def message : Finding → String
  | unpolled _ _ name => "tag '" ++ name ++ "' is not referenced by any poll group"
  | readOnly _ _ area => "writable tag on " ++ areaName area ++ " cannot be written with FC05/06/15/16"
  | overlap _ _ a b => "overlap " ++ spanText a ++ " with " ++ spanText b
  | gap _ _ hole before after =>
    "gap of " ++ toString hole ++ " registers between " ++ before.label ++ " and " ++ after.label ++
      " (consider coalescing the poll block)"
  | shortPeriod _ => "periodMs < 50 but priority is not fast"
  | largeBlock _ _ count =>
    "large block (" ++ toString count ++ " registers) may overrun Modbus RTT budget"
  | sparse _ _ covered count =>
    "sparse block: only " ++ toString covered ++ " of " ++ toString count ++
      " registers map to tags (holes)"

/-- All findings are warnings. -/
def diagnostic (f : Finding) : Diagnostic := ⟨.warning, f.path, f.message⟩

end Finding

structure DoctorReport where
  findings : List Diagnostic := []
  warningCount : ℕ := 0
  errorCount : ℕ := 0
  deriving DecidableEq, Repr

def DoctorReport.add (report : DoctorReport) (d : Diagnostic) : DoctorReport :=
  match d.severity with
  | .error =>
    { report with errorCount := report.errorCount + 1, findings := report.findings ++ [d] }
  | .warning =>
    { report with warningCount := report.warningCount + 1, findings := report.findings ++ [d] }

/-! ### Tags -/

/-- The keys of the tags that are named in a group (`polled_tags`). -/
def polledTags (project : Project) : List String :=
  project.pollGroups.flatMap fun g => g.tagNames.map fun name => g.deviceId ++ "/" ++ name

def tagFindings (polled : List String) (di : ℕ) (device : Device) (ti : ℕ) (tag : Tag) :
    List Finding :=
  (if !(polled.contains (device.id ++ "/" ++ tag.name)) && tag.group == "" then
    [.unpolled di ti tag.name] else []) ++
  if tag.writable && tag.area ≠ .holding && tag.area ≠ .coil then
    [.readOnly di ti tag.area] else []

/-- First register after those of a tag. -/
def tagStop (tag : Tag) : ℤ := tag.address + max 1 (regsFor tag)

def spanOf (tag : Tag) : Span := ⟨tag.address, tagStop tag, tag.name⟩

/-- The spans of an area of a device (`by_area`). -/
def spansOf (device : Device) (area : Area) : List Span :=
  (device.tags.filter (·.area = area)).map spanOf

def checkOverlaps (di : ℕ) (area : Area) : List Span → List Finding
  | [] => []
  | a :: rest =>
    (rest.filter fun b => a.start < b.stop ∧ b.start < a.stop).map (.overlap di area a) ++
      checkOverlaps di area rest

/-- The loop of `check_holes` over sorted spans. -/
def holesBetween (di : ℕ) (area : Area) : List Span → List Finding
  | p :: t :: rest =>
    (if t.start > p.stop then
      let hole := t.start - p.stop
      if hole > 0 ∧ hole ≤ 8 then [.gap di area hole p t] else []
    else []) ++ holesBetween di area (t :: rest)
  | _ => []

def checkHoles (sort : List Span → List Span) (di : ℕ) (area : Area) (spans : List Span) :
    List Finding :=
  if spans.length < 2 then [] else holesBetween di area (sort spans)

def areaFindings (sort : List Span → List Span) (di : ℕ) (device : Device) (area : Area) :
    List Finding :=
  let spans := spansOf device area
  checkOverlaps di area spans ++ checkHoles sort di area spans

def deviceFindings (sort : List Span → List Span) (polled : List String) (di : ℕ)
    (device : Device) : List Finding :=
  (device.tags.mapIdx (tagFindings polled di device)).flatten ++
    [Area.holding, .input, .coil, .discrete].flatMap (areaFindings sort di device)

/-! ### Blocks -/

/-- Registers of a block in those of a tag (`overlap`). -/
def blockOverlap (block : RegisterBlock) (tag : Tag) : ℤ :=
  max 0 (min (tagStop tag) (block.start + block.count) - max tag.address block.start)

/-- The overlaps of the tags in the area of a block. -/
def blockOverlaps (device : Device) (block : RegisterBlock) : List ℤ :=
  (device.tags.filter (·.area = block.area)).map (blockOverlap block)

def covered (device : Device) (block : RegisterBlock) : ℤ := (blockOverlaps device block).sum

/-- The device of a group; of several with one id the first (`devices_by_id`). -/
def deviceOf (project : Project) (group : PollGroup) : Option Device :=
  project.devices.find? fun d => d.id == group.deviceId

def blockFindings (project : Project) (gi : ℕ) (group : PollGroup) (bi : ℕ)
    (block : RegisterBlock) : List Finding :=
  (if block.count > 64 then [.largeBlock gi bi block.count] else []) ++
  match deviceOf project group with
  | none => []
  | some device =>
    if block.count < 1 then []
    else if block.count ≥ 8 ∧ covered device block * 2 < block.count then
      [.sparse gi bi (covered device block) block.count]
    else []

def groupFindings (project : Project) (gi : ℕ) (group : PollGroup) : List Finding :=
  (if group.periodMs < 50 && group.priority ≠ .fast then [.shortPeriod gi] else []) ++
    (group.blocks.mapIdx (blockFindings project gi group)).flatten

/-! ### The report -/

def findings (sort : List Span → List Span) (project : Project) : List Finding :=
  (project.devices.mapIdx (deviceFindings sort (polledTags project))).flatten ++
    (project.pollGroups.mapIdx (groupFindings project)).flatten

/-- The sums formed for a block: its end, for each tag of its area, the running total of
the overlaps, and twice that of a block that may be sparse. -/
def blockSums (device : Device) (block : RegisterBlock) : List ℤ :=
  if block.count < 1 then []
  else
    (blockOverlaps device block).map (fun _ => block.start + block.count) ++
      (blockOverlaps device block).scanl (· + ·) 0 ++
      if block.count ≥ 8 then [covered device block * 2] else []

/-- The sums of `int`s that are formed. -/
def doctorSums (project : Project) : List ℤ :=
  (project.devices.flatMap fun d => d.tags.map tagStop) ++
    project.pollGroups.flatMap fun g =>
      match deviceOf project g with
      | none => []
      | some device => g.blocks.flatMap (blockSums device)

instance (n : ℤ) : Decidable (IsInt n) := inferInstanceAs (Decidable (_ ∧ _))

/-- The differences that `check_holes` forms over sorted spans. -/
def holeSizes : List Span → List ℤ
  | p :: t :: rest =>
    (if t.start > p.stop then [t.start - p.stop] else []) ++ holeSizes (t :: rest)
  | _ => []

/-- The differences of `int`s that are formed. -/
def doctorDifferences (sort : List Span → List Span) (project : Project) : List ℤ :=
  project.devices.flatMap fun d => [Area.holding, .input, .coil, .discrete].flatMap fun area =>
    if (spansOf d area).length < 2 then [] else holeSizes (sort (spansOf d area))

def doctorInts (sort : List Span → List Span) (project : Project) : List ℤ :=
  doctorSums project ++ doctorDifferences sort project

/-- The report, where nothing leaves `int`. -/
def doctor (sort : List Span → List Span) (project : Project) : Option DoctorReport :=
  if ∀ n ∈ doctorInts sort project, IsInt n then
    some (((findings sort project).map Finding.diagnostic).foldl DoctorReport.add {})
  else none

/-! ### What is found -/

omit [Platform] in
theorem mem_flatten_mapIdx {α β : Type} {l : List α} {f : ℕ → α → List β} {b : β} :
    b ∈ (l.mapIdx f).flatten ↔ ∃ i a, l[i]? = some a ∧ b ∈ f i a := by
  simp only [List.mem_flatten, List.mem_mapIdx]
  constructor
  · rintro ⟨bs, ⟨i, hi, rfl⟩, hb⟩
    exact ⟨i, l[i], List.getElem?_eq_getElem hi, hb⟩
  · rintro ⟨i, a, ha, hb⟩
    obtain ⟨hi, rfl⟩ := List.getElem?_eq_some_iff.mp ha
    exact ⟨_, ⟨i, hi, rfl⟩, hb⟩

theorem mem_tagFindings {polled : List String} {di ti : ℕ} {device : Device} {tag : Tag}
    {f : Finding} : f ∈ tagFindings polled di device ti tag ↔
      (f = .unpolled di ti tag.name ∧ device.id ++ "/" ++ tag.name ∉ polled ∧ tag.group = "") ∨
        (f = .readOnly di ti tag.area ∧ tag.writable = true ∧ tag.area ≠ .holding ∧
          tag.area ≠ .coil) := by
  unfold tagFindings
  rw [List.mem_append]
  refine or_congr ?_ ?_
  · split_ifs with h
    · simp_all
    · simp_all
  · split_ifs with h
    · simp_all
    · simp_all

omit [Platform] in
theorem mem_checkOverlaps {di : ℕ} {area : Area} {spans : List Span} {f : Finding}
    (h : f ∈ checkOverlaps di area spans) : ∃ a b, f = .overlap di area a b := by
  induction spans with
  | nil => cases h
  | cons a rest ih =>
    rcases List.mem_append.mp h with h | h
    · obtain ⟨b, -, rfl⟩ := List.mem_map.mp h
      exact ⟨a, b, rfl⟩
    · exact ih h

omit [Platform] in
/-- The loop over sorted spans reports the gaps between neighbours. -/
theorem holesBetween_eq (di : ℕ) (area : Area) (spans : List Span) :
    holesBetween di area spans = (gapsBetween Span.start Span.stop 8 spans).map fun e =>
      .gap di area (e.2.start - e.1.stop) e.1 e.2 := by
  induction spans with
  | nil => rfl
  | cons p spans ih =>
    cases spans with
    | nil => rfl
    | cons t rest =>
      rw [holesBetween, gapsBetween_cons_cons, ih, List.map_append]
      congr 1
      by_cases hgap : p.stop < t.start ∧ t.start - p.stop ≤ 8
      · rw [if_pos hgap.1, if_pos hgap]
        exact if_pos ⟨by omega, hgap.2⟩
      · rw [if_neg hgap]
        split_ifs with hafter
        · exact if_neg fun h => hgap ⟨hafter, h.2⟩
        · rfl

/-- A finding about a device is one about a tag, an overlap or a gap. -/
theorem mem_deviceFindings {sort : List Span → List Span} {polled : List String} {di : ℕ}
    {device : Device} {f : Finding} (h : f ∈ deviceFindings sort polled di device) :
    (∃ ti tag, device.tags[ti]? = some tag ∧ f ∈ tagFindings polled di device ti tag) ∨
      (∃ area a b, f = .overlap di area a b) ∨ ∃ area hole p t, f = .gap di area hole p t := by
  rcases List.mem_append.mp h with h | h
  · exact .inl (mem_flatten_mapIdx.mp h)
  · obtain ⟨area, -, hf⟩ := List.mem_flatMap.mp h
    rcases List.mem_append.mp hf with hf | hf
    · obtain ⟨a, b, rfl⟩ := mem_checkOverlaps hf
      exact .inr (.inl ⟨area, a, b, rfl⟩)
    · unfold checkHoles at hf
      split_ifs at hf
      · cases hf
      · rw [holesBetween_eq] at hf
        obtain ⟨e, -, rfl⟩ := List.mem_map.mp hf
        exact .inr (.inr ⟨area, _, e.1, e.2, rfl⟩)

theorem mem_blockFindings {project : Project} {gi bi : ℕ} {group : PollGroup}
    {block : RegisterBlock} {f : Finding} :
    f ∈ blockFindings project gi group bi block ↔
      (f = .largeBlock gi bi block.count ∧ 64 < block.count) ∨
        ∃ device, deviceOf project group = some device ∧
          f = .sparse gi bi (covered device block) block.count ∧
          8 ≤ block.count ∧ covered device block * 2 < block.count := by
  unfold blockFindings
  rw [List.mem_append]
  refine or_congr ?_ ?_
  · split_ifs with h
    · simp [h]
    · simp [h]
  · cases hdevice : deviceOf project group with
    | none => simp
    | some device =>
      simp only [Option.some.injEq, exists_eq_left']
      split_ifs with hcount hsparse
      · simp only [List.not_mem_nil, false_iff]
        omega
      · simp [hsparse]
      · simp only [List.not_mem_nil, false_iff]
        tauto

theorem mem_groupFindings {project : Project} {gi : ℕ} {group : PollGroup} {f : Finding} :
    f ∈ groupFindings project gi group ↔
      (f = .shortPeriod gi ∧ group.periodMs < 50 ∧ group.priority ≠ .fast) ∨
        ∃ bi block, group.blocks[bi]? = some block ∧ f ∈ blockFindings project gi group bi block := by
  unfold groupFindings
  rw [List.mem_append]
  refine or_congr ?_ ?_
  · split_ifs with h
    · simp_all
    · simp_all
  · exact mem_flatten_mapIdx

theorem mem_findings {sort : List Span → List Span} {project : Project} {f : Finding} :
    f ∈ findings sort project ↔
      (∃ di device, project.devices[di]? = some device ∧
        f ∈ deviceFindings sort (polledTags project) di device) ∨
      ∃ gi group, project.pollGroups[gi]? = some group ∧ f ∈ groupFindings project gi group := by
  unfold findings
  rw [List.mem_append]
  refine or_congr ?_ ?_
  · exact mem_flatten_mapIdx
  · exact mem_flatten_mapIdx

theorem doctor_isSome {sort : List Span → List Span} {project : Project} :
    (doctor sort project).isSome = true ↔ ∀ n ∈ doctorInts sort project, IsInt n := by
  unfold doctor
  split_ifs with h
  · simpa using h
  · simpa using h

omit [Platform] in
theorem mem_holeSizes {spans : List Span} {n : ℤ} (h : n ∈ holeSizes spans) :
    ∃ p ∈ spans, ∃ t ∈ spans, p.stop < t.start ∧ n = t.start - p.stop := by
  induction spans with
  | nil => cases h
  | cons p spans ih =>
    cases spans with
    | nil => cases h
    | cons t rest =>
      rw [holeSizes] at h
      rcases List.mem_append.mp h with h | h
      · split_ifs at h with hgap
        · obtain rfl := List.mem_singleton.mp h
          exact ⟨p, List.mem_cons_self, t, List.mem_cons_of_mem _ List.mem_cons_self, hgap, rfl⟩
        · cases h
      · obtain ⟨q, hq, u, hu, hlt, heq⟩ := ih h
        exact ⟨q, List.mem_cons_of_mem _ hq, u, List.mem_cons_of_mem _ hu, hlt, heq⟩

/-- Where no address is negative only sums can leave `int`. -/
theorem isInt_doctorInts {sort : List Span → List Span} (hsort : ∀ spans, (sort spans).Perm spans)
    {project : Project} (hnonneg : ∀ d ∈ project.devices, ∀ tag ∈ d.tags, 0 ≤ tag.address) :
    (∀ n ∈ doctorInts sort project, IsInt n) ↔ ∀ n ∈ doctorSums project, IsInt n := by
  constructor
  · intro h n hn
    exact h n (List.mem_append_left _ hn)
  · intro h n hn
    rcases List.mem_append.mp hn with hn | hn
    · exact h n hn
    · obtain ⟨d, hd, hn⟩ := List.mem_flatMap.mp hn
      obtain ⟨area, -, hn⟩ := List.mem_flatMap.mp hn
      split_ifs at hn with hlen
      · cases hn
      · obtain ⟨p, hp, t, ht, hlt, rfl⟩ := mem_holeSizes hn
        obtain ⟨before, hbefore, rfl⟩ := List.mem_map.mp ((hsort _).mem_iff.mp hp)
        obtain ⟨after, hafter, rfl⟩ := List.mem_map.mp ((hsort _).mem_iff.mp ht)
        have hstart : 0 ≤ before.address := hnonneg d hd before (List.mem_filter.mp hbefore).1
        have hstop : IsInt (tagStop after) := by
          apply h
          apply List.mem_append_left
          exact List.mem_flatMap.mpr ⟨d, hd, List.mem_map_of_mem (List.mem_filter.mp hafter).1⟩
        have hspan : before.address < tagStop before ∧ after.address < tagStop after := by
          unfold tagStop
          omega
        simp only [spanOf] at hlt ⊢
        unfold IsInt at hstop ⊢
        omega

end OpcServer.Project
