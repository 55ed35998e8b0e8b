import OpcServer.Core.AcceptedIndex
import OpcServer.Core.PollDueAsync
import OpcServer.Project.Doctor

/-! The tags that the diagnostics call unpolled, and those that no group selects when it is
polled. The diagnostics look for the tag among the names of the groups, and take any group
of the tag for one that polls it. A group without names selects by device and group, and
takes tags of no group, too; if there are none it goes by its blocks. -/

namespace OpcServer.Core

open Domain Project Coverage

section Polled
variable [Platform]

/-- A group selects the tag when it is polled. -/
def Selected (project : Project) (tag : Tag) : Prop :=
  ∃ g ∈ project.pollGroups, ∃ b ∈ collectGroupTags (RuntimeIndex.build project) g, b.tag = tag

/-- A group has the name of the tag. -/
def NamedByGroup (project : Project) (tag : Tag) : Prop :=
  ∃ g ∈ project.pollGroups, tag.name ∈ g.tagNames

/-- A group that lists no names, of the device. -/
def OpenGroup (project : Project) (device : Device) (g : PollGroup) : Prop :=
  g ∈ project.pollGroups ∧ g.tagNames = [] ∧ g.deviceId = device.id

/-- The tag lies in a block of the group. -/
def InBlocks (g : PollGroup) (tag : Tag) : Prop :=
  ∃ block ∈ g.blocks, tag.area = block.area ∧ block.start ≤ tag.address ∧
    tag.address + regsFor tag ≤ block.start + block.count

/-- A tag with a group is selected by it, or by a block of one that has no tags. -/
def SelectedByGroup (project : Project) (device : Device) (tag : Tag) : Prop :=
  ∃ g, OpenGroup project device g ∧ (tag.group = g.id ∨
    (∀ u ∈ device.tags, u.group ≠ "" ∧ u.group ≠ g.id) ∧ InBlocks g tag)

/-- Another name reads like that of the tag, behind the id of its device. -/
def KeyTaken (project : Project) (device : Device) (tag : Tag) : Prop :=
  ∃ g ∈ project.pollGroups, ∃ name ∈ g.tagNames, name ≠ tag.name ∧
    g.deviceId ++ "/" ++ name = device.id ++ "/" ++ tag.name

/-! ### Selection -/

section Selection
variable {project : Project} (h : project.Consistent) {device : Device} {tag : Tag}
  (hdevice : device ∈ project.devices) (htag : tag ∈ device.tags)

include h

/-- A tag has one binding. -/
theorem binding_unique {b c : TagBinding} (hb : b ∈ (RuntimeIndex.build project).tags)
    (hc : c ∈ (RuntimeIndex.build project).tags) (hname : b.tag.name = c.tag.name) : b = c := by
  have hfound := findByName_of_mem h hb
  rw [hname, findByName_of_mem h hc] at hfound
  exact (Option.some.inj hfound).symm

include hdevice in
/-- The bindings of a device are those of its tags. -/
theorem tag_mem_of_deviceId {b : TagBinding} (hb : b ∈ (RuntimeIndex.build project).tags)
    (hid : b.deviceId = device.id) : b.tag ∈ device.tags := by
  obtain ⟨d, hd, hmem, hid', -⟩ := RuntimeIndex.mem_bindDevices hb
  have heq : d = device := List.inj_on_of_nodup_map h.deviceIds.1 hd hdevice (hid'.symm.trans hid)
  exact heq ▸ hmem

include hdevice htag in
/-- A group with names selects the tag if its name is one of them. -/
theorem mem_named_iff {g : PollGroup} (hnames : g.tagNames ≠ []) :
    (∃ b ∈ collectGroupTags (RuntimeIndex.build project) g, b.tag = tag) ↔
      tag.name ∈ g.tagNames := by
  obtain ⟨b, hb, rfl, -⟩ := RuntimeIndex.exists_binding 1 hdevice htag
  rw [collectGroupTags, if_pos (by simpa using hnames)]
  constructor
  · rintro ⟨c, hc, htags⟩
    obtain ⟨name, hname, hfound⟩ := List.mem_filterMap.mp hc
    have hcname : c.tag.name = name := by simpa using List.find?_some hfound
    rw [← htags, hcname]
    exact hname
  · intro hname
    exact ⟨b, List.mem_filterMap.mpr ⟨_, hname, findByName_of_mem h hb⟩, rfl⟩

omit h in
/-- The tags of a group that lists no names, by device and group. -/
theorem mem_own {g : PollGroup} {b : TagBinding} :
    b ∈ ((RuntimeIndex.build project).tags.filter fun b =>
      b.deviceId == g.deviceId && (b.tag.group == "" || b.tag.group == g.id)) ↔
      b ∈ (RuntimeIndex.build project).tags ∧ b.deviceId = g.deviceId ∧
        (b.tag.group = "" ∨ b.tag.group = g.id) := by
  simp [List.mem_filter]

include hdevice in
/-- A group has no tags by device and group if no tag of its device is of it or of none. -/
theorem own_eq_nil_iff {g : PollGroup} (hid : g.deviceId = device.id) :
    ((RuntimeIndex.build project).tags.filter fun b =>
      b.deviceId == g.deviceId && (b.tag.group == "" || b.tag.group == g.id)) = [] ↔
      ∀ u ∈ device.tags, u.group ≠ "" ∧ u.group ≠ g.id := by
  rw [List.eq_nil_iff_forall_not_mem]
  constructor
  · intro hnone u hu
    obtain ⟨b, hb, rfl, hbid, -⟩ := RuntimeIndex.exists_binding 1 hdevice hu
    have hnot := hnone b
    rw [mem_own] at hnot
    exact not_or.mp fun hgroup => hnot ⟨hb, hbid.trans hid.symm, hgroup⟩
  · intro hall b hb
    obtain ⟨hb, hbid, hgroup⟩ := mem_own.mp hb
    obtain ⟨hempty, hown⟩ := hall b.tag (tag_mem_of_deviceId h hdevice hb (hbid.trans hid))
    exact hgroup.elim hempty hown

omit h in
theorem mem_inBlocks {g : PollGroup} {b : TagBinding} :
    b ∈ ((RuntimeIndex.build project).tags.filter fun b =>
      b.deviceId == g.deviceId && g.blocks.any (inBlock b)) ↔
      b ∈ (RuntimeIndex.build project).tags ∧ b.deviceId = g.deviceId ∧ InBlocks g b.tag := by
  simp [List.mem_filter, InBlocks, inBlock, and_assoc]

include hdevice htag in
/-- A group without names selects the tag by its group, or by a block if it has no tags. -/
theorem mem_unnamed_iff {g : PollGroup} (hnames : g.tagNames = []) :
    (∃ b ∈ collectGroupTags (RuntimeIndex.build project) g, b.tag = tag) ↔
      g.deviceId = device.id ∧ (tag.group = "" ∨ tag.group = g.id ∨
        (∀ u ∈ device.tags, u.group ≠ "" ∧ u.group ≠ g.id) ∧ InBlocks g tag) := by
  obtain ⟨b, hb, rfl, hbid, -⟩ := RuntimeIndex.exists_binding 1 hdevice htag
  have hb : b ∈ (RuntimeIndex.build project).tags := hb
  rw [collectGroupTags, if_neg (by simp [hnames]), unnamedTags]
  split_ifs with hfallback
  · -- nothing by device and group: the blocks
    rw [Bool.and_eq_true, List.isEmpty_iff] at hfallback
    obtain ⟨hnone, -⟩ := hfallback
    constructor
    · rintro ⟨c, hc, htags⟩
      obtain ⟨hc, hcid, hblocks⟩ := mem_inBlocks.mp hc
      obtain rfl := binding_unique h hc hb (by rw [htags])
      have hid := hcid.symm.trans hbid
      exact ⟨hid, .inr (.inr ⟨(own_eq_nil_iff h hdevice hid).mp hnone, hblocks⟩)⟩
    · rintro ⟨hid, hselected⟩
      obtain ⟨hempty, hown⟩ := (own_eq_nil_iff h hdevice hid).mp hnone b.tag htag
      obtain ⟨-, hblocks⟩ := (hselected.resolve_left hempty).resolve_left hown
      exact ⟨b, mem_inBlocks.mpr ⟨hb, hbid.trans hid.symm, hblocks⟩, rfl⟩
  · constructor
    · rintro ⟨c, hc, htags⟩
      obtain ⟨hc, hcid, hgroup⟩ := mem_own.mp hc
      obtain rfl := binding_unique h hc hb (by rw [htags])
      exact ⟨hcid.symm.trans hbid, hgroup.imp_right .inl⟩
    · rintro ⟨hid, hempty | hown | ⟨hall, block, hblock, -⟩⟩
      · exact ⟨b, mem_own.mpr ⟨hb, hbid.trans hid.symm, .inl hempty⟩, rfl⟩
      · exact ⟨b, mem_own.mpr ⟨hb, hbid.trans hid.symm, .inr hown⟩, rfl⟩
      · -- then the blocks would have been taken
        have hnone := (own_eq_nil_iff h hdevice hid).mpr hall
        refine absurd ?_ hfallback
        rw [Bool.and_eq_true, List.isEmpty_iff]
        exact ⟨hnone, by simpa using List.ne_nil_of_mem hblock⟩

include hdevice htag in
/-- The tag is selected by its name, by the wildcard, or by its group. -/
theorem selected_iff : Selected project tag ↔ NamedByGroup project tag ∨
    (tag.group = "" ∧ ∃ g, OpenGroup project device g) ∨
      (tag.group ≠ "" ∧ SelectedByGroup project device tag) := by
  constructor
  · rintro ⟨g, hg, hselected⟩
    by_cases hnames : g.tagNames = []
    · obtain ⟨hid, hmode⟩ := (mem_unnamed_iff h hdevice htag hnames).mp hselected
      by_cases hempty : tag.group = ""
      · exact .inr (.inl ⟨hempty, g, hg, hnames, hid⟩)
      · exact .inr (.inr ⟨hempty, g, ⟨hg, hnames, hid⟩, hmode.resolve_left hempty⟩)
    · exact .inl ⟨g, hg, (mem_named_iff h hdevice htag hnames).mp hselected⟩
  · rintro (⟨g, hg, hname⟩ | ⟨hempty, g, hg, hnames, hid⟩ | ⟨-, g, ⟨hg, hnames, hid⟩, hmode⟩)
    · exact ⟨g, hg, (mem_named_iff h hdevice htag (List.ne_nil_of_mem hname)).mpr hname⟩
    · exact ⟨g, hg, (mem_unnamed_iff h hdevice htag hnames).mpr ⟨hid, .inl hempty⟩⟩
    · exact ⟨g, hg, (mem_unnamed_iff h hdevice htag hnames).mpr ⟨hid, .inr hmode⟩⟩

/-! ### Warnings -/

include hdevice htag in
/-- The key of the tag is known if a group has its name or one that reads like it. -/
theorem mem_polledTags_iff : device.id ++ "/" ++ tag.name ∈ polledTags project ↔
    NamedByGroup project tag ∨ KeyTaken project device tag := by
  unfold polledTags
  simp only [List.mem_flatMap, List.mem_map]
  constructor
  · rintro ⟨g, hg, name, hname, heq⟩
    by_cases hsame : name = tag.name
    · exact .inl ⟨g, hg, hsame ▸ hname⟩
    · exact .inr ⟨g, hg, name, hname, hsame, heq⟩
  · rintro (⟨g, hg, hname⟩ | ⟨g, hg, name, hname, -, heq⟩)
    · -- the group is of the device, as names belong to one tag
      obtain ⟨d, hd, hid, hnames⟩ := h.groups g hg
      obtain ⟨t, ht, htname⟩ := hnames tag.name hname
      obtain ⟨b, hb, rfl, hbid, -⟩ := RuntimeIndex.exists_binding 1 hd ht
      obtain ⟨c, hc, rfl, hcid, -⟩ := RuntimeIndex.exists_binding 1 hdevice htag
      have heq := binding_unique h hb hc htname
      refine ⟨g, hg, c.tag.name, hname, ?_⟩
      rw [← hid, ← hbid, heq, hcid]
    · exact ⟨g, hg, name, hname, heq⟩

end Selection

/-- A tag is reported as unpolled if its key is not known and it has no group. -/
theorem unpolled_mem_findings {sort : List Span → List Span} {project : Project} {di ti : ℕ}
    {device : Device} {tag : Tag} (hdevice : project.devices[di]? = some device)
    (htag : device.tags[ti]? = some tag) :
    Finding.unpolled di ti tag.name ∈ findings sort project ↔
      device.id ++ "/" ++ tag.name ∉ polledTags project ∧ tag.group = "" := by
  constructor
  · intro hmem
    rcases mem_findings.mp hmem with ⟨di', device', hdevice', hmem⟩ | ⟨gi, group, -, hmem⟩
    · rcases mem_deviceFindings hmem with ⟨ti', tag', htag', hmem⟩ | ⟨_, _, _, h⟩ | ⟨_, _, _, _, h⟩
      · rcases mem_tagFindings.mp hmem with ⟨h, hkey, hgroup⟩ | ⟨h, -⟩
        · obtain ⟨rfl, rfl, -⟩ := Finding.unpolled.inj h
          obtain rfl := Option.some.inj (hdevice.symm.trans hdevice')
          obtain rfl := Option.some.inj (htag.symm.trans htag')
          exact ⟨hkey, hgroup⟩
        · cases h
      · cases h
      · cases h
    · rcases mem_groupFindings.mp hmem with ⟨h, -⟩ | ⟨bi, block, -, hmem⟩
      · cases h
      · rcases mem_blockFindings.mp hmem with ⟨h, -⟩ | ⟨_, -, h, -⟩ <;> cases h
  · rintro ⟨hkey, hgroup⟩
    refine mem_findings.mpr (.inl ⟨di, device, hdevice, List.mem_append_left _ ?_⟩)
    refine mem_flatten_mapIdx.mpr ⟨ti, tag, htag, ?_⟩
    exact mem_tagFindings.mpr (.inl ⟨rfl, hkey, hgroup⟩)

/-- Of an accepted project: the warning of an unpolled tag is right exactly if nothing leaves
`int`, and a group has the name of the tag; or the tag has no group, and there is a group
of its device without names just if another name reads like that of the tag; or the tag has
a group and is selected by it or by a block. -/
theorem unpolled_warning_exact_iff {lib : JsonLibrary} (hlib : lib.ReportsViolations)
    {text sourceName : String} (hok : (loadJsonText lib text sourceName).ok = true)
    {di ti : ℕ} {device : Device} {tag : Tag}
    (hdevice : (loadJsonText lib text sourceName).project.devices[di]? = some device)
    (htag : device.tags[ti]? = some tag) (sort : List Span → List Span) :
    ((doctor sort (loadJsonText lib text sourceName).project).isSome = true ∧
      (Finding.unpolled di ti tag.name ∈ findings sort (loadJsonText lib text sourceName).project ↔
        ¬ Selected (loadJsonText lib text sourceName).project tag)) ↔
    (∀ n ∈ doctorInts sort (loadJsonText lib text sourceName).project, IsInt n) ∧
      (NamedByGroup (loadJsonText lib text sourceName).project tag ∨
        (tag.group = "" ∧ (KeyTaken (loadJsonText lib text sourceName).project device tag ↔
          ∃ g, OpenGroup (loadJsonText lib text sourceName).project device g)) ∨
        (tag.group ≠ "" ∧
          SelectedByGroup (loadJsonText lib text sourceName).project device tag)) := by
  have hconsistent := loadJsonText_consistent hlib hok
  have hmem := List.mem_of_getElem? hdevice
  have htmem := List.mem_of_getElem? htag
  rw [doctor_isSome, unpolled_mem_findings hdevice htag, mem_polledTags_iff hconsistent hmem htmem,
    selected_iff hconsistent hmem htmem]
  refine and_congr_right fun _ => ?_
  by_cases hempty : tag.group = ""
  · simp only [hempty]
    tauto
  · tauto

end Polled

/-! ### A group without names -/

attribute [local instance] exactPlatform

/-- A project file with one register, in a group or in none. -/
def levelDocument (group : String) : Json := siteDocument 0 [.object [("name", .string "level"),
  ("area", .string "holding"), ("address", .int 0), ("type", .string "uint16"),
  ("group", .string group)]]

def levelTag (group : String) : Tag := { name := "level", group := group }

def levelDevice (group : String) : Device :=
  { id := "pump", endpointId := "plc", tags := [levelTag group] }

def levelGroup : PollGroup :=
  { id := "main", periodMs := 100, priority := .fast, deviceId := "pump" }

/-- The group selects the tag, as that is in none, but the tag is reported as unpolled. -/
theorem polled_tag_reported :
    (loadDocument (levelDocument "")).ok = true ∧
    (∀ sort, Finding.unpolled 0 0 "level" ∈
      findings sort (loadDocument (levelDocument "")).project) ∧
    Selected (loadDocument (levelDocument "")).project (levelTag "") := by
  have hdevice : (loadDocument (levelDocument "")).project.devices[0]? =
      some (levelDevice "") := by decide +kernel
  refine ⟨by decide +kernel, fun sort => ?_, ?_⟩
  · refine (unpolled_mem_findings hdevice (rfl : (levelDevice "").tags[0]? = some (levelTag ""))).mpr
      ⟨by decide +kernel, rfl⟩
  · unfold Selected
    decide +kernel

/-- A tag of the group is selected by it, and is not reported. -/
theorem grouped_tag_not_reported :
    Finding.unpolled 0 0 "level" ∈
        findings (byStart Span.start) (loadDocument (levelDocument "main")).project ↔
      ¬ Selected (loadDocument (levelDocument "main")).project (levelTag "main") := by
  have hok : (loadDocument (levelDocument "main")).ok = true := by decide +kernel
  have hdevice : (loadDocument (levelDocument "main")).project.devices[0]? =
      some (levelDevice "main") := by decide +kernel
  have hgroup : levelGroup ∈ (loadDocument (levelDocument "main")).project.pollGroups := by
    decide +kernel
  have hiff := unpolled_warning_exact_iff
    (JsonLibrary.reading_reports fun _ => levelDocument "main") hok hdevice
    (rfl : (levelDevice "main").tags[0]? = some (levelTag "main")) (byStart Span.start)
  refine (hiff.mpr ⟨by decide +kernel, .inr (.inr ⟨by decide, ?_⟩)⟩).2
  exact ⟨levelGroup, ⟨hgroup, rfl, rfl⟩, .inl rfl⟩

end OpcServer.Core
