import Mathlib.Data.List.Perm.Basic
import OpcServer.Project.Consistency

/-! What expanding a profile does to the tags of a device. The instance overrides the
profile by name, through a map that holds one tag for each name: of several with a name of
the profile only the last is left. A tag without name is never overridden, and those of the
profile are added each time. -/

namespace OpcServer.Project

open Domain

section Expansion
variable [Platform]

/-! ### Overriding -/

/-- The tag that stands for one of the profile. -/
def overridden (device : Device) (p : Tag) : Tag := (overlayTag device p.name).getD p

/-- Whether a name is of the profile. -/
def inProfile (profile : DeviceProfile) (t : Tag) : Bool :=
  profile.tags.any fun p => p.name == t.name

/-- The tags of the profile whose names the instance does not use. -/
def unusedTags (profile : DeviceProfile) (device : Device) : List Tag :=
  profile.tags.filter fun p => !(device.tags.any fun t => t.name == p.name)

theorem mergeTags_eq (device : Device) (profile : DeviceProfile) :
    mergeTags device profile = profile.tags.map (overridden device) ++
      device.tags.filter fun t => t.name == "" || !inProfile profile t := rfl

theorem overlayTag_isSome {device : Device} {t : Tag} (hname : t.name ≠ "") (h : t ∈ device.tags) :
    ∃ u, overlayTag device t.name = some u := by
  unfold overlayTag
  rw [if_neg hname, ← Option.isSome_iff_exists, List.find?_isSome]
  exact ⟨t, List.mem_reverse.mpr h, by simp⟩

@[simp] theorem overridden_name (device : Device) (p : Tag) : (overridden device p).name = p.name := by
  unfold overridden
  cases h : overlayTag device p.name with
  | none => rfl
  | some t => exact (overlayTag_some h).2.2

/-- An instance tag that alone has the name of a tag of the profile takes its place. -/
theorem overridden_eq {device : Device} {p t : Tag} (hname : p.name ≠ "") (hmem : t ∈ device.tags)
    (heq : t.name = p.name) (hunique : ∀ u ∈ device.tags, u.name = p.name → u = t) :
    overridden device p = t := by
  rw [← heq] at hname
  obtain ⟨u, hu⟩ := overlayTag_isSome hname hmem
  obtain ⟨-, humem, huname⟩ := overlayTag_some hu
  rw [overridden, ← heq, hu]
  exact hunique u humem (huname.trans heq)

/-- Otherwise the tag of the profile stays. -/
theorem overridden_of_unused {device : Device} {p : Tag}
    (h : ∀ t ∈ device.tags, t.name ≠ p.name) : overridden device p = p := by
  unfold overridden
  cases hover : overlayTag device p.name with
  | none => rfl
  | some t =>
    obtain ⟨-, hmem, hname⟩ := overlayTag_some hover
    exact absurd hname (h t hmem)

/-! ### The union -/

section Merge
variable {device : Device} {profile : DeviceProfile}

theorem inProfile_iff {t : Tag} :
    inProfile profile t = true ↔ ∃ p ∈ profile.tags, p.name = t.name := by
  simp [inProfile]

/-- The names of the overriding tags are distinct. -/
def DistinctOverrides (profile : DeviceProfile) (device : Device) : Prop :=
  ((device.tags.filter (inProfile profile)).map Tag.name).Nodup

theorem eq_of_distinctOverrides (h : DistinctOverrides profile device) {t u : Tag}
    (ht : t ∈ device.tags) (hu : u ∈ device.tags) (hprofile : inProfile profile t = true)
    (hname : u.name = t.name) : u = t := by
  have hprofile' : inProfile profile u = true := by
    rw [inProfile_iff, hname, ← inProfile_iff]
    exact hprofile
  exact List.inj_on_of_nodup_map h (List.mem_filter.mpr ⟨hu, hprofile'⟩)
    (List.mem_filter.mpr ⟨ht, hprofile⟩) hname

/-- The tags of the profile that are overridden become the tags that override them. -/
theorem overriding_perm (hnames : (profile.tags.map Tag.name).Nodup)
    (hnamed : ∀ p ∈ profile.tags, p.name ≠ "") (h : DistinctOverrides profile device) :
    ((profile.tags.filter fun p => device.tags.any fun t => t.name == p.name).map
      (overridden device)).Perm (device.tags.filter (inProfile profile)) := by
  rw [List.perm_ext_iff_of_nodup]
  · intro t
    constructor
    · intro ht
      obtain ⟨p, hp, rfl⟩ := List.mem_map.mp ht
      obtain ⟨hp, hused⟩ := List.mem_filter.mp hp
      obtain ⟨t, ht, hname⟩ : ∃ t ∈ device.tags, t.name = p.name := by simpa using hused
      have hprofile : inProfile profile t = true := inProfile_iff.mpr ⟨p, hp, hname.symm⟩
      rw [overridden_eq (hnamed p hp) ht hname fun u hu huname =>
        eq_of_distinctOverrides h ht hu hprofile (huname.trans hname.symm)]
      exact List.mem_filter.mpr ⟨ht, hprofile⟩
    · intro ht
      obtain ⟨ht, hprofile⟩ := List.mem_filter.mp ht
      obtain ⟨p, hp, hname⟩ := inProfile_iff.mp hprofile
      refine List.mem_map.mpr ⟨p, List.mem_filter.mpr ⟨hp, ?_⟩, ?_⟩
      · simpa using ⟨t, ht, hname.symm⟩
      · exact overridden_eq (hnamed p hp) ht hname.symm fun u hu huname =>
          eq_of_distinctOverrides h ht hu hprofile (huname.trans hname)
  · apply List.Nodup.of_map Tag.name
    rw [List.map_map, show Tag.name ∘ overridden device = Tag.name from
      funext (overridden_name device)]
    exact hnames.sublist (List.filter_sublist.map _)
  · exact List.Nodup.of_map Tag.name h

/-- The unused tags of the profile stay where they are. -/
theorem unusedTags_eq_map : (unusedTags profile device).map (overridden device) =
    unusedTags profile device := by
  rw [List.map_congr_left (g := id), List.map_id]
  intro p hp
  apply overridden_of_unused
  intro t ht hname
  have hunused := (List.mem_filter.mp hp).2
  simp only [Bool.not_eq_true', List.any_eq_false, beq_iff_eq] at hunused
  exact hunused t ht hname

theorem unusedTags_sublist : (unusedTags profile device).Sublist (mergeTags device profile) := by
  rw [mergeTags_eq, ← unusedTags_eq_map]
  exact (List.filter_sublist.map _).trans (List.sublist_append_left _ _)

/-- With names in the profile, what is added is what is not of the profile. -/
theorem filter_added (hnamed : ∀ p ∈ profile.tags, p.name ≠ "") (tags : List Tag) :
    (tags.filter fun t => t.name == "" || !inProfile profile t) =
      tags.filter fun t => !inProfile profile t := by
  apply List.filter_congr
  intro t ht
  by_cases hname : t.name = ""
  · have hnot : inProfile profile t = false := by
      rw [Bool.eq_false_iff, ne_eq, inProfile_iff]
      rintro ⟨p, hp, heq⟩
      exact hnamed p hp (heq.trans hname)
    simp [hnot]
  · simp [hname]

/-- With distinct names that are overridden at most once, nothing disappears. -/
theorem mergeTags_perm (hnames : (profile.tags.map Tag.name).Nodup)
    (hnamed : ∀ p ∈ profile.tags, p.name ≠ "") (h : DistinctOverrides profile device) :
    (mergeTags device profile).Perm (unusedTags profile device ++ device.tags) := by
  have hprofile : (profile.tags.map (overridden device)).Perm
      (unusedTags profile device ++ device.tags.filter (inProfile profile)) := by
    have hsplit := (List.filter_append_perm
      (fun p : Tag => !(device.tags.any fun t => t.name == p.name)) profile.tags).map
        (overridden device)
    rw [List.map_append] at hsplit
    refine hsplit.symm.trans ?_
    simp only [Bool.not_not]
    refine List.Perm.append ?_ (overriding_perm hnames hnamed h)
    exact List.Perm.of_eq unusedTags_eq_map
  rw [mergeTags_eq, filter_added hnamed]
  refine (hprofile.append_right _).trans ?_
  rw [List.append_assoc]
  exact (List.filter_append_perm (inProfile profile) device.tags).append_left _

theorem merged_names : (profile.tags.map (overridden device)).map Tag.name =
    profile.tags.map Tag.name := by
  rw [List.map_map]
  exact List.map_congr_left fun p _ => overridden_name device p

/-- With distinct names, a tag of the profile is overridden by what it was merged to. -/
theorem overridden_mergeTags (hnames : (profile.tags.map Tag.name).Nodup)
    (hnamed : ∀ p ∈ profile.tags, p.name ≠ "") {p : Tag} (hp : p ∈ profile.tags) :
    overridden { device with tags := mergeTags device profile } p = overridden device p := by
  refine overridden_eq (hnamed p hp) ?_ (overridden_name device p) ?_
  · exact List.mem_append_left _ (List.mem_map_of_mem hp)
  · intro u hu huname
    rw [mergeTags_eq] at hu
    rcases List.mem_append.mp hu with hu | hu
    · obtain ⟨q, hq, rfl⟩ := List.mem_map.mp hu
      rw [overridden_name] at huname
      rw [List.inj_on_of_nodup_map hnames hq hp huname]
    · -- what is added has no name of the profile
      have hadded := (List.mem_filter.mp hu).2
      have hprofile : inProfile profile u = true := inProfile_iff.mpr ⟨p, hp, huname.symm⟩
      have hempty : u.name ≠ "" := fun h => hnamed p hp (huname.symm.trans h)
      simp [hprofile, hempty] at hadded

/-- What is not of the profile is kept. -/
theorem filter_mergeTags (hnamed : ∀ p ∈ profile.tags, p.name ≠ "") :
    (mergeTags device profile).filter (fun t => !inProfile profile t) =
      device.tags.filter fun t => !inProfile profile t := by
  have hnone : (profile.tags.map (overridden device)).filter (fun t => !inProfile profile t) = [] := by
    rw [List.filter_eq_nil_iff]
    intro t ht
    obtain ⟨p, hp, rfl⟩ := List.mem_map.mp ht
    have hin : inProfile profile (overridden device p) = true :=
      inProfile_iff.mpr ⟨p, hp, (overridden_name device p).symm⟩
    simp [hin]
  rw [mergeTags_eq, filter_added hnamed, List.filter_append, List.filter_filter, hnone,
    List.nil_append]
  apply List.filter_congr
  intro t _
  simp

/-- With distinct names, merging again changes nothing. -/
theorem mergeTags_mergeTags (hnames : (profile.tags.map Tag.name).Nodup)
    (hnamed : ∀ p ∈ profile.tags, p.name ≠ "") :
    mergeTags { device with tags := mergeTags device profile } profile =
      mergeTags device profile := by
  have hmap : profile.tags.map (overridden { device with tags := mergeTags device profile }) =
      profile.tags.map (overridden device) :=
    List.map_congr_left fun p hp => overridden_mergeTags hnames hnamed hp
  rw [mergeTags_eq, filter_added hnamed]
  show _ ++ (mergeTags device profile).filter (fun t => !inProfile profile t) = _
  rw [filter_mergeTags hnamed, hmap, mergeTags_eq, filter_added hnamed]

/-- Each merge adds the tags of the profile that have no name. -/
theorem countP_mergeTags : (mergeTags device profile).countP (·.name == "") =
    profile.tags.countP (·.name == "") + device.tags.countP (·.name == "") := by
  rw [mergeTags_eq, List.countP_append, List.countP_map, List.countP_filter]
  congr 1
  · apply List.countP_congr
    intro p _
    simp
  · apply List.countP_congr
    intro t _
    simp only [Bool.and_eq_true, beq_iff_eq, Bool.or_eq_true]
    tauto

theorem named_of_mergeTags_eq
    (h : mergeTags { device with tags := mergeTags device profile } profile =
      mergeTags device profile) : ∀ p ∈ profile.tags, p.name ≠ "" := by
  have hcount : (mergeTags { device with tags := mergeTags device profile } profile).countP
      (·.name == "") = profile.tags.countP (·.name == "") +
        (mergeTags device profile).countP (·.name == "") := countP_mergeTags
  rw [h] at hcount
  have hzero : profile.tags.countP (·.name == "") = 0 := by omega
  rw [List.countP_eq_zero] at hzero
  simpa using hzero

/-- If nothing disappears, the overriding tags have distinct names. -/
theorem distinctOverrides_of_perm (hnames : (profile.tags.map Tag.name).Nodup)
    (hnamed : ∀ p ∈ profile.tags, p.name ≠ "")
    (h : (mergeTags device profile).Perm (unusedTags profile device ++ device.tags)) :
    DistinctOverrides profile device := by
  have hperm := (h.filter (inProfile profile)).map Tag.name
  rw [mergeTags_eq, filter_added hnamed, List.filter_append, List.filter_filter] at hperm
  have hall : (profile.tags.map (overridden device)).filter (inProfile profile) =
      profile.tags.map (overridden device) := by
    rw [List.filter_eq_self]
    intro t ht
    obtain ⟨p, hp, rfl⟩ := List.mem_map.mp ht
    exact inProfile_iff.mpr ⟨p, hp, (overridden_name device p).symm⟩
  have hnone : device.tags.filter (fun t => inProfile profile t && !inProfile profile t) = [] := by
    simp
  rw [hall, hnone, List.append_nil, merged_names, List.filter_append, List.map_append] at hperm
  exact (List.nodup_append.mp (hperm.nodup_iff.mp hnames)).2.1

end Merge

/-! ### Projects -/

/-- The profile of a device, of several with its id the first. -/
def profileOf (project : Project) (device : Device) : Option DeviceProfile :=
  if device.profileId = "" then none
  else project.deviceProfiles.find? fun p => p.id == device.profileId

theorem expandDevice_of_profile {project : Project} {device : Device} {profile : DeviceProfile}
    (h : profileOf project device = some profile) :
    expandDevice project.deviceProfiles device =
      { device with tags := mergeTags device profile } := by
  unfold profileOf at h
  split_ifs at h with hid
  rw [expandDevice, if_neg hid, h]
  show (if profile.tags.isEmpty = true then device else _) = _
  split_ifs with hempty
  · -- a profile without tags is skipped, which is what merging them would do
    have hmerge : mergeTags device profile = device.tags := by
      rw [mergeTags_eq, List.isEmpty_iff.mp hempty]
      simp [inProfile, List.isEmpty_iff.mp hempty]
    rw [hmerge]
  · rfl

/-- The tags of an expanded device: those of its profile whose names it does not use, in
their order, and its own, each as often as before. -/
structure UnionOfTags (profile : DeviceProfile) (device expanded : Device) : Prop where
  unused : (unusedTags profile device).Sublist expanded.tags
  all : expanded.tags.Perm (unusedTags profile device ++ device.tags)

/-- Expanding a device unites the tags of its profile with its own, and changes nothing the
second time, exactly if the tags of the profile have names and no two tags of the device
have one of these. -/
theorem profile_union_iff {project : Project} {i : ℕ} {device : Device} {profile : DeviceProfile}
    (hdevice : project.devices[i]? = some device)
    (hprofile : profileOf project device = some profile)
    (hnames : (profile.tags.map Tag.name).Nodup) :
    (∃ expanded, (expandDeviceProfiles project).devices[i]? = some expanded ∧
      UnionOfTags profile device expanded ∧
      (expandDeviceProfiles (expandDeviceProfiles project)).devices[i]? = some expanded) ↔
    (∀ p ∈ profile.tags, p.name ≠ "") ∧ DistinctOverrides profile device := by
  have honce : (expandDeviceProfiles project).devices[i]? =
      some { device with tags := mergeTags device profile } := by
    rw [expandDeviceProfiles, List.getElem?_map, hdevice, Option.map_some,
      expandDevice_of_profile hprofile]
  have htwice : (expandDeviceProfiles (expandDeviceProfiles project)).devices[i]? =
      some { device with tags := mergeTags { device with tags := mergeTags device profile } profile } := by
    have hagain : profileOf (expandDeviceProfiles project)
        { device with tags := mergeTags device profile } = some profile := hprofile
    rw [expandDeviceProfiles, List.getElem?_map, honce, Option.map_some,
      expandDevice_of_profile hagain]
  rw [honce, htwice]
  constructor
  · rintro ⟨expanded, hexpanded, hunion, hsame⟩
    obtain rfl := Option.some.inj hexpanded
    have htags := congrArg Device.tags (Option.some.inj hsame)
    have hnamed := named_of_mergeTags_eq htags
    exact ⟨hnamed, distinctOverrides_of_perm hnames hnamed hunion.all⟩
  · rintro ⟨hnamed, hdistinct⟩
    refine ⟨_, rfl, ⟨unusedTags_sublist, mergeTags_perm hnames hnamed hdistinct⟩, ?_⟩
    rw [mergeTags_mergeTags hnames hnamed]

end Expansion

attribute [local instance] exactPlatform

/-- A profile of one tag. -/
def pumpProfile : DeviceProfile := { id := "pump", tags := [{ name := "speed", address := 10 }] }

/-- A device of that profile with tags of its own. -/
def pumpDevice (tags : List Tag) : Device := { id := "p1", profileId := "pump", tags := tags }

def pumpProject (tags : List Tag) : Project :=
  { deviceProfiles := [pumpProfile], devices := [pumpDevice tags] }

/-- Two tags that override the one of the profile. -/
def twoSpeeds : List Tag := [{ name := "speed", address := 1 }, { name := "speed", address := 2 }]

/-- Of two tags that override the one of the profile only the last is left. -/
theorem first_override_lost :
    profileOf (pumpProject twoSpeeds) (pumpDevice twoSpeeds) = some pumpProfile ∧
    (pumpProfile.tags.map Tag.name).Nodup ∧
    (expandDeviceProfiles (pumpProject twoSpeeds)).devices =
      [pumpDevice [{ name := "speed", address := 2 }]] ∧
    ¬ ∃ expanded, (expandDeviceProfiles (pumpProject twoSpeeds)).devices[0]? = some expanded ∧
      UnionOfTags pumpProfile (pumpDevice twoSpeeds) expanded := by
  have hmerged : (expandDeviceProfiles (pumpProject twoSpeeds)).devices =
      [pumpDevice [{ name := "speed", address := 2 }]] := by decide +kernel
  refine ⟨by decide +kernel, by decide, hmerged, ?_⟩
  rw [hmerged]
  rintro ⟨expanded, hexpanded, hunion⟩
  obtain rfl := Option.some.inj hexpanded
  have hlength : (1 : ℕ) = 2 := hunion.all.length_eq
  omega

/-- One that overrides and one beside it. -/
def speedAndFlow : List Tag := [{ name := "speed", address := 1 }, { name := "flow" }]

theorem override_kept : ∃ expanded,
    (expandDeviceProfiles (pumpProject speedAndFlow)).devices[0]? = some expanded ∧
      UnionOfTags pumpProfile (pumpDevice speedAndFlow) expanded := by
  have hdevice : (pumpProject speedAndFlow).devices[0]? = some (pumpDevice speedAndFlow) := rfl
  have hprofile : profileOf (pumpProject speedAndFlow) (pumpDevice speedAndFlow) =
      some pumpProfile := by decide +kernel
  have hdistinct : DistinctOverrides pumpProfile (pumpDevice speedAndFlow) := by
    unfold DistinctOverrides
    decide +kernel
  obtain ⟨expanded, hexpanded, hunion, -⟩ :=
    (profile_union_iff hdevice hprofile (by decide)).mpr ⟨by decide, hdistinct⟩
  exact ⟨expanded, hexpanded, hunion⟩

end OpcServer.Project
