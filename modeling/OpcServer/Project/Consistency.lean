import OpcServer.Project.LoadText
import Mathlib.Data.List.Nodup

/-! Names and references of an accepted project. The schema rules out empty names,
which the semantic checks pass over; the checks keep the names apart and follow every
reference. Together they leave nothing dangling. -/

set_option linter.dupNamespace false

namespace OpcServer.Project

open Domain

/-! ### Keys seen so far -/

/-- The keys are pairwise distinct and none of them was seen before. -/
def Unseen {α : Type} (seen keys : List α) : Prop := keys.Nodup ∧ ∀ k ∈ keys, k ∉ seen

theorem Unseen.nil {α : Type} (seen : List α) : Unseen seen [] := ⟨List.nodup_nil, by simp⟩

theorem Unseen.cons {α : Type} {seen keys : List α} {k : α} (hk : k ∉ seen)
    (h : Unseen (k :: seen) keys) : Unseen seen (k :: keys) := by
  refine ⟨List.nodup_cons.mpr ⟨fun hmem => h.2 k hmem List.mem_cons_self, h.1⟩, ?_⟩
  rintro x (_ | ⟨_, hx⟩)
  · exact hk
  · exact fun hseen => h.2 x hx (List.mem_cons_of_mem _ hseen)

theorem Unseen.append {α : Type} {seen seen' keys keys' : List α} (h : Unseen seen keys)
    (h' : Unseen seen' keys') (hsub : ∀ k, k ∈ seen ∨ k ∈ keys → k ∈ seen') :
    Unseen seen (keys ++ keys') := by
  refine ⟨List.nodup_append.mpr ⟨h.1, h'.1, ?_⟩, ?_⟩
  · rintro x hx y hy rfl
    exact h'.2 x hy (hsub x (.inr hx))
  · intro x hx
    rcases List.mem_append.mp hx with hx | hx
    · exact h.2 x hx
    · exact fun hseen => h'.2 x hx (hsub x (.inl hseen))

theorem validateEndpoints_unseen {i : ℕ} {seen : List String} {endpoints : List Endpoint}
    (hne : ∀ e ∈ endpoints, e.id ≠ "") (h : NoErrors (validateEndpoints i seen endpoints)) :
    Unseen seen (endpoints.map Endpoint.id) := by
  induction endpoints generalizing i seen with
  | nil => exact .nil seen
  | cons e rest ih =>
    rw [validateEndpoints, if_neg (hne e List.mem_cons_self), noErrors_append] at h
    have hfresh : e.id ∉ seen := by
      have := h.1
      simp only [validateEndpoint, noErrors_append, noErrors_check] at this
      simpa using this.1
    exact .cons hfresh (ih (fun e' he' => hne e' (List.mem_cons_of_mem _ he')) h.2)

variable [Platform]

theorem validateGroups_unseen {project : Project} {i : ℕ} {seen : List String}
    {groups : List PollGroup} (hne : ∀ g ∈ groups, g.id ≠ "")
    (h : NoErrors (validateGroups project i seen groups)) :
    Unseen seen (groups.map PollGroup.id) := by
  induction groups generalizing i seen with
  | nil => exact .nil seen
  | cons g rest ih =>
    rw [validateGroups, noErrors_append] at h
    have hid : g.id ≠ "" := hne g List.mem_cons_self
    have hfresh : g.id ∉ seen := by
      have := h.1
      simp only [validateGroup, noErrors_append, noErrors_check] at this
      simpa [hid] using this.1.1.1.1.1
    exact .cons hfresh (ih (fun g' hg' => hne g' (List.mem_cons_of_mem _ hg')) h.2)

/-- The names of a device's tags are new, and are among the names seen after it. -/
theorem validateTags_unseen {path : String} {i : ℕ} {own all : List String} {tags : List Tag}
    (hne : ∀ t ∈ tags, t.name ≠ "") (h : NoErrors (validateTags path i own all tags).1) :
    Unseen all (tags.map Tag.name) ∧
      ∀ name, name ∈ all ∨ name ∈ tags.map Tag.name → name ∈ (validateTags path i own all tags).2 := by
  induction tags generalizing i own all with
  | nil => exact ⟨.nil all, by simp [validateTags]⟩
  | cons tag rest ih =>
    have hname : tag.name ≠ "" := hne tag List.mem_cons_self
    rw [validateTags] at h ⊢
    dsimp only at h ⊢
    split at h
    · simp at h
    · split at h
      · simp at h
      · rename_i hown hall
        have hfresh : tag.name ∉ all := by simpa [hname] using hall
        rw [noErrors_append] at h
        obtain ⟨hrest, hseen⟩ := ih (fun t ht => hne t (List.mem_cons_of_mem _ ht)) h.2
        rw [if_neg hown, if_neg hall, if_neg hname]
        refine ⟨.cons hfresh hrest, ?_⟩
        intro name hn
        apply hseen
        simp only [List.map_cons, List.mem_cons] at hn
        simp only [List.singleton_append, List.mem_cons]
        tauto

theorem validateDevices_unseen {project : Project} {i : ℕ} {seen all : List String}
    {devices : List Device} (hne : ∀ d ∈ devices, d.id ≠ "")
    (htags : ∀ d ∈ devices, ∀ t ∈ d.tags, t.name ≠ "")
    (h : NoErrors (validateDevices project i seen all devices)) :
    Unseen seen (devices.map Device.id) ∧
      Unseen all ((devices.flatMap Device.tags).map Tag.name) := by
  induction devices generalizing i seen all with
  | nil => exact ⟨.nil seen, .nil all⟩
  | cons d rest ih =>
    simp only [validateDevices, noErrors_append] at h
    obtain ⟨⟨hdev, hown⟩, hrest⟩ := h
    have hid : d.id ≠ "" := hne d List.mem_cons_self
    have hfresh : d.id ∉ seen := by
      simp only [validateDevice, noErrors_append, noErrors_check] at hdev
      simpa [hid] using hdev.1.1.1
    obtain ⟨hnames, hseen⟩ := validateTags_unseen (htags d List.mem_cons_self) hown
    obtain ⟨hids, hothers⟩ := ih (fun d' hd' => hne d' (List.mem_cons_of_mem _ hd'))
      (fun d' hd' => htags d' (List.mem_cons_of_mem _ hd')) hrest
    refine ⟨.cons hfresh hids, ?_⟩
    rw [List.flatMap_cons, List.map_append]
    exact hnames.append hothers hseen

/-! ### Names that the schema requires -/

/-- The parts of a document that was read without errors, each read without errors. -/
theorem parseProject_noErrors {root : Json} (hroot : Schema.project.conforms root = true)
    (h : NoErrors (parseProject root).2) :
    (parseProject root).1.endpoints = (requiredEach (kept parseEndpoint) root "endpoints").1 ∧
    NoErrors (requiredEach (kept parseEndpoint) root "endpoints").2 ∧
    (parseProject root).1.deviceProfiles =
      (eachIn parseProfile root "deviceProfiles" "deviceProfiles").1 ∧
    NoErrors (eachIn parseProfile root "deviceProfiles" "deviceProfiles").2 ∧
    (parseProject root).1.devices = (requiredEach parseDevice root "devices").1 ∧
    NoErrors (requiredEach parseDevice root "devices").2 ∧
    (parseProject root).1.pollGroups = (requiredEach parseGroup root "pollGroups").1 ∧
    NoErrors (requiredEach parseGroup root "pollGroups").2 := by
  have hobj : root.isObject = true := isObject_of_conforms hroot
  simp only [parseProject, hobj, Bool.not_true, Bool.false_eq_true, if_false,
    noErrors_append] at h ⊢
  obtain ⟨⟨⟨⟨-, hendpoints⟩, hprofiles⟩, hdevices⟩, hgroups⟩ := h
  exact ⟨trivial, hendpoints, trivial, hprofiles, trivial, hdevices, trivial, hgroups⟩

theorem parseEndpoint_id {path : String} {j : Json} {e : Endpoint}
    (hconf : Schema.endpoint.conforms j = true) (he : e ∈ (kept parseEndpoint path j).1)
    (h : NoErrors (kept parseEndpoint path j).2) : e.id ≠ "" := by
  have hobj : j.isObject = true := isObject_of_conforms hconf
  simp only [kept, parseEndpoint, hobj, Bool.not_true, Bool.false_eq_true, if_false,
    noErrors_append, List.mem_singleton] at he h
  subst he
  exact requiredString_ne_empty hconf (fun v => by simp [Schema.propertyConforms]) h.1.1.1

theorem parseTag_name {path : String} {j : Json} {t : Tag}
    (hconf : Schema.tag.conforms j = true) (ht : t ∈ (kept parseTag path j).1)
    (h : NoErrors (kept parseTag path j).2) : t.name ≠ "" := by
  have hobj : j.isObject = true := isObject_of_conforms hconf
  simp only [kept, parseTag, hobj, Bool.not_true, Bool.false_eq_true, if_false,
    noErrors_append, List.mem_singleton] at ht h
  subst ht
  exact requiredString_ne_empty hconf (fun v => by simp [Schema.propertyConforms]) h.1.1.1

/-- The tags of a profile or a device have names. -/
theorem parseTags_names {required : List String} {properties : List (String × Schema)}
    {path : String} {j : Json} (hconf : (Schema.object required properties).conforms j = true)
    (hkey : ∀ v, Schema.propertyConforms properties "tags" v = (Schema.array 0 .tag).conforms v)
    (h : NoErrors (parseTags path j).2) : ∀ t ∈ (parseTags path j).1, t.name ≠ "" := by
  intro t ht
  obtain ⟨path', item, hitem, hmem, hno⟩ := each_noErrors ht h
  cases hitems : j.array? "tags" with
  | none => simp [hitems] at hitem
  | some items =>
    rw [hitems] at hitem
    have harray := Schema.conforms_get? hconf (array?_eq_some hitems)
    rw [hkey] at harray
    exact parseTag_name (Schema.conforms_array harray hitem) hmem hno

theorem parseProfile_tags {path : String} {j : Json} {p : DeviceProfile}
    (hconf : Schema.deviceProfile.conforms j = true) (hp : p ∈ (parseProfile path j).1)
    (h : NoErrors (parseProfile path j).2) : ∀ t ∈ p.tags, t.name ≠ "" := by
  have hobj : j.isObject = true := isObject_of_conforms hconf
  simp only [parseProfile, hobj, Bool.not_true, Bool.false_eq_true, if_false,
    noErrors_append, List.mem_singleton] at hp h
  subst hp
  exact parseTags_names hconf (fun v => by simp [Schema.propertyConforms]) h.2

theorem parseDevice_names {path : String} {j : Json} {d : Device}
    (hconf : Schema.device.conforms j = true) (hd : d ∈ (parseDevice path j).1)
    (h : NoErrors (parseDevice path j).2) :
    d.id ≠ "" ∧ d.endpointId ≠ "" ∧ ∀ t ∈ d.tags, t.name ≠ "" := by
  have hobj : j.isObject = true := isObject_of_conforms hconf
  simp only [parseDevice, hobj, Bool.not_true, Bool.false_eq_true, if_false,
    noErrors_append, List.mem_singleton] at hd h
  subst hd
  exact ⟨requiredString_ne_empty hconf (fun v => by simp [Schema.propertyConforms]) h.1.1.1,
    requiredString_ne_empty hconf (fun v => by simp [Schema.propertyConforms]) h.1.1.2,
    parseTags_names hconf (fun v => by simp [Schema.propertyConforms]) h.2⟩

theorem parseGroup_id {path : String} {j : Json} {g : PollGroup}
    (hconf : Schema.pollGroup.conforms j = true) (hg : g ∈ (parseGroup path j).1)
    (h : NoErrors (parseGroup path j).2) : g.id ≠ "" := by
  have hobj : j.isObject = true := isObject_of_conforms hconf
  simp only [parseGroup, hobj, Bool.not_true, Bool.false_eq_true, if_false,
    noErrors_append, List.mem_singleton] at hg h
  subst hg
  exact requiredString_ne_empty hconf (fun v => by simp [Schema.propertyConforms]) h.1.1.1.1.1

/-! ### Accepted projects -/

/-- Ids and names are non-empty and pairwise distinct, and every reference leads to its
object. -/
structure Project.Consistent (project : Project) : Prop where
  endpointIds : (project.endpoints.map Endpoint.id).Nodup ∧ ∀ e ∈ project.endpoints, e.id ≠ ""
  deviceIds : (project.devices.map Device.id).Nodup ∧ ∀ d ∈ project.devices, d.id ≠ ""
  groupIds : (project.pollGroups.map PollGroup.id).Nodup ∧ ∀ g ∈ project.pollGroups, g.id ≠ ""
  tagNames : ((project.devices.flatMap Device.tags).map Tag.name).Nodup ∧
    ∀ d ∈ project.devices, ∀ t ∈ d.tags, t.name ≠ ""
  endpoints : ∀ d ∈ project.devices, ∃ e ∈ project.endpoints, e.id = d.endpointId
  groups : ∀ g ∈ project.pollGroups, ∃ d ∈ project.devices, d.id = g.deviceId ∧
    ∀ name ∈ g.tagNames, ∃ t ∈ d.tags, t.name = name

/-- Non-empty names, before the semantic checks. -/
structure Project.Named (project : Project) : Prop where
  endpoints : ∀ e ∈ project.endpoints, e.id ≠ ""
  profileTags : ∀ p ∈ project.deviceProfiles, ∀ t ∈ p.tags, t.name ≠ ""
  devices : ∀ d ∈ project.devices, d.id ≠ "" ∧ d.endpointId ≠ "" ∧ ∀ t ∈ d.tags, t.name ≠ ""
  groups : ∀ g ∈ project.pollGroups, g.id ≠ "" ∧ g.deviceId ≠ ""

theorem parseProject_named {root : Json} (hroot : Schema.project.conforms root = true)
    (h : NoErrors (parseProject root).2) : (parseProject root).1.Named := by
  obtain ⟨hes, hendpoints, hps, hprofiles, hds, hdevices, hgs, hgroups⟩ :=
    parseProject_noErrors hroot h
  refine ⟨?_, ?_, ?_, ?_⟩
  · intro e he
    rw [hes] at he
    obtain ⟨items, hitems, path, item, hitem, hmem, hno⟩ := requiredEach_noErrors he hendpoints
    have harray := Schema.conforms_get? hroot (array?_eq_some hitems)
    have hconf : Schema.endpoint.conforms item = true := Schema.conforms_array harray hitem
    exact parseEndpoint_id hconf hmem hno
  · intro p hp
    rw [hps] at hp
    obtain ⟨path, item, hitem, hmem, hno⟩ := each_noErrors hp hprofiles
    cases hitems : root.array? "deviceProfiles" with
    | none => simp [hitems] at hitem
    | some items =>
      rw [hitems] at hitem
      have harray : (Schema.array 0 .deviceProfile).conforms (.array items) = true := by
        simpa [Schema.propertyConforms] using Schema.conforms_get? hroot (array?_eq_some hitems)
      have hconf : Schema.deviceProfile.conforms item = true :=
        Schema.conforms_array harray hitem
      exact parseProfile_tags hconf hmem hno
  · intro d hd
    rw [hds] at hd
    obtain ⟨items, hitems, path, item, hitem, hmem, hno⟩ := requiredEach_noErrors hd hdevices
    have harray := Schema.conforms_get? hroot (array?_eq_some hitems)
    have hconf : Schema.device.conforms item = true := Schema.conforms_array harray hitem
    exact parseDevice_names hconf hmem hno
  · intro g hg
    refine ⟨?_, deviceId_ne_empty hroot h hg⟩
    rw [hgs] at hg
    obtain ⟨items, hitems, path, item, hitem, hmem, hno⟩ := requiredEach_noErrors hg hgroups
    have harray := Schema.conforms_get? hroot (array?_eq_some hitems)
    have hconf : Schema.pollGroup.conforms item = true := Schema.conforms_array harray hitem
    exact parseGroup_id hconf hmem hno

theorem overlayTag_some {device : Device} {name : String} {t : Tag}
    (h : overlayTag device name = some t) : name ≠ "" ∧ t ∈ device.tags ∧ t.name = name := by
  unfold overlayTag at h
  split_ifs at h with hname
  have hmem := List.mem_of_find?_eq_some h
  have hprop := List.find?_some h
  exact ⟨hname, List.mem_reverse.mp hmem, by simpa using hprop⟩

/-- A merged tag is one of the device or of its profile. -/
theorem mem_mergeTags {device : Device} {profile : DeviceProfile} {t : Tag}
    (h : t ∈ mergeTags device profile) : t ∈ device.tags ∨ t ∈ profile.tags := by
  rcases List.mem_append.mp h with h | h
  · obtain ⟨p, hp, rfl⟩ := List.mem_map.mp h
    cases ho : overlayTag device p.name with
    | none => exact .inr hp
    | some t => exact .inl (overlayTag_some ho).2.1
  · exact .inl (List.mem_filter.mp h).1

/-- Expansion keeps the ids of a device and takes its tags from it or from a profile. -/
theorem expandDevice_spec (profiles : List DeviceProfile) (device : Device) :
    (expandDevice profiles device).id = device.id ∧
      (expandDevice profiles device).endpointId = device.endpointId ∧
      ∀ t ∈ (expandDevice profiles device).tags, t ∈ device.tags ∨ ∃ p ∈ profiles, t ∈ p.tags := by
  unfold expandDevice
  split
  · exact ⟨rfl, rfl, fun t ht => .inl ht⟩
  · split
    · exact ⟨rfl, rfl, fun t ht => .inl ht⟩
    · rename_i profile hfind
      split
      · exact ⟨rfl, rfl, fun t ht => .inl ht⟩
      · refine ⟨rfl, rfl, fun t ht => ?_⟩
        exact (mem_mergeTags ht).imp_right fun hp => ⟨profile, List.mem_of_find?_eq_some hfind, hp⟩

theorem Project.Named.expand {project : Project} (h : project.Named) :
    (expandDeviceProfiles project).Named where
  endpoints := h.endpoints
  profileTags := h.profileTags
  groups := h.groups
  devices := by
    intro d' hd'
    obtain ⟨d, hd, rfl⟩ := List.mem_map.mp hd'
    obtain ⟨hid, hep, htags⟩ := expandDevice_spec project.deviceProfiles d
    obtain ⟨hne, hepne, hown⟩ := h.devices d hd
    refine ⟨hid ▸ hne, hep ▸ hepne, fun t ht => ?_⟩
    rcases htags t ht with ht | ⟨p, hp, ht⟩
    · exact hown t ht
    · exact h.profileTags p hp t ht

theorem validateDevices_endpoints {project : Project} {i : ℕ} {seen all : List String}
    {devices : List Device} (h : NoErrors (validateDevices project i seen all devices)) :
    ∀ d ∈ devices, d.endpointId ≠ "" → ∃ e ∈ project.endpoints, e.id = d.endpointId := by
  induction devices generalizing i seen all with
  | nil => simp
  | cons d rest ih =>
    simp only [validateDevices, noErrors_append] at h
    rintro d' (_ | ⟨_, hd⟩) hne
    · have := h.1.1
      simp only [validateDevice, noErrors_append, noErrors_check] at this
      simpa [hne] using this.1.1.2
    · exact ih h.2 d' hd hne

theorem devicesById_eq {project : Project} {id : String} {d : Device}
    (h : devicesById project id = some d) : d ∈ project.devices ∧ d.id = id := by
  unfold devicesById at h
  split at h
  · cases h
  · exact ⟨List.mem_of_find?_eq_some h, by simpa using List.find?_some h⟩

/-- The semantic checks make a project with names consistent. -/
theorem Project.Named.consistent {project : Project} (hn : project.Named)
    (h : NoErrors (validate project)) : project.Consistent := by
  obtain ⟨-, hchecked⟩ := validate_noErrors h
  simp only [validate, noErrors_append] at h
  obtain ⟨⟨⟨⟨-, hendpoints⟩, hdevices⟩, hgroups⟩, -⟩ := h
  have hids := fun d hd => (hn.devices d hd).1
  have htags := fun d hd => (hn.devices d hd).2.2
  obtain ⟨hdeviceIds, hnames⟩ := validateDevices_unseen hids htags hdevices
  refine ⟨⟨(validateEndpoints_unseen hn.endpoints hendpoints).1, hn.endpoints⟩,
    ⟨hdeviceIds.1, hids⟩,
    ⟨(validateGroups_unseen (fun g hg => (hn.groups g hg).1) hgroups).1,
      fun g hg => (hn.groups g hg).1⟩, ⟨hnames.1, htags⟩, ?_, ?_⟩
  · intro d hd
    exact validateDevices_endpoints hdevices d hd (hn.devices d hd).2.1
  · intro g hg
    obtain ⟨d, hd⟩ := Option.isSome_iff_exists.mp ((hchecked g hg).deviceId (hn.groups g hg).2)
    obtain ⟨hmem, hid⟩ := devicesById_eq hd
    exact ⟨d, hmem, hid, (hchecked g hg).tagNames d hd⟩

theorem loadJsonText_consistent {lib : JsonLibrary} (hlib : lib.ReportsViolations)
    {text sourceName : String} (h : (loadJsonText lib text sourceName).ok = true) :
    (loadJsonText lib text sourceName).project.Consistent := by
  obtain ⟨root, hparse, hschema, hvalid, hproject⟩ := loadJsonText_ok h
  rw [hproject]
  have hconf := hlib _ _ (noErrors_schema hschema)
  exact (parseProject_named hconf hparse).expand.consistent hvalid

theorem validateGroups_periods {project : Project} {i : ℕ} {seen : List String}
    {groups : List PollGroup} (h : NoErrors (validateGroups project i seen groups)) :
    ∀ g ∈ groups, 10 ≤ g.periodMs := by
  induction groups generalizing i seen with
  | nil => simp
  | cons g rest ih =>
    rw [validateGroups, noErrors_append] at h
    rintro g' (_ | ⟨_, hg⟩)
    · have := h.1
      simp only [validateGroup, noErrors_append, noErrors_check] at this
      simpa using this.1.1.1.1.2
    · exact ih h.2 g' hg

theorem loadJsonText_periods {lib : JsonLibrary} {text sourceName : String}
    (h : (loadJsonText lib text sourceName).ok = true) :
    ∀ g ∈ (loadJsonText lib text sourceName).project.pollGroups, 10 ≤ g.periodMs := by
  obtain ⟨root, -, -, hvalid, hproject⟩ := loadJsonText_ok h
  rw [hproject]
  simp only [validate, noErrors_append] at hvalid
  exact validateGroups_periods hvalid.1.2

end OpcServer.Project
