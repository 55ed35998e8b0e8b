import OpcServer.Project.Types
import Mathlib.Data.List.Nodup

/-! The index built once from a project: a binding for every tag, numbered from one
in project order, with lookups by id and by name. The hash maps of the source keep
the first binding emplaced under a key, which is the first one in the list. -/

namespace OpcServer.Core

open Domain Project

/-- Under distinct keys the first entry of a key is the only one. -/
theorem find?_of_nodup {α κ : Type} [BEq κ] [LawfulBEq κ] (key : α → κ) {l : List α} {a : α}
    (h : (l.map key).Nodup) (ha : a ∈ l) : l.find? (fun b => key b == key a) = some a := by
  cases hf : l.find? (fun b => key b == key a) with
  | none =>
    have := List.find?_eq_none.mp hf a ha
    simp at this
  | some b =>
    have hkey : key b = key a := by simpa using List.find?_some hf
    rw [List.inj_on_of_nodup_map h (List.mem_of_find?_eq_some hf) ha hkey]

variable [Platform]

structure TagBinding where
  id : TagId := 0
  deviceId : String := ""
  endpointId : String := ""
  unitId : UInt8 := 1
  tag : Tag := {}
  deriving DecidableEq

structure RuntimeIndex where
  project : Project
  tags : List TagBinding
  deriving DecidableEq

namespace RuntimeIndex

def bindTags (device : Device) : TagId → List Tag → List TagBinding
  | _, [] => []
  | next, tag :: rest =>
    { id := next, deviceId := device.id, endpointId := device.endpointId,
      unitId := UInt8.ofInt device.unitId, tag := tag } :: bindTags device (next + 1) rest

def bindDevices : TagId → List Device → List TagBinding
  | _, [] => []
  | next, device :: rest =>
    bindTags device next device.tags ++ bindDevices (next + device.tags.length) rest

def build (project : Project) : RuntimeIndex := ⟨project, bindDevices 1 project.devices⟩

def findById (index : RuntimeIndex) (id : TagId) : Option TagBinding :=
  index.tags.find? (fun b => b.id == id)

def findByName (index : RuntimeIndex) (name : String) : Option TagBinding :=
  index.tags.find? (fun b => b.tag.name == name)

def endpoint (index : RuntimeIndex) (id : String) : Option Endpoint :=
  index.project.endpoints.find? (fun e => e.id == id)

def device (index : RuntimeIndex) (id : String) : Option Device :=
  index.project.devices.find? (fun d => d.id == id)

def groupsForEndpoint (index : RuntimeIndex) (endpointId : String) : List PollGroup :=
  index.project.pollGroups.filter fun group =>
    match index.device group.deviceId with
    | some dev => dev.endpointId == endpointId
    | none => false

theorem bindTags_length (device : Device) (next : TagId) (tags : List Tag) :
    (bindTags device next tags).length = tags.length := by
  induction tags generalizing next with
  | nil => rfl
  | cons tag rest ih => simp [bindTags, ih]

theorem mem_bindTags {device : Device} {next : TagId} {tags : List Tag} {b : TagBinding}
    (h : b ∈ bindTags device next tags) :
    b.tag ∈ tags ∧ b.deviceId = device.id ∧ b.endpointId = device.endpointId ∧
      b.unitId = UInt8.ofInt device.unitId := by
  induction tags generalizing next with
  | nil => simp [bindTags] at h
  | cons tag rest ih =>
    rcases List.mem_cons.mp h with rfl | h
    · exact ⟨by simp, rfl, rfl, rfl⟩
    · obtain ⟨ht, hd⟩ := ih h
      exact ⟨List.mem_cons_of_mem _ ht, hd⟩

theorem exists_mem_bindTags (device : Device) {tags : List Tag} {tag : Tag} (next : TagId)
    (h : tag ∈ tags) : ∃ b ∈ bindTags device next tags, b.tag = tag := by
  induction tags generalizing next with
  | nil => simp at h
  | cons t rest ih =>
    rcases List.mem_cons.mp h with rfl | h
    · exact ⟨_, List.mem_cons_self, rfl⟩
    · obtain ⟨b, hb, ht⟩ := ih (next + 1) h
      exact ⟨b, List.mem_cons_of_mem _ hb, ht⟩

/-- Every binding comes from a tag of some device. -/
theorem mem_bindDevices {next : TagId} {devices : List Device} {b : TagBinding}
    (h : b ∈ bindDevices next devices) :
    ∃ d ∈ devices, b.tag ∈ d.tags ∧ b.deviceId = d.id ∧ b.endpointId = d.endpointId ∧
      b.unitId = UInt8.ofInt d.unitId := by
  induction devices generalizing next with
  | nil => simp [bindDevices] at h
  | cons d rest ih =>
    rcases List.mem_append.mp h with h | h
    · exact ⟨d, List.mem_cons_self, mem_bindTags h⟩
    · obtain ⟨d', hd', hb⟩ := ih h
      exact ⟨d', List.mem_cons_of_mem _ hd', hb⟩

/-- Every tag of every device is bound. -/
theorem exists_mem_bindDevices {devices : List Device} {d : Device} {tag : Tag} (next : TagId)
    (hd : d ∈ devices) (ht : tag ∈ d.tags) : ∃ b ∈ bindDevices next devices, b.tag = tag := by
  induction devices generalizing next with
  | nil => simp at hd
  | cons d' rest ih =>
    rcases List.mem_cons.mp hd with rfl | hd
    · obtain ⟨b, hb, h⟩ := exists_mem_bindTags d next ht
      exact ⟨b, List.mem_append_left _ hb, h⟩
    · obtain ⟨b, hb, h⟩ := ih (next + d'.tags.length) hd
      exact ⟨b, List.mem_append_right _ hb, h⟩

theorem bindTags_ids (device : Device) (next : TagId) (tags : List Tag) :
    (bindTags device next tags).map TagBinding.id = List.range' next tags.length := by
  induction tags generalizing next with
  | nil => rfl
  | cons tag rest ih => rw [bindTags, List.map_cons, ih, List.length_cons, List.range'_succ]

/-- Ids are consecutive numbers in project order. -/
theorem bindDevices_ids (next : TagId) (devices : List Device) :
    (bindDevices next devices).map TagBinding.id =
      List.range' next (bindDevices next devices).length := by
  induction devices generalizing next with
  | nil => rfl
  | cons d rest ih =>
    rw [bindDevices, List.map_append, bindTags_ids, ih, List.length_append, bindTags_length,
      ← List.range'_append_1]

/-- Every binding is the one found under its id. -/
theorem findById_of_mem {project : Project} {b : TagBinding} (h : b ∈ (build project).tags) :
    (build project).findById b.id = some b := by
  have hnodup : ((build project).tags.map TagBinding.id).Nodup := by
    rw [build, bindDevices_ids]
    exact List.nodup_range'
  exact find?_of_nodup TagBinding.id hnodup h

/-- A tag name of a device is found by name. -/
theorem findByName_isSome {project : Project} {d : Device} {tag : Tag} (hd : d ∈ project.devices)
    (ht : tag ∈ d.tags) : ((build project).findByName tag.name).isSome := by
  obtain ⟨b, hb, h⟩ := exists_mem_bindDevices 1 hd ht
  rw [findByName, List.find?_isSome]
  exact ⟨b, hb, by simp [h]⟩

end RuntimeIndex

end OpcServer.Core
