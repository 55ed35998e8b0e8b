import OpcServer.Core.PollAgreement
import OpcServer.Lib.Transition

/-! Two spellings of one map: with addresses counted from zero, and with addresses
counted from one. Nothing between the loader and the requests looks at the address
base, so the two dispatchers behave alike only as long as neither of them has an
address to send. -/

namespace OpcServer.Core

open Domain Project Transition

/-! ### Counting from one -/

def rebaseBlock (block : RegisterBlock) : RegisterBlock := { block with start := block.start + 1 }

def rebaseGroup (group : PollGroup) : PollGroup :=
  { group with blocks := group.blocks.map rebaseBlock }

/-- The 16-bit successor of an address, which wraps around at the last one. -/
theorem ofInt_succ (a : ℤ) :
    (UInt16.ofInt (a + 1)).toNat = (UInt16.ofInt a).toNat + 1 ∨
      (UInt16.ofInt a).toNat = 65535 ∧ (UInt16.ofInt (a + 1)).toNat = 0 := by
  have hmod : ∀ n : ℤ, ((UInt16.ofInt n).toNat : ℤ) = n % 65536 := by
    intro n
    rw [UInt16.ofInt, UInt16.toNat_ofNat']
    omega
  have h := hmod a
  have h' := hmod (a + 1)
  omega

section Base
variable [Platform]

def rebaseTag (tag : Tag) : Tag := { tag with address := tag.address + 1 }

def rebaseDevice (device : Device) : Device := { device with tags := device.tags.map rebaseTag }

def rebaseProfile (profile : DeviceProfile) : DeviceProfile :=
  { profile with tags := profile.tags.map rebaseTag }

/-- The same map with every address and block start one larger, and base one. -/
def rebase (project : Project) : Project :=
  { project with
    addressBase := 1
    deviceProfiles := project.deviceProfiles.map rebaseProfile
    devices := project.devices.map rebaseDevice
    pollGroups := project.pollGroups.map rebaseGroup }

def rebaseBinding (b : TagBinding) : TagBinding := { b with tag := rebaseTag b.tag }

/-! ### Calls -/

/-- A call made on a dispatcher, with the times it reads. -/
inductive Operation where
  | pollDue (endpointId : String) (now clock : TimestampMs)
  | enqueueWrite (tagId : TagId) (value : ScalarValue)
  | flushWrites (endpointId : String) (clock : TimestampMs)
  deriving DecidableEq

section Operate
variable {σ : Type} (index : RuntimeIndex) (transport : IModbusTransport σ)

def operate : Operation → World σ → Option (World σ)
  | .pollDue endpointId now clock, w => some (pollDue index transport endpointId now clock w).2
  | .enqueueWrite tagId value, w =>
    some { w with dispatcher := (w.dispatcher.enqueueWrite index tagId value).2 }
  | .flushWrites endpointId clock, w => some (flushWrites index transport endpointId clock w).2

/-- A flush of these writes makes a transport call. -/
def sends : List PendingWrite → Bool
  | [] => false
  | write :: rest =>
    match plan index write rest with
    | .skip => sends rest
    | .unencodable .. => false
    | .send .. => true

/-- A flush on the endpoint makes no transport call. -/
def FlushSilent (endpointId : String) (w : World σ) : Prop :=
  w.transports endpointId = none ∨ sends index (w.dispatcher.writeQueues endpointId) = false

/-- The transport after the connect of a poll, if the poll gets there. -/
def connected (endpointId : String) (now : TimestampMs) (w : World σ) : Result Unit × World σ :=
  match w.transports endpointId with
  | none => (.error (coreErr .notFound "transport not bound"), w)
  | some t =>
    if transport.isConnected t then (.ok (), w)
    else
      match index.endpoint endpointId with
      | none => (.error (coreErr .notFound "endpoint missing"), w)
      | some ep => connectEndpoint index transport endpointId now ep w

/-- The call reads and writes nothing: a flush has nothing to send, and a poll that gets
past its connect and its flush finds no tag due. -/
def Silent : Operation → World σ → Prop
  | .pollDue endpointId now clock, w =>
    ∀ w₁, connected index transport endpointId now w = (.ok (), w₁) →
      FlushSilent index endpointId w₁ ∧
      ∀ w₂, flushWrites index transport endpointId clock w₁ = (.ok (), w₂) →
        (collectDue index endpointId now (index.groupsForEndpoint endpointId) w₂).1 = []
  | .enqueueWrite _ _, _ => True
  | .flushWrites endpointId _, w => FlushSilent index endpointId w

end Operate

/-- The published values among some events. -/
def publishes (events : List Event) : List Event :=
  events.filter fun
    | .publish .. => true
    | _ => false

/-- Two runs issued the same requests and published the same values. -/
def SameBehaviour {σ : Type} (w w' : World σ) : Prop :=
  calls w.dispatcher.trace = calls w'.dispatcher.trace ∧
    publishes w.dispatcher.trace = publishes w'.dispatcher.trace

/-! ### The index of a rebased map -/

open RuntimeIndex in
theorem bindTags_rebase (device : Device) (next : TagId) (tags : List Tag) :
    bindTags (rebaseDevice device) next (tags.map rebaseTag) =
      (bindTags device next tags).map rebaseBinding := by
  induction tags generalizing next with
  | nil => rfl
  | cons tag rest ih =>
    rw [List.map_cons, bindTags, ih, bindTags, List.map_cons]
    rfl

open RuntimeIndex in
theorem bindDevices_rebase (next : TagId) (devices : List Device) :
    bindDevices next (devices.map rebaseDevice) =
      (bindDevices next devices).map rebaseBinding := by
  induction devices generalizing next with
  | nil => rfl
  | cons d rest ih =>
    have htags : (rebaseDevice d).tags = d.tags.map rebaseTag := rfl
    rw [List.map_cons, bindDevices, htags, bindTags_rebase, List.length_map, ih, bindDevices,
      List.map_append]

section Index
variable (project : Project)

theorem tags_rebase :
    (RuntimeIndex.build (rebase project)).tags =
      (RuntimeIndex.build project).tags.map rebaseBinding :=
  bindDevices_rebase 1 project.devices

theorem findById_rebase (id : TagId) :
    (RuntimeIndex.build (rebase project)).findById id =
      ((RuntimeIndex.build project).findById id).map rebaseBinding := by
  rw [RuntimeIndex.findById, tags_rebase, List.find?_map]
  rfl

theorem findByName_rebase (name : String) :
    (RuntimeIndex.build (rebase project)).findByName name =
      ((RuntimeIndex.build project).findByName name).map rebaseBinding := by
  rw [RuntimeIndex.findByName, tags_rebase, List.find?_map]
  rfl

theorem endpoint_rebase (id : String) :
    (RuntimeIndex.build (rebase project)).endpoint id = (RuntimeIndex.build project).endpoint id :=
  rfl

theorem device_rebase (id : String) :
    (RuntimeIndex.build (rebase project)).device id =
      ((RuntimeIndex.build project).device id).map rebaseDevice := by
  have hdevices : (RuntimeIndex.build (rebase project)).project.devices =
      project.devices.map rebaseDevice := rfl
  rw [RuntimeIndex.device, hdevices, List.find?_map]
  rfl

theorem groupsForEndpoint_rebase (endpointId : String) :
    (RuntimeIndex.build (rebase project)).groupsForEndpoint endpointId =
      ((RuntimeIndex.build project).groupsForEndpoint endpointId).map rebaseGroup := by
  have hgroups : (RuntimeIndex.build (rebase project)).project.pollGroups =
      project.pollGroups.map rebaseGroup := rfl
  rw [RuntimeIndex.groupsForEndpoint, hgroups, List.filter_map]
  refine congrArg (List.map rebaseGroup) (List.filter_congr fun group _ => ?_)
  simp only [Function.comp_apply, device_rebase]
  have hid : (rebaseGroup group).deviceId = group.deviceId := rfl
  rw [hid]
  cases (RuntimeIndex.build project).device group.deviceId <;> rfl

end Index

/-! ### Writes -/

section Writes
variable {project : Project}

theorem enqueueWrite_rebase (tagId : TagId) (value : ScalarValue) (d : Dispatcher) :
    d.enqueueWrite (RuntimeIndex.build (rebase project)) tagId value =
      d.enqueueWrite (RuntimeIndex.build project) tagId value := by
  rw [Dispatcher.enqueueWrite, findById_rebase, Dispatcher.enqueueWrite]
  cases (RuntimeIndex.build project).findById tagId <;> rfl

theorem continues_rebase (unit : UInt8) (nextAddr : ℤ) (write : PendingWrite) :
    continues (RuntimeIndex.build (rebase project)) unit (nextAddr + 1) write =
      (continues (RuntimeIndex.build project) unit nextAddr write).map rebaseBinding := by
  rw [continues, continues, findById_rebase]
  cases (RuntimeIndex.build project).findById write.tagId with
  | none => rfl
  | some b =>
    have haddr : (rebaseBinding b).tag.address = b.tag.address + 1 := rfl
    have harea : (rebaseBinding b).tag.area = b.tag.area := rfl
    have hunit : (rebaseBinding b).unitId = b.unitId := rfl
    simp only [Option.map_some, haddr, harea, hunit, ne_eq, add_left_inj]
    split <;> rfl

/-- A coil run shifted as a whole ends alike. -/
theorem coalesce_rebase (unit : UInt8) (nextAddr : ℤ) (bits : List UInt8)
    (batch : List PendingWrite) :
    coalesce (RuntimeIndex.build (rebase project)) unit (nextAddr + 1) bits batch =
      coalesce (RuntimeIndex.build project) unit nextAddr bits batch := by
  induction batch generalizing nextAddr bits with
  | nil => rfl
  | cons write rest ih =>
    rw [coalesce, coalesce, continues_rebase]
    cases continues (RuntimeIndex.build project) unit nextAddr write with
    | none => rfl
    | some b =>
      have hencode : Translator.encode (rebaseBinding b).tag write.value =
          Translator.encode b.tag write.value := rfl
      simp only [Option.map_some, hencode]
      cases Translator.encode b.tag write.value with
      | error e => rfl
      | ok regs =>
        simp only
        rw [add_right_comm, ih]

/-- A run that fails at some write has a write that continues it. -/
theorem address_of_coalesce_failed {index : RuntimeIndex} {unit : UInt8} {nextAddr : ℤ}
    {bits : List UInt8} {write : PendingWrite} {batch taken rest : List PendingWrite}
    {bad : PendingWrite} {e : Error}
    (h : coalesce index unit nextAddr bits (write :: batch) = .failed taken bad e rest) :
    ∃ b, index.findById write.tagId = some b ∧ b.tag.address = nextAddr := by
  rw [coalesce] at h
  split at h
  · cases h
  · rename_i b hb
    obtain ⟨hfind, -, -, haddr⟩ := continues_eq_some hb
    exact ⟨b, hfind, haddr⟩

/-- A round that sends nothing does the same on both maps. -/
theorem plan_rebase (write : PendingWrite) (batch : List PendingWrite)
    (h : ∀ request tail rest,
      plan (RuntimeIndex.build project) write batch ≠ .send request tail rest)
    (h' : ∀ request tail rest,
      plan (RuntimeIndex.build (rebase project)) write batch ≠ .send request tail rest) :
    plan (RuntimeIndex.build (rebase project)) write batch =
      plan (RuntimeIndex.build project) write batch := by
  unfold plan at h h' ⊢
  rw [findById_rebase] at h' ⊢
  cases hb : (RuntimeIndex.build project).findById write.tagId with
  | none => rfl
  | some b =>
    have hencode : Translator.encode (rebaseBinding b).tag write.value =
        Translator.encode b.tag write.value := rfl
    have harea : (rebaseBinding b).tag.area = b.tag.area := rfl
    have hunit : (rebaseBinding b).unitId = b.unitId := rfl
    have haddr : (rebaseBinding b).tag.address = b.tag.address + 1 := rfl
    simp only [hb, Option.map_some, hencode, harea, hunit, haddr] at h h' ⊢
    cases hregs : Translator.encode b.tag write.value with
    | error e => rfl
    | ok regs =>
      simp only [hregs] at h h' ⊢
      by_cases hcoil : b.tag.area = .coil
      · simp only [if_pos hcoil] at h h' ⊢
        rcases ofInt_succ b.tag.address with hsucc | ⟨hlast, hzero⟩
        · rw [hsucc, Nat.cast_add, Nat.cast_one, add_right_comm, coalesce_rebase] at h' ⊢
          cases hc : coalesce (RuntimeIndex.build project) b.unitId
              ((UInt16.ofInt b.tag.address).toNat + (coilBits regs).length) (coilBits regs) batch with
          | failed taken bad e rest => rfl
          | run bits taken rest =>
            rw [hc] at h
            exact absurd rfl (h _ _ _)
        · -- at the last address the other map wraps around, and no write continues both runs
          cases hc : coalesce (RuntimeIndex.build project) b.unitId
              ((UInt16.ofInt b.tag.address).toNat + (coilBits regs).length) (coilBits regs) batch with
          | run bits taken rest =>
            rw [hc] at h
            exact absurd rfl (h _ _ _)
          | failed taken bad e rest =>
            cases hc' : coalesce (RuntimeIndex.build (rebase project)) b.unitId
                ((UInt16.ofInt (b.tag.address + 1)).toNat + (coilBits regs).length) (coilBits regs)
                batch with
            | run bits taken rest =>
              rw [hc'] at h'
              exact absurd rfl (h' _ _ _)
            | failed taken' bad' e' rest' =>
              cases batch with
              | nil => cases hc
              | cons next batch =>
                obtain ⟨c, hfind, hc₀⟩ := address_of_coalesce_failed hc
                obtain ⟨c', hfind', hc₁⟩ := address_of_coalesce_failed hc'
                rw [findById_rebase, hfind] at hfind'
                obtain rfl := Option.some.inj hfind'
                have hshift : (rebaseBinding c).tag.address = c.tag.address + 1 := rfl
                omega
      · simp only [if_neg hcoil] at h
        exact absurd rfl (h _ _ _)

theorem sends_cons {index : RuntimeIndex} {write : PendingWrite} {batch : List PendingWrite}
    (h : sends index (write :: batch) = false) :
    (∀ request tail rest, plan index write batch ≠ .send request tail rest) ∧
      (plan index write batch = .skip → sends index batch = false) := by
  rw [sends] at h
  constructor
  · intro request tail rest hplan
    rw [hplan] at h
    cases h
  · intro hplan
    rw [hplan] at h
    exact h

theorem flushLoop_rebase {σ : Type} (transport : IModbusTransport σ) (endpointId : String)
    (clock : TimestampMs) {batch : List PendingWrite} (s : Session σ)
    (h : sends (RuntimeIndex.build project) batch = false)
    (h' : sends (RuntimeIndex.build (rebase project)) batch = false) :
    flushLoop (RuntimeIndex.build (rebase project)) transport endpointId clock 0 batch s =
      flushLoop (RuntimeIndex.build project) transport endpointId clock 0 batch s := by
  induction batch with
  | nil => rw [flushLoop_nil, flushLoop_nil]
  | cons write batch ih =>
    obtain ⟨hsend, hskip⟩ := sends_cons h
    obtain ⟨hsend', hskip'⟩ := sends_cons h'
    have hplan := plan_rebase write batch hsend hsend'
    rw [flushLoop_cons, flushLoop_cons, hplan]
    cases hp : plan (RuntimeIndex.build project) write batch with
    | skip => exact ih (hskip hp) (hskip' (hplan.trans hp))
    | unencodable lost bad e rest => rfl
    | send request tail rest => exact absurd hp (hsend request tail rest)

theorem flushWrites_rebase {σ : Type} (transport : IModbusTransport σ) (endpointId : String)
    (clock : TimestampMs) (w : World σ)
    (h : FlushSilent (RuntimeIndex.build project) endpointId w)
    (h' : FlushSilent (RuntimeIndex.build (rebase project)) endpointId w) :
    flushWrites (RuntimeIndex.build (rebase project)) transport endpointId clock w =
      flushWrites (RuntimeIndex.build project) transport endpointId clock w := by
  rw [flushWrites, flushWrites]
  split
  · rfl
  · dsimp only
    split
    · rfl
    · rename_i t ht
      have hs := h.resolve_left (by rw [ht]; simp)
      have hs' := h'.resolve_left (by rw [ht]; simp)
      rw [flushLoop_rebase transport endpointId clock _ hs hs']

end Writes

/-! ### Polls -/

section Polls
variable {project : Project} {σ : Type} (transport : IModbusTransport σ) (endpointId : String)
  (now : TimestampMs)

theorem unnamedTags_rebase (group : PollGroup) :
    unnamedTags (RuntimeIndex.build (rebase project)) (rebaseGroup group) =
      (unnamedTags (RuntimeIndex.build project) group).map rebaseBinding := by
  have hblock : ∀ b, (rebaseGroup group).blocks.any (inBlock (rebaseBinding b)) =
      group.blocks.any (inBlock b) := by
    intro b
    have hblocks : (rebaseGroup group).blocks = group.blocks.map rebaseBlock := rfl
    rw [hblocks, List.any_map]
    refine congrArg (List.any group.blocks) (funext fun block => ?_)
    simp only [Function.comp_apply, inBlock, rebaseBinding, rebaseTag, rebaseBlock, regsFor]
    grind
  have hempty : (rebaseGroup group).blocks.isEmpty = group.blocks.isEmpty := List.isEmpty_map
  have hid : (rebaseGroup group).id = group.id := rfl
  have hdevice : (rebaseGroup group).deviceId = group.deviceId := rfl
  have hfields : ∀ b, (rebaseBinding b).deviceId = b.deviceId ∧
      (rebaseBinding b).tag.group = b.tag.group := fun b => ⟨rfl, rfl⟩
  simp only [unnamedTags, tags_rebase, List.filter_map, Function.comp_def, hblock, hempty, hid,
    hdevice, hfields, List.isEmpty_map]
  split <;> rfl

theorem collectGroupTags_rebase (group : PollGroup) :
    collectGroupTags (RuntimeIndex.build (rebase project)) (rebaseGroup group) =
      (collectGroupTags (RuntimeIndex.build project) group).map rebaseBinding := by
  have hnames : (rebaseGroup group).tagNames = group.tagNames := rfl
  rw [collectGroupTags, collectGroupTags, hnames, unnamedTags_rebase]
  split
  · rw [List.map_filterMap]
    exact List.filterMap_congr fun name _ => findByName_rebase project name
  · rfl

theorem collectDue_rebase (groups : List PollGroup) (w : World σ) :
    collectDue (RuntimeIndex.build (rebase project)) endpointId now (groups.map rebaseGroup) w =
      ((collectDue (RuntimeIndex.build project) endpointId now groups w).1.map rebaseBinding,
        (collectDue (RuntimeIndex.build project) endpointId now groups w).2) := by
  induction groups generalizing w with
  | nil => rfl
  | cons group rest ih =>
    have hkey : pollKey endpointId (rebaseGroup group) = pollKey endpointId group := rfl
    have hrecent : recentlyPolled endpointId now (rebaseGroup group) w.dispatcher =
        recentlyPolled endpointId now group w.dispatcher := rfl
    rw [List.map_cons, collectDue, collectDue, hrecent, hkey, collectGroupTags_rebase]
    split
    · exact ih w
    · rw [ih, List.map_append]

theorem markEndpointBad_rebase (d : Dispatcher) (reason : QualityReason) :
    Dispatcher.markEndpointBad (RuntimeIndex.build (rebase project)) endpointId reason now d =
      Dispatcher.markEndpointBad (RuntimeIndex.build project) endpointId reason now d := by
  rw [Dispatcher.markEndpointBad, tags_rebase, List.filter_map, List.foldl_map]
  rfl

theorem connected_rebase (w : World σ) :
    connected (RuntimeIndex.build (rebase project)) transport endpointId now w =
      connected (RuntimeIndex.build project) transport endpointId now w := by
  simp only [connected, endpoint_rebase, connectEndpoint, World.mapDispatcher,
    markEndpointBad_rebase]

theorem prepare_eq_connected (index : RuntimeIndex) (clock : TimestampMs) (w : World σ) :
    prepare index transport endpointId now clock w =
      match connected index transport endpointId now w with
      | (.error e, w) => (.error e, w)
      | (.ok (), w) => flushWrites index transport endpointId clock w := by
  cases ht : w.transports endpointId with
  | none => simp only [prepare, connected, ht]
  | some t =>
    by_cases hconn : transport.isConnected t = true
    · simp only [prepare, connected, ht, if_pos hconn]
    · cases hep : index.endpoint endpointId with
      | none => simp only [prepare, connected, ht, if_neg hconn, hep]
      | some ep =>
        cases hc : connectEndpoint index transport endpointId now ep w with
        | mk r w => cases r <;> simp only [prepare, connected, ht, if_neg hconn, hep, hc]

/-- A poll that finds nothing to send and no tag due does the same on both maps. -/
theorem pollDue_rebase (clock : TimestampMs) (w : World σ)
    (hgroups : ∀ g ∈ (RuntimeIndex.build project).groupsForEndpoint endpointId,
      Resolved (RuntimeIndex.build project) g)
    (hgroups' : ∀ g ∈ (RuntimeIndex.build (rebase project)).groupsForEndpoint endpointId,
      Resolved (RuntimeIndex.build (rebase project)) g)
    (h : Silent (RuntimeIndex.build project) transport (.pollDue endpointId now clock) w)
    (h' : Silent (RuntimeIndex.build (rebase project)) transport (.pollDue endpointId now clock) w) :
    pollDue (RuntimeIndex.build (rebase project)) transport endpointId now clock w =
      pollDue (RuntimeIndex.build project) transport endpointId now clock w := by
  rw [pollDue_eq, pollDue_eq, prepare_eq_connected, prepare_eq_connected, connected_rebase]
  cases hconn : connected (RuntimeIndex.build project) transport endpointId now w with
  | mk r w₁ =>
    cases r with
    | error e => rfl
    | ok u =>
      obtain ⟨hflush, hdue⟩ := h w₁ hconn
      obtain ⟨hflush', -⟩ := h' w₁ ((connected_rebase ..).trans hconn)
      simp only [flushWrites_rebase transport endpointId clock w₁ hflush hflush']
      cases hf : flushWrites (RuntimeIndex.build project) transport endpointId clock w₁ with
      | mk r w₂ =>
        cases r with
        | error e => rfl
        | ok u =>
          have hprep : prepare (RuntimeIndex.build project) transport endpointId now clock w =
              (.ok (), w₂) := by rw [prepare_eq_connected, hconn]; exact hf
          obtain ⟨t, ht⟩ := prepare_transports _ transport endpointId now clock hprep
          simp only
          rw [pollGroups_eq _ transport endpointId now hgroups' _ ht,
            pollGroups_eq _ transport endpointId now hgroups _ ht, groupsForEndpoint_rebase,
            collectDue_rebase, hdue w₂ hf]
          rfl

end Polls

/-! ### Runs -/

/-- A call that reads and writes nothing on either map does the same on both. -/
theorem operate_rebase {project : Project} (hc : project.Checked) (hc' : (rebase project).Checked)
    {σ : Type} (transport : IModbusTransport σ) (op : Operation) (w : World σ)
    (h : Silent (RuntimeIndex.build project) transport op w ∧
      Silent (RuntimeIndex.build (rebase project)) transport op w) :
    operate (RuntimeIndex.build project) transport op w =
      operate (RuntimeIndex.build (rebase project)) transport op w := by
  obtain ⟨h, h'⟩ := h
  cases op with
  | pollDue endpointId now clock =>
    have hgroups : ∀ g ∈ (RuntimeIndex.build project).groupsForEndpoint endpointId,
        Resolved (RuntimeIndex.build project) g := fun g hg => resolved_of_checked hc hg
    have hgroups' : ∀ g ∈ (RuntimeIndex.build (rebase project)).groupsForEndpoint endpointId,
        Resolved (RuntimeIndex.build (rebase project)) g := fun g hg => resolved_of_checked hc' hg
    rw [operate, operate, pollDue_rebase transport endpointId now clock w hgroups hgroups' h h']
  | enqueueWrite tagId value => rw [operate, operate, enqueueWrite_rebase]
  | flushWrites endpointId clock =>
    rw [operate, operate, flushWrites_rebase transport endpointId clock w h h']

/-- Every sequence of calls runs to its end. -/
theorem run_operate {σ : Type} (index : RuntimeIndex) (transport : IModbusTransport σ)
    (ops : List Operation) (w : World σ) :
    ∃ w', run (operate index transport) ops w = some w' := by
  induction ops generalizing w with
  | nil => exact ⟨w, rfl⟩
  | cons op rest ih => cases op <;> exact ih _

/-- For two accepted maps that differ in their address base alone, a run of calls that
read and write nothing issues the same requests and publishes the same values. -/
theorem address_base_honoured {lib : JsonLibrary} (hlib : lib.ReportsViolations)
    {text text' sourceName sourceName' : String}
    (hok : (loadJsonText lib text sourceName).ok = true)
    (hok' : (loadJsonText lib text' sourceName').ok = true)
    (hrebase : (loadJsonText lib text' sourceName').project =
      rebase (loadJsonText lib text sourceName).project)
    {σ : Type} (transport : IModbusTransport σ) (ops : List Operation) (w : World σ) :
    let index := RuntimeIndex.build (loadJsonText lib text sourceName).project
    let index' := RuntimeIndex.build (loadJsonText lib text' sourceName').project
    Meets (operate index transport)
      (fun op w => Silent index transport op w ∧ Silent index' transport op w) ops w →
    ∃ w₀ w₁, run (operate index transport) ops w = some w₀ ∧
      run (operate index' transport) ops w = some w₁ ∧ SameBehaviour w₀ w₁ := by
  intro index index' hsilent
  have hc := loadJsonText_checked hlib hok
  have hc' := loadJsonText_checked hlib hok'
  rw [hrebase] at hc'
  have hindex : index' = RuntimeIndex.build (rebase (loadJsonText lib text sourceName).project) :=
    congrArg RuntimeIndex.build hrebase
  rw [hindex] at hsilent ⊢
  have hrun := run_congr (operate_rebase hc hc' transport) ops hsilent
  obtain ⟨w', hw'⟩ := run_operate index transport ops w
  exact ⟨w', w', hw', hrun ▸ hw', rfl, rfl⟩

end Base

/-! ### One setpoint in both spellings -/

section Spellings

attribute [local instance] exactPlatform

/-- The text "zero" is a map with base zero, every other text the same map with base
one. -/
def bothBases : JsonLibrary := .reading fun text =>
  if text = "zero" then siteDocument 0 [tagDocument "setpoint" "holding" "uint16" 0 true]
  else siteDocument 1 [tagDocument "setpoint" "holding" "uint16" 1 true]

def baseZero : LoadResult := loadJsonText bothBases "zero" "site.modbusproj.json"

def baseOne : LoadResult := loadJsonText bothBases "one" "site.modbusproj.json"

theorem bases_rebased : baseZero.ok = true ∧ baseOne.ok = true ∧
    baseZero.project.addressBase = 0 ∧ baseOne.project = rebase baseZero.project := by
  decide +kernel

/-- A write that does not encode is refused alike on both maps. -/
theorem refused_write_agrees :
    ∃ w₀ w₁, run (operate (.build baseZero.project) (answering (.ok [])))
        [.enqueueWrite 1 .monostate, .flushWrites "plc" 1000] boundWorld = some w₀ ∧
      run (operate (.build baseOne.project) (answering (.ok [])))
        [.enqueueWrite 1 .monostate, .flushWrites "plc" 1000] boundWorld = some w₁ ∧
      SameBehaviour w₀ w₁ := by
  obtain ⟨hok, hok', -, hrebase⟩ := bases_rebased
  refine address_base_honoured (JsonLibrary.reading_reports _) hok hok' hrebase
    (answering (.ok [])) [.enqueueWrite 1 .monostate, .flushWrites "plc" 1000] boundWorld ?_
  refine ⟨⟨trivial, trivial⟩, fun w hw => ⟨?_, fun _ _ => trivial⟩⟩
  obtain rfl := Option.some.inj hw
  exact ⟨.inr (by decide +kernel), .inr (by decide +kernel)⟩

/-- One poll reads register 0 under base zero and register 1 under base one. -/
theorem address_base_ignored :
    (baseZero.ok = true ∧ baseOne.ok = true ∧ baseZero.project.addressBase = 0 ∧
      baseOne.project = rebase baseZero.project) ∧
    ¬ ∃ w₀ w₁, run (operate (.build baseZero.project) (answering (.ok [])))
        [.pollDue "plc" 1000 1000] boundWorld = some w₀ ∧
      run (operate (.build baseOne.project) (answering (.ok [])))
        [.pollDue "plc" 1000 1000] boundWorld = some w₁ ∧ SameBehaviour w₀ w₁ := by
  refine ⟨bases_rebased, ?_⟩
  rintro ⟨w₀, w₁, h₀, h₁, hcalls, -⟩
  obtain rfl := Option.some.inj h₀
  obtain rfl := Option.some.inj h₁
  revert hcalls
  decide +kernel

end Spellings

end OpcServer.Core
