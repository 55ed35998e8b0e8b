import OpcServer.Core.AcceptedIndex
import OpcServer.Project.ImportedTags

/-! The project of an imported register map at run time: its tags are those that the
rows describe, and its one group polls each of them once. -/

namespace OpcServer.Core

open Domain Project TextStream

section Import
variable [Platform]

/-- Names of bindings lead back to the bindings. -/
theorem namedTags_names {index : RuntimeIndex} {bindings : List TagBinding}
    (h : ∀ b ∈ bindings, index.findByName b.tag.name = some b) :
    namedTags index (bindings.map fun b => b.tag.name) = .ok bindings := by
  induction bindings with
  | nil => rfl
  | cons b rest ih =>
    rw [List.forall_mem_cons] at h
    rw [List.map_cons, namedTags, h.1, ih h.2]
    rfl

variable {stod : Text → Option (Double × Text)} {options : ImportCsvOptions}

/-- The text of an import whose rows pass the checks of a tag is loaded; the tags of its
device are those that the rows describe, in their order, and its group selects these. -/
theorem imported_project_loads {lib : JsonLibrary} (hlib : lib.Faithful)
    (hname : options.projectName ≠ "") (hhost : options.host ≠ "") (hgroup : options.group ≠ "")
    (hport : 1 ≤ options.port.toNat) {csv : Text} {root : Json}
    (himport : importCsvText stod csv options = .ok root)
    (hrows : ∀ line ∈ (contentLines isSkipped csv).tail, ∀ tag : Tag,
      tag.DescribedBy stod (cell (columnsOf (contentLines isSkipped csv)) line) options.group →
        tag.Sound)
    {text sourceName : String} (hroot : lib.parse text = .ok root) :
    (loadJsonText lib text sourceName).ok = true ∧
      ∃ device group, (loadJsonText lib text sourceName).project.devices = [device] ∧
        (loadJsonText lib text sourceName).project.pollGroups = [group] ∧
        List.Forall₂ (fun line tag => tag.DescribedBy stod
          (cell (columnsOf (contentLines isSkipped csv)) line) options.group)
          (contentLines isSkipped csv).tail device.tags ∧
        group.deviceId = device.id ∧ group.tagNames ≠ [] ∧
        ∃ selected, namedTags (RuntimeIndex.build (loadJsonText lib text sourceName).project)
          group.tagNames = .ok selected ∧ selected.map TagBinding.tag = device.tags := by
  have hport' : options.port ≠ 0 := by
    rintro heq
    rw [heq] at hport
    exact absurd hport (by decide)
  obtain ⟨hok, tags, hne, hdevices, hgroups, hdescribed⟩ :=
    loadJsonText_csvProject hlib hname hhost hgroup hport' himport hrows hroot
  let index := RuntimeIndex.build (loadJsonText lib text sourceName).project
  have htags : index.tags.map TagBinding.tag = tags.map CsvTag.loaded := by
    show (RuntimeIndex.bindDevices 1 (loadJsonText lib text sourceName).project.devices).map _ = _
    rw [RuntimeIndex.bindDevices_tags, hdevices, List.flatMap_singleton]
    rfl
  have hnames : (importedGroup options tags).tagNames = index.tags.map fun b => b.tag.name := by
    have hmap := congrArg (List.map Tag.name) htags
    rw [List.map_map, List.map_map] at hmap
    exact hmap.symm
  have hconsistent := loadJsonText_consistent hlib.reports hok
  refine ⟨hok, importedDevice options tags, importedGroup options tags, hdevices, hgroups,
    hdescribed, rfl, ?_, index.tags, ?_, htags⟩
  · exact fun hnil => hne (List.map_eq_nil_iff.mp hnil)
  · rw [hnames]
    exact namedTags_names fun b hb => findByName_of_mem hconsistent hb

end Import

/-! ### A register map -/

attribute [local instance] exactPlatform

/-- `std::stod` on whole numbers. -/
def wholeNumber (text : Text) : Option (ℚ × Text) :=
  (readInt (-10 ^ 9) (10 ^ 9) text).map fun (n, rest) => (n, rest)

def headerLine : String := "name,area,address,type,byteOrder,scale,offset,unit,writable"

/-- A header and the given lines. -/
def registerMap (rows : String) : Text :=
  ("name,area,address,type,byteOrder,scale,offset,unit,writable\n" ++ rows).toList

def levelLine : String := "level,holding,0,uint16,AB,2,,m,false"

def flowLine : String := " #flow,holding,1,uint16,AB,,,l,false"

/-- A row of a holding register. -/
def registerRow (name unit : String) (address : ℤ) (scale : ℚ) : CsvTag :=
  { name := name, area := "holding", type := "uint16", byteOrder := "AB", address := address
    writable := false, nodePath := "Plant/" ++ name, scale := scale, offset := (0 : ℚ), unit := unit
    group := "csv-imported", description := "", quantity := none }

def importedMap (csv : Text) : Json := (importCsvText wholeNumber csv {}).toOption.getD .null

theorem importCsvText_importedMap {csv : Text}
    (h : (importCsvText wholeNumber csv {}).isOk = true) :
    importCsvText wholeNumber csv {} = .ok (importedMap csv) := by
  unfold importedMap
  cases himport : importCsvText wholeNumber csv {} with
  | error what =>
    rw [himport] at h
    cases h
  | ok root => rfl

theorem registerRow_sound (name unit : String) {address : ℤ} (h : 0 ≤ address) (scale : ℚ) :
    (registerRow name unit address scale).loaded.Sound where
  address := h
  quantity _ hq := nomatch hq
  writable hw := nomatch hw
  byteOrder := rfl

theorem levelLine_described : (registerRow "level" "m" 0 2).loaded.DescribedBy wholeNumber
    (cell (headerColumns (fieldsOf headerLine.toList)) levelLine.toList) "csv-imported" := by
  have hrow : tagFromRow wholeNumber (fieldsOf levelLine.toList)
      (headerColumns (fieldsOf headerLine.toList)) {} = .ok (registerRow "level" "m" 0 2) := by
    decide +kernel
  exact (tagFromRow_eq_ok hrow).2

/-- Columns in an order of their own, some of them optional, and one of them twice. -/
def pumpHeader : String :=
  "unit,writable, name ,address,\"area\",type,byteOrder,offset,scale," ++
    "description,quantity,nodePath,unit"

def pumpLine : String := "x,false, pump ,0,holding,uint16,AB,,2,\"Pump, \"\"north\"\"\",1,,Hz"

def valveLine : String := "x,no,valve,1,\"holding\",uint16,AB,,,,,Plant/Valves/1,%"

def pumpRow : CsvTag :=
  { registerRow "pump" "Hz" 0 2 with description := "Pump, \"north\"", quantity := some 1 }

def valveRow : CsvTag := { registerRow "valve" "%" 1 1 with nodePath := "Plant/Valves/1" }

def pumpMap : Text := (pumpHeader ++ "\n" ++ pumpLine ++ "\n\n" ++ valveLine ++ "\n").toList

theorem pumpMap_lines :
    contentLines isSkipped pumpMap = [pumpHeader.toList, pumpLine.toList, valveLine.toList] := by
  decide +kernel

/-- The second of the columns for the unit counts. -/
example : (headerColumns (fieldsOf pumpHeader.toList)).lookup "unit" = some 12 := by
  refine (lookup_headerColumns _ (by decide) 12).mpr ⟨by decide +kernel, fun j hj => ?_⟩
  have hlength : (fieldsOf pumpHeader.toList).length = 13 := by decide +kernel
  rw [List.getElem?_eq_none (hlength ▸ hj)]
  exact fun h => nomatch h

theorem pumpRow_sound : pumpRow.loaded.Sound where
  address := le_rfl
  quantity q hq := by
    cases hq
    decide
  writable hw := nomatch hw
  byteOrder := rfl

theorem valveRow_sound : valveRow.loaded.Sound where
  address := zero_le_one
  quantity _ hq := nomatch hq
  writable hw := nomatch hw
  byteOrder := rfl

/-- A map with two registers is loaded with them. -/
theorem pumps_imported : (loadDocument (importedMap pumpMap)).ok = true ∧
    (loadDocument (importedMap pumpMap)).project.devices.map Device.tags =
      [[pumpRow.loaded, valveRow.loaded]] := by
  have himport : importCsvText wholeNumber pumpMap {} = .ok (importedMap pumpMap) :=
    importCsvText_importedMap (by decide +kernel)
  have hcolumns : columnsOf (contentLines isSkipped pumpMap) =
      headerColumns (fieldsOf pumpHeader.toList) := by
    rw [pumpMap_lines]
    rfl
  have hpump : pumpRow.loaded.DescribedBy wholeNumber
      (cell (columnsOf (contentLines isSkipped pumpMap)) pumpLine.toList) "csv-imported" := by
    have hrow : tagFromRow wholeNumber (fieldsOf pumpLine.toList)
        (headerColumns (fieldsOf pumpHeader.toList)) {} = .ok pumpRow := by decide +kernel
    rw [hcolumns]
    exact (tagFromRow_eq_ok hrow).2
  have hvalve : valveRow.loaded.DescribedBy wholeNumber
      (cell (columnsOf (contentLines isSkipped pumpMap)) valveLine.toList) "csv-imported" := by
    have hrow : tagFromRow wholeNumber (fieldsOf valveLine.toList)
        (headerColumns (fieldsOf pumpHeader.toList)) {} = .ok valveRow := by decide +kernel
    rw [hcolumns]
    exact (tagFromRow_eq_ok hrow).2
  have hrows : ∀ line ∈ (contentLines isSkipped pumpMap).tail, ∀ tag : Tag,
      tag.DescribedBy wholeNumber (cell (columnsOf (contentLines isSkipped pumpMap)) line)
        "csv-imported" → tag.Sound := by
    intro line hline tag htag
    rw [pumpMap_lines, List.tail_cons] at hline
    rcases List.mem_cons.mp hline with rfl | hline
    · rw [htag.unique hpump]
      exact pumpRow_sound
    · obtain rfl := List.mem_singleton.mp hline
      rw [htag.unique hvalve]
      exact valveRow_sound
  obtain ⟨hok, device, group, hdevices, -, hall, -⟩ :=
    imported_project_loads (JsonLibrary.reading_faithful fun _ => importedMap pumpMap) (by decide)
      (by decide) (by decide) (by decide) himport hrows rfl
  have htail : (contentLines isSkipped pumpMap).tail = [pumpLine.toList, valveLine.toList] :=
    congrArg List.tail pumpMap_lines
  rw [htail] at hall
  obtain ⟨pump, rest, hpump', hrest, heq⟩ := List.forall₂_cons_left_iff.mp hall
  obtain ⟨valve, rest', hvalve', hrest', rfl⟩ := List.forall₂_cons_left_iff.mp hrest
  refine ⟨hok, ?_⟩
  rw [loadDocument, hdevices, List.map_singleton, heq, List.forall₂_nil_left_iff.mp hrest',
    hpump'.unique hpump, hvalve'.unique hvalve]

/-- Blank lines, and lines whose first character is `#`. -/
def startsComment (line : Text) : Bool := (trim line).isEmpty || line.head? = some '#'

/-- A row with white space before a name that begins with `#` is taken for a comment. -/
theorem indented_row_skipped :
    let csv := registerMap (levelLine ++ "\n" ++ flowLine ++ "\n")
    let rows := (contentLines startsComment csv).tail
    let cells := cell (columnsOf (contentLines startsComment csv))
    importCsvText wholeNumber csv {} = .ok (importedMap csv) ∧
      (JsonLibrary.reading fun _ => importedMap csv).Faithful ∧
      (∀ line ∈ rows, ∃ tag : Tag, tag.DescribedBy wholeNumber (cells line) "csv-imported" ∧
        tag.Sound) ∧
      ¬ ∃ device, (loadDocument (importedMap csv)).project.devices = [device] ∧
        List.Forall₂ (fun line tag => tag.DescribedBy wholeNumber (cells line) "csv-imported") rows
          device.tags := by
  intro csv rows cells
  have hlines : contentLines startsComment csv =
      [headerLine.toList, levelLine.toList, flowLine.toList] := by decide +kernel
  have hrows : rows = [levelLine.toList, flowLine.toList] := congrArg List.tail hlines
  have hcells : cells = cell (headerColumns (fieldsOf headerLine.toList)) :=
    congrArg (fun lines => cell (columnsOf lines)) hlines
  have hflow : tagFromRow wholeNumber (fieldsOf flowLine.toList)
      (headerColumns (fieldsOf headerLine.toList)) {} = .ok (registerRow "#flow" "l" 1 1) := by
    decide +kernel
  refine ⟨importCsvText_importedMap (by decide +kernel), JsonLibrary.reading_faithful _, ?_, ?_⟩
  · rw [hrows, hcells]
    refine List.forall_mem_cons.mpr ⟨?_, List.forall_mem_singleton.mpr ?_⟩
    · exact ⟨_, levelLine_described, registerRow_sound "level" "m" le_rfl 2⟩
    · exact ⟨_, (tagFromRow_eq_ok hflow).2, registerRow_sound "#flow" "l" zero_le_one 1⟩
  · rintro ⟨device, hdevices, hall⟩
    have hcount : (loadDocument (importedMap csv)).project.devices.map
        (fun d => d.tags.length) = [1] := by decide +kernel
    rw [hdevices, List.map_singleton, List.singleton_inj] at hcount
    have hlength := hall.length_eq
    rw [hrows, hcount] at hlength
    cases hlength

end OpcServer.Core
