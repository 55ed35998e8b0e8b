import OpcServer.Lib.Traverse
import OpcServer.Project.Acceptance
import OpcServer.Project.ImportCsv
import OpcServer.Project.Integers

/-! The tags of an imported project. A row describes a tag by the cells under the
columns of the header. What the import writes for the row is loaded as that tag. -/

set_option linter.dupNamespace false

namespace OpcServer.Project

open Domain TextStream Traverse

/-! ### Rows as they are written -/

/-- The lines of a text that are not skipped: the header and the rows. -/
def contentLines (skipped : Text → Bool) (csv : Text) : List Text :=
  ((lines (stripUtf8Bom csv)).map dropReturn).filter fun line => !skipped line

def fieldsOf (line : Text) : List Text := (parseCsvLine line).toOption.getD []

/-- The columns of the header, which is the first line. -/
def columnsOf : List Text → List (String × ℕ)
  | [] => []
  | header :: _ => headerColumns (fieldsOf header)

/-- What a row has in a column, without the white space around it; nothing if the row is
too short, or there is no such column. -/
def cell (cols : List (String × ℕ)) (line : Text) (column : String) : String :=
  match cols.lookup column with
  | some i => trimmed ((fieldsOf line)[i]?.getD [])
  | none => ""

section Rows
variable [Platform] (stod : Text → Option (Double × Text))

/-- The cells of a row describe a tag. -/
structure Tag.DescribedBy (cell : String → String) (group : String) (tag : Tag) : Prop where
  name : tag.name = cell "name"
  nodePath : tag.nodePath = if cell "nodePath" = "" then "Plant/" ++ cell "name" else cell "nodePath"
  area : (cell "area", tag.area) ∈ kArea
  address : wholeInt (cell "address").toList = some tag.address
  type : (cell "type", tag.type) ∈ kTagType
  quantity : if cell "quantity" = "" then tag.quantity = none
    else wholeInt (cell "quantity").toList = tag.quantity ∧ tag.quantity ≠ none
  byteOrder : tag.byteOrder = cell "byteOrder"
  scale : if cell "scale" = "" then tag.scale = Platform.ofInt 1
    else wholeDouble? stod (cell "scale").toList = some tag.scale
  offset : if cell "offset" = "" then tag.offset = Platform.ofInt 0
    else wholeDouble? stod (cell "offset").toList = some tag.offset
  unit : tag.unit = cell "unit"
  writable : cell "writable" ∈ if tag.writable then trueWords else falseWords
  group : tag.group = if cell "group" = "" then group else cell "group"
  description : tag.description = cell "description"

omit [Platform] in
theorem eq_of_mem_table {α : Type} {table : List (String × α)} (hnodup : (table.map Prod.fst).Nodup)
    {key : String} {a b : α} (ha : (key, a) ∈ table) (hb : (key, b) ∈ table) : a = b :=
  congrArg Prod.snd (List.inj_on_of_nodup_map hnodup ha hb rfl)

omit [Platform] in
theorem words_disjoint : ∀ word ∈ trueWords, word ∉ falseWords := by decide

variable {stod} in
/-- The cells of a row describe one tag. -/
theorem Tag.DescribedBy.unique {cell : String → String} {group : String} {a b : Tag}
    (ha : a.DescribedBy stod cell group) (hb : b.DescribedBy stod cell group) : a = b := by
  have hquantity : a.quantity = b.quantity := by
    have hqa := ha.quantity
    have hqb := hb.quantity
    split at hqa
    · rename_i hempty
      rw [if_pos hempty] at hqb
      exact hqa.trans hqb.symm
    · rename_i hne
      rw [if_neg hne] at hqb
      exact hqa.1.symm.trans hqb.1
  have hscale : a.scale = b.scale := by
    have hsa := ha.scale
    have hsb := hb.scale
    split at hsa
    · rename_i hempty
      rw [if_pos hempty] at hsb
      exact hsa.trans hsb.symm
    · rename_i hne
      rw [if_neg hne] at hsb
      exact Option.some.inj (hsa.symm.trans hsb)
  have hoffset : a.offset = b.offset := by
    have hoa := ha.offset
    have hob := hb.offset
    split at hoa
    · rename_i hempty
      rw [if_pos hempty] at hob
      exact hoa.trans hob.symm
    · rename_i hne
      rw [if_neg hne] at hob
      exact Option.some.inj (hoa.symm.trans hob)
  have hwritable : a.writable = b.writable := by
    have hwa := ha.writable
    have hwb := hb.writable
    cases hna : a.writable <;> cases hnb : b.writable <;>
      simp only [hna, hnb, if_true, Bool.false_eq_true, if_false] at hwa hwb
    · rfl
    · exact absurd hwa (words_disjoint _ hwb)
    · exact absurd hwb (words_disjoint _ hwa)
    · rfl
  have haddress := Option.some.inj (ha.address.symm.trans hb.address)
  have harea := eq_of_mem_table kArea_nodup ha.area hb.area
  have htype := eq_of_mem_table kTagType_nodup ha.type hb.type
  cases a
  cases b
  simp only [Tag.mk.injEq]
  exact ⟨ha.name.trans hb.name.symm, ha.nodePath.trans hb.nodePath.symm, harea, haddress, htype,
    hquantity, ha.byteOrder.trans hb.byteOrder.symm, hscale, hoffset, ha.unit.trans hb.unit.symm,
    hwritable, ha.group.trans hb.group.symm, ha.description.trans hb.description.symm⟩

/-! ### The loop over the lines -/

omit [Platform] in
theorem ensure_eq_ok {condition : Bool} {what : String} {r : Unit}
    (h : ensure condition what = .ok r) : condition = true := by
  unfold ensure at h
  split at h
  · assumption
  · cases h

omit [Platform] in
theorem readHeader_eq_ok {fields : List Text} {cols : List (String × ℕ)}
    (h : readHeader fields = .ok cols) : cols = headerColumns fields := by
  unfold readHeader at h
  dsimp only at h
  split at h
  · cases h
  · exact (Except.ok.inj h).symm

variable {stod} {options : ImportCsvOptions}

theorem readRow_eq_ok {row : List Text} {cols : List (String × ℕ)} {names : List String}
    {tag : CsvTag} (h : readRow stod row cols options names = .ok tag) :
    tagFromRow stod row cols options = .ok tag ∧ tag.name ∉ names := by
  unfold readRow at h
  obtain ⟨tag', htag, h⟩ := bind_eq_ok h
  obtain ⟨_, hnew, h⟩ := bind_eq_ok h
  obtain rfl : tag' = tag := Except.ok.inj h
  exact ⟨htag, by simpa using ensure_eq_ok hnew⟩

/-- A line is skipped, is the header, or gives a tag with a new name. -/
theorem importLine_cases {s s' : CsvState} {next : Text}
    (h : importLine stod options s next = .ok s') :
    (isSkipped (dropReturn next) = true ∧ s' = { s with rowNo := s.rowNo + 1 }) ∨
      isSkipped (dropReturn next) = false ∧
        ((s.cols = none ∧ s' = { s with
            rowNo := s.rowNo + 1, cols := some (headerColumns (fieldsOf (dropReturn next))) }) ∨
          ∃ cols tag, s.cols = some cols ∧
            tagFromRow stod (fieldsOf (dropReturn next)) cols options = .ok tag ∧
            tag.name ∉ s.names ∧ s' = { s with
              rowNo := s.rowNo + 1, tags := s.tags ++ [tag], names := tag.name :: s.names }) := by
  unfold importLine at h
  dsimp only at h
  split at h
  · rename_i hskip
    exact .inl ⟨hskip, (Except.ok.inj h).symm⟩
  · rename_i hskip
    refine .inr ⟨by simpa using hskip, ?_⟩
    split at h
    · cases h
    · rename_i fields hline
      have hfields : fieldsOf (dropReturn next) = fields := by
        rw [fieldsOf, hline]
        rfl
      rw [hfields]
      split at h
      · rename_i hcols
        cases hheader : readHeader fields with
        | error what =>
          rw [hheader] at h
          cases h
        | ok cols =>
          rw [hheader] at h
          rw [← readHeader_eq_ok hheader]
          exact .inl ⟨hcols, (Except.ok.inj h).symm⟩
      · rename_i cols hcols
        split at h
        · cases h
        · rename_i tag hrow
          obtain ⟨htag, hnew⟩ := readRow_eq_ok hrow
          exact .inr ⟨cols, tag, hcols, htag, hnew, (Except.ok.inj h).symm⟩

/-- The lines after the header: each that is not skipped gives its tag. -/
theorem foldlM_rows {cols : List (String × ℕ)} {next : List Text} {s s' : CsvState}
    (h : next.foldlM (importLine stod options) s = .ok s') (hcols : s.cols = some cols) :
    ∃ tags, s'.tags = s.tags ++ tags ∧
      List.Forall₂ (fun line tag => tagFromRow stod (fieldsOf line) cols options = .ok tag)
        ((next.map dropReturn).filter fun line => !isSkipped line) tags ∧
      Unseen s.names (tags.map CsvTag.name) := by
  induction next generalizing s with
  | nil =>
    obtain rfl : s = s' := Except.ok.inj h
    exact ⟨[], (List.append_nil _).symm, .nil, .nil _⟩
  | cons line rest ih =>
    rw [List.foldlM_cons] at h
    obtain ⟨t, hline, hrest⟩ := bind_eq_ok h
    rw [List.map_cons]
    rcases importLine_cases hline with
      ⟨hskip, rfl⟩ | ⟨hkept, ⟨hnone, -⟩ | ⟨cols', tag, hcols', htag, hnew, rfl⟩⟩
    · rw [List.filter_cons_of_neg (by simp [hskip])]
      have hrows := ih hrest hcols
      exact hrows
    · rw [hcols] at hnone
      cases hnone
    · obtain rfl : cols = cols' := Option.some.inj (hcols.symm.trans hcols')
      obtain ⟨tags, htags, hall, hunseen⟩ := ih hrest hcols
      rw [List.filter_cons_of_pos (by simp [hkept])]
      refine ⟨tag :: tags, ?_, .cons htag hall, .cons hnew hunseen⟩
      rw [htags, List.append_assoc]
      rfl

/-- All lines: those before the header are skipped. -/
theorem foldlM_content {next : List Text} {s s' : CsvState}
    (h : next.foldlM (importLine stod options) s = .ok s') (hcols : s.cols = none)
    (hheader : s'.cols.isSome = true) :
    ∃ header rows tags,
      ((next.map dropReturn).filter fun line => !isSkipped line) = header :: rows ∧
      s'.tags = s.tags ++ tags ∧
      List.Forall₂ (fun line tag => tagFromRow stod (fieldsOf line)
        (headerColumns (fieldsOf header)) options = .ok tag) rows tags ∧
      Unseen s.names (tags.map CsvTag.name) := by
  induction next generalizing s with
  | nil =>
    obtain rfl : s = s' := Except.ok.inj h
    rw [hcols] at hheader
    cases hheader
  | cons line rest ih =>
    rw [List.foldlM_cons] at h
    obtain ⟨t, hline, hrest⟩ := bind_eq_ok h
    rw [List.map_cons]
    rcases importLine_cases hline with ⟨hskip, rfl⟩ | ⟨hkept, ⟨-, rfl⟩ | ⟨cols', tag, hcols', -⟩⟩
    · rw [List.filter_cons_of_neg (by simp [hskip])]
      have hrows := ih hrest hcols
      exact hrows
    · rw [List.filter_cons_of_pos (by simp [hkept])]
      obtain ⟨tags, htags, hall, hunseen⟩ := foldlM_rows hrest rfl
      exact ⟨_, _, tags, rfl, htags, hall, hunseen⟩
    · rw [hcols] at hcols'
      cases hcols'

/-- What a successful import made of the text. -/
theorem importCsvText_eq_ok {csv : Text} {root : Json}
    (h : importCsvText stod csv options = .ok root) :
    0 ≤ options.unitId ∧ options.unitId ≤ 255 ∧ options.deviceId ≠ "" ∧ options.endpointId ≠ "" ∧
      ∃ tags, tags ≠ [] ∧ root = csvProject options tags ∧ (tags.map CsvTag.name).Nodup ∧
        List.Forall₂ (fun line tag => tagFromRow stod (fieldsOf line)
          (columnsOf (contentLines isSkipped csv)) options = .ok tag)
          (contentLines isSkipped csv).tail tags := by
  unfold importCsvText at h
  obtain ⟨_, hunit, h⟩ := bind_eq_ok h
  obtain ⟨_, hids, h⟩ := bind_eq_ok h
  obtain ⟨s, hloop, h⟩ := bind_eq_ok h
  obtain ⟨_, hheader, h⟩ := bind_eq_ok h
  obtain ⟨_, htags, h⟩ := bind_eq_ok h
  have hunit := ensure_eq_ok hunit
  have hids := ensure_eq_ok hids
  simp only [Bool.not_eq_true', Bool.or_eq_false_iff, decide_eq_false_iff_not, not_lt] at hunit hids
  obtain ⟨header, rows, tags, hcontent, hs, hall, hunseen⟩ :=
    foldlM_content hloop rfl (ensure_eq_ok hheader)
  have hs : s.tags = tags := hs
  refine ⟨hunit.1, hunit.2, hids.1, hids.2, tags, ?_, ?_, hunseen.1, ?_⟩
  · have hne := ensure_eq_ok htags
    rw [hs] at hne
    simpa using hne
  · rw [← hs]
    exact (Except.ok.inj h).symm
  · rw [contentLines, hcontent]
    exact hall

/-! ### The tag of a row -/

section Cells

omit [Platform]

theorem trimmed_eq_empty {text : Text} : trimmed text = "" ↔ trim text = [] := by
  rw [trimmed, String.ofList_eq_empty_iff]

theorem field_eq_ok {line : Text} {cols : List (String × ℕ)} {name : String} {required : Bool}
    {raw : Text} (h : field (fieldsOf line) cols name required = .ok raw) :
    trimmed raw = cell cols line name := by
  unfold field at h
  unfold cell
  cases hcol : cols.lookup name with
  | some i =>
    rw [hcol] at h
    rw [← Except.ok.inj h]
  | none =>
    rw [hcol] at h
    dsimp only at h
    split at h
    · cases h
    · rw [← Except.ok.inj h]
      rfl

theorem parseInt_eq_ok {raw : Text} {column : String} {n : ℤ} (h : parseInt raw column = .ok n) :
    wholeInt (trimmed raw).toList = some n := by
  rw [trimmed, String.toList_ofList]
  unfold parseInt at h
  split at h
  · rename_i m hm
    rw [hm, Except.ok.inj h]
  · cases h

theorem isInt_of_wholeInt {text : Text} {n : ℤ} (h : wholeInt text = some n) : IsInt n := by
  unfold wholeInt readInt at h
  split at h
  · rename_i heq
    split at heq
    · split at heq
      · rename_i hrange
        cases heq
        cases h
        exact ⟨hrange.1, Int.lt_of_le_sub_one hrange.2⟩
      · cases heq
    · cases heq
  · cases h

theorem parseQuantity_eq_ok {raw : Text} {quantity : Option ℤ}
    (h : parseQuantity raw = .ok quantity) :
    if trimmed raw = "" then quantity = none
    else wholeInt (trimmed raw).toList = quantity ∧ quantity ≠ none := by
  unfold parseQuantity at h
  by_cases hempty : trim raw = []
  · rw [if_pos hempty] at h
    rw [if_pos (trimmed_eq_empty.mpr hempty)]
    exact (Except.ok.inj h).symm
  · rw [if_neg hempty] at h
    rw [if_neg fun heq => hempty (trimmed_eq_empty.mp heq)]
    cases hint : parseInt raw "quantity" with
    | error what =>
      rw [hint] at h
      cases h
    | ok n =>
      rw [hint] at h
      rw [← Except.ok.inj h]
      exact ⟨parseInt_eq_ok hint, Option.some_ne_none n⟩

theorem parseBool_eq_ok {raw : Text} {column : String} {b : Bool}
    (h : parseBool raw column = .ok b) :
    trimmed raw ∈ if b then trueWords else falseWords := by
  unfold parseBool at h
  dsimp only at h
  split at h
  · rename_i hmem
    rw [← Except.ok.inj h]
    simpa using hmem
  · split at h
    · rename_i hmem
      rw [← Except.ok.inj h]
      simpa using hmem
    · cases h

end Cells

theorem parseDouble_eq_ok {raw : Text} {column : String} {d : Double}
    (h : parseDouble stod raw column = .ok d) :
    if trimmed raw = "" then d = Platform.ofInt 0
    else wholeDouble? stod (trimmed raw).toList = some d := by
  unfold parseDouble at h
  by_cases hempty : trim raw = []
  · rw [if_pos hempty] at h
    rw [if_pos (trimmed_eq_empty.mpr hempty)]
    exact (Except.ok.inj h).symm
  · rw [if_neg hempty] at h
    rw [if_neg fun heq => hempty (trimmed_eq_empty.mp heq), trimmed, String.toList_ofList]
    split at h
    · rename_i e he
      rw [he, Except.ok.inj h]
    · cases h

theorem parseScale_eq_ok {raw : Text} {d : Double} (h : parseScale stod raw = .ok d) :
    if trimmed raw = "" then d = Platform.ofInt 1
    else wholeDouble? stod (trimmed raw).toList = some d := by
  unfold parseScale at h
  by_cases hempty : trim raw = []
  · rw [if_pos hempty] at h
    rw [if_pos (trimmed_eq_empty.mpr hempty)]
    exact (Except.ok.inj h).symm
  · rw [if_neg hempty] at h
    have hne : trimmed raw ≠ "" := fun heq => hempty (trimmed_eq_empty.mp heq)
    have hdouble := parseDouble_eq_ok h
    rw [if_neg hne] at hdouble ⊢
    exact hdouble

/-- The tag that is loaded for a row. -/
def CsvTag.loaded (tag : CsvTag) : Tag :=
  { name := tag.name, nodePath := tag.nodePath, address := tag.address
    area := (kArea.lookup tag.area).getD .holding
    type := (kTagType.lookup tag.type).getD .uint16
    quantity := tag.quantity, byteOrder := tag.byteOrder, scale := tag.scale, offset := tag.offset
    unit := tag.unit, writable := tag.writable, group := tag.group, description := tag.description }

/-- What the import checks of a row. -/
structure CsvTag.Written (tag : CsvTag) : Prop where
  name : tag.name ≠ ""
  area : tag.area ∈ kAreas
  type : tag.type ∈ kTypes
  byteOrder : tag.byteOrder ∈ kByteOrders
  address : IsInt tag.address
  quantity : ∀ q ∈ tag.quantity, IsInt q

omit [Platform] in
theorem lookup_area : ∀ area ∈ kAreas, (area, (kArea.lookup area).getD .holding) ∈ kArea := by
  decide

omit [Platform] in
theorem lookup_type : ∀ type ∈ kTypes, (type, (kTagType.lookup type).getD .uint16) ∈ kTagType := by
  decide

theorem tagFromRow_eq_ok {line : Text} {cols : List (String × ℕ)} {tag : CsvTag}
    (h : tagFromRow stod (fieldsOf line) cols options = .ok tag) :
    tag.Written ∧ tag.loaded.DescribedBy stod (cell cols line) options.group := by
  unfold tagFromRow at h
  obtain ⟨nameRaw, hname, h⟩ := bind_eq_ok h
  obtain ⟨_, hnameCheck, h⟩ := bind_eq_ok h
  obtain ⟨areaRaw, harea, h⟩ := bind_eq_ok h
  obtain ⟨_, hareaCheck, h⟩ := bind_eq_ok h
  obtain ⟨typeRaw, htype, h⟩ := bind_eq_ok h
  obtain ⟨_, htypeCheck, h⟩ := bind_eq_ok h
  obtain ⟨orderRaw, horder, h⟩ := bind_eq_ok h
  obtain ⟨_, horderCheck, h⟩ := bind_eq_ok h
  obtain ⟨addressRaw, haddress, h⟩ := bind_eq_ok h
  obtain ⟨address, haddressInt, h⟩ := bind_eq_ok h
  obtain ⟨writableRaw, hwritable, h⟩ := bind_eq_ok h
  obtain ⟨writable, hwritableBool, h⟩ := bind_eq_ok h
  obtain ⟨pathRaw, hpath, h⟩ := bind_eq_ok h
  obtain ⟨scaleRaw, hscale, h⟩ := bind_eq_ok h
  obtain ⟨scale, hscaleDouble, h⟩ := bind_eq_ok h
  obtain ⟨offsetRaw, hoffset, h⟩ := bind_eq_ok h
  obtain ⟨offset, hoffsetDouble, h⟩ := bind_eq_ok h
  obtain ⟨unitRaw, hunit, h⟩ := bind_eq_ok h
  obtain ⟨groupRaw, hgroup, h⟩ := bind_eq_ok h
  obtain ⟨descriptionRaw, hdescription, h⟩ := bind_eq_ok h
  obtain ⟨quantityRaw, hquantity, h⟩ := bind_eq_ok h
  obtain ⟨quantity, hquantityInt, h⟩ := bind_eq_ok h
  obtain rfl := Except.ok.inj h
  have hname := field_eq_ok hname
  have harea := field_eq_ok harea
  have htype := field_eq_ok htype
  have horder := field_eq_ok horder
  have hpath := field_eq_ok hpath
  have hgroup := field_eq_ok hgroup
  have haddressInt := parseInt_eq_ok haddressInt
  have hquantityInt := parseQuantity_eq_ok hquantityInt
  have hareaMem : trimmed areaRaw ∈ kAreas := by simpa using ensure_eq_ok hareaCheck
  have htypeMem : trimmed typeRaw ∈ kTypes := by simpa using ensure_eq_ok htypeCheck
  constructor
  · refine ⟨by simpa using ensure_eq_ok hnameCheck, hareaMem, htypeMem,
      by simpa using ensure_eq_ok horderCheck, isInt_of_wholeInt haddressInt, fun q hq => ?_⟩
    split at hquantityInt
    · rw [hquantityInt] at hq
      cases hq
    · exact isInt_of_wholeInt (hquantityInt.1.trans hq)
  · constructor
    · exact hname
    · show (if trimmed pathRaw = "" then _ else _) = _
      rw [hpath, hname]
    · rw [← harea]
      exact lookup_area _ hareaMem
    · rw [← field_eq_ok haddress]
      exact haddressInt
    · rw [← htype]
      exact lookup_type _ htypeMem
    · rw [← field_eq_ok hquantity]
      exact hquantityInt
    · exact horder
    · rw [← field_eq_ok hscale]
      exact parseScale_eq_ok hscaleDouble
    · rw [← field_eq_ok hoffset]
      exact parseDouble_eq_ok hoffsetDouble
    · exact field_eq_ok hunit
    · rw [← field_eq_ok hwritable]
      exact parseBool_eq_ok hwritableBool
    · show (if trimmed groupRaw = "" then _ else _) = _
      rw [hgroup]
    · exact field_eq_ok hdescription

/-! ### What the loader reads -/

theorem get?_append (a b : List (String × Json)) (key : String) :
    (Json.object (a ++ b)).get? key =
      ((Json.object a).get? key).or ((Json.object b).get? key) := by
  simp only [Json.get?, List.find?_append, Option.map_or]

theorem get?_optionalField (k v key : String) : (Json.object (optionalField k v)).get? key =
    if k = key ∧ v ≠ "" then some (.string v) else none := by
  unfold optionalField
  by_cases hv : v = "" <;> by_cases hk : k = key <;> simp [Json.get?, hv, hk]

theorem get?_cons (k key : String) (v : Json) (rest : List (String × Json)) :
    (Json.object ((k, v) :: rest)).get? key =
      if k = key then some v else (Json.object rest).get? key := by
  by_cases hk : k = key <;> simp [Json.get?, hk]

theorem get?_nil (key : String) : (Json.object []).get? key = none := rfl

theorem get?_quantityField (q : Option ℤ) (key : String) :
    (Json.object (quantityField q)).get? key =
      if "quantity" = key then q.map Json.int else none := by
  cases q <;> by_cases hk : "quantity" = key <;> simp [quantityField, Json.get?, hk]

/-- A text that is left out when it is empty is read as it is. -/
theorem getD_optional (v : String) :
    ((if v = "" then none else some (Json.string v)).bind Json.asString).getD "" = v := by
  split
  · rename_i hv
    exact hv.symm
  · rfl

theorem toJson_fields (tag : CsvTag) :
    tag.toJson.string? "name" = some tag.name ∧
      tag.toJson.get? "area" = some (.string tag.area) ∧
      tag.toJson.int? "address" = some (toInt tag.address) ∧
      tag.toJson.get? "type" = some (.string tag.type) ∧
      tag.toJson.string? "nodePath" = some tag.nodePath ∧
      tag.toJson.int? "quantity" = tag.quantity.map toInt ∧
      (tag.toJson.string? "byteOrder").getD "" = tag.byteOrder ∧
      tag.toJson.number? "scale" = some tag.scale ∧
      tag.toJson.number? "offset" = some tag.offset ∧
      (tag.toJson.string? "unit").getD "" = tag.unit ∧
      tag.toJson.bool? "writable" = some tag.writable ∧
      (tag.toJson.string? "group").getD "" = tag.group ∧
      (tag.toJson.string? "description").getD "" = tag.description := by
  have hquantity : (tag.quantity.map Json.int).bind Json.asInt = tag.quantity.map toInt := by
    cases tag.quantity <;> rfl
  refine ⟨?_, ?_, ?_, ?_, ?_, ?_, ?_, ?_, ?_, ?_, ?_, ?_, ?_⟩ <;>
    simp [CsvTag.toJson, Json.string?, Json.int?, Json.bool?, Json.number?, get?_append,
      get?_optionalField, get?_quantityField, get?_cons, get?_nil, Json.asString, Json.asInt,
      Json.asBool, Json.asNumber, getD_optional, hquantity]

theorem parseTag_toJson {tag : CsvTag} (h : tag.Written) (path : String) :
    parseTag path tag.toJson = (tag.loaded, []) := by
  obtain ⟨hname, harea, haddress, htype, hpath, hquantity, horder, hscale, hoffset, hunit,
    hwritable, hgroup, hdescription⟩ := toJson_fields tag
  have hobj : tag.toJson.isObject = true := rfl
  have hareaRead := parseEnum_of_mem kArea_nodup (lookup_area _ h.area)
  have htypeRead := parseEnum_of_mem kTagType_nodup (lookup_type _ h.type)
  have hquantityInt : tag.quantity.map toInt = tag.quantity := by
    cases hq : tag.quantity with
    | none => rfl
    | some q => rw [Option.map_some, toInt_of_isInt (h.quantity q hq)]
  simp only [parseTag, hobj, requiredString, requiredEnum, requiredInt, hname, harea, haddress,
    htype, hpath, hquantity, horder, hscale, hoffset, hunit, hwritable, hgroup, hdescription,
    hareaRead, htypeRead, toInt_of_isInt h.address, hquantityInt]
  rfl

theorem accepts_optionalField {properties : List (String × Schema)} {key v : String}
    (h : v ≠ "" → Schema.propertyAccepts properties key (.string v) = true) :
    ∀ f ∈ optionalField key v, Schema.propertyAccepts properties f.1 f.2 = true := by
  unfold optionalField
  split
  · exact List.forall_mem_nil _
  · rename_i hv
    exact List.forall_mem_singleton.mpr (h hv)

theorem accepts_quantityField {quantity : Option ℤ} (h : ∀ q ∈ quantity, 1 ≤ q)
    {properties : List (String × Schema)}
    (hkey : ∀ v, Schema.propertyAccepts properties "quantity" v = (Schema.atLeast 1).accepts v) :
    ∀ f ∈ quantityField quantity, Schema.propertyAccepts properties f.1 f.2 = true := by
  cases quantity with
  | none => exact List.forall_mem_nil _
  | some q =>
    refine List.forall_mem_singleton.mpr ?_
    rw [hkey]
    exact Schema.accepts_atLeast (h q rfl)

theorem accepts_toJson {tag : CsvTag} (h : tag.Written) (haddress : 0 ≤ tag.address)
    (hquantity : ∀ q ∈ tag.quantity, 1 ≤ q) : Schema.tag.accepts tag.toJson = true := by
  have horder : tag.byteOrder ≠ "" →
      ["ABCD", "CDAB", "BADC", "DCBA", "AB", "BA"].contains tag.byteOrder = true := by
    have hmem := h.byteOrder
    rw [kByteOrders, List.mem_cons] at hmem
    intro hne
    rw [List.contains_iff_mem]
    exact hmem.resolve_left hne
  have harea : ["holding", "input", "coil", "discrete"].contains tag.area = true :=
    List.contains_iff_mem.mpr h.area
  have htype : ["bool", "uint16", "int16", "uint32", "int32", "float32", "float64"].contains
      tag.type = true := List.contains_iff_mem.mpr h.type
  refine Schema.accepts_object ?_ ?_
  · simp only [List.forall_mem_cons]
    refine ⟨⟨("name", .string tag.name), by simp, rfl⟩, ⟨("area", .string tag.area), by simp, rfl⟩,
      ⟨("address", .int tag.address), by simp, rfl⟩, ⟨("type", .string tag.type), by simp, rfl⟩,
      List.forall_mem_nil _⟩
  · simp only [List.forall_mem_append, List.forall_mem_cons, List.not_mem_nil, false_imp_iff,
      implies_true, and_true, and_assoc]
    refine ⟨?_, ?_, ?_, ?_, ?_, ?_, ?_, ?_, ?_, ?_, ?_, ?_, ?_⟩
    · exact Schema.accepts_atLeast haddress
    · exact harea
    · exact accepts_optionalField horder
    · exact accepts_optionalField fun _ => rfl
    · exact accepts_optionalField fun _ => rfl
    · exact Schema.accepts_name h.name
    · rfl
    · rfl
    · exact accepts_quantityField hquantity fun v => by simp [Schema.propertyAccepts]
    · rfl
    · exact htype
    · exact accepts_optionalField fun _ => rfl
    · rfl

/-! ### The project -/

def importedDevice (options : ImportCsvOptions) (tags : List CsvTag) : Device :=
  { id := options.deviceId, endpointId := options.endpointId, unitId := options.unitId
    description := "Imported from CSV", tags := tags.map CsvTag.loaded }

def importedGroup (options : ImportCsvOptions) (tags : List CsvTag) : PollGroup :=
  { id := options.group, deviceId := options.deviceId, tagNames := tags.map CsvTag.name }

theorem parseTagNames_strings (path : String) (names : List String) :
    parseTagNames path (names.map Json.string) = (names, []) := by
  induction names with
  | nil => rfl
  | cons name rest ih =>
    rw [List.map_cons, parseTagNames, ih]
    rfl

def importedEndpoint (options : ImportCsvOptions) : Endpoint :=
  { id := options.endpointId, host := options.host, port := options.port }

theorem parsePort_csvEndpoint (hport : options.port ≠ 0) (path : String) :
    parsePort path (csvEndpoint options) = (options.port, []) := by
  have hlt := options.port.toNat_lt
  have hpos : options.port.toNat ≠ 0 := fun hzero => hport (UInt16.toNat_inj.mp hzero)
  have hint : (csvEndpoint options).int? "port" = some (options.port.toNat : ℤ) := by
    have hnarrow : (csvEndpoint options).int? "port" = some (toInt options.port.toNat) := rfl
    rw [hnarrow, toInt_of_isInt ⟨by omega, by omega⟩]
  rw [parsePort, hint]
  dsimp only
  rw [if_neg (by omega), UInt16.ofInt, Int.emod_eq_of_lt (by omega) (by omega), Int.toNat_natCast,
    UInt16.ofNat_toNat]

theorem parseEndpoint_csvEndpoint (hport : options.port ≠ 0) (path : String) :
    parseEndpoint path (csvEndpoint options) = (importedEndpoint options, []) := by
  have hobj : (csvEndpoint options).isObject = true := rfl
  simp only [parseEndpoint, hobj, parsePort_csvEndpoint hport]
  rfl

variable {tags : List CsvTag}

theorem parseDevice_csvDevice (hunit : 0 ≤ options.unitId ∧ options.unitId ≤ 255)
    (hwritten : ∀ tag ∈ tags, tag.Written) (path : String) :
    parseDevice path (csvDevice options tags) = ([importedDevice options tags], []) := by
  have hobj : (csvDevice options tags).isObject = true := rfl
  have hint : (csvDevice options tags).int? "unitId" = some options.unitId := by
    have hnarrow : (csvDevice options tags).int? "unitId" = some (toInt options.unitId) := rfl
    rw [hnarrow, toInt_of_isInt ⟨by omega, by omega⟩]
  have htags : parseTags path (csvDevice options tags) = (tags.map CsvTag.loaded, []) := by
    refine each_eq_map (fun tag htag path => ?_) _ 0
    rw [kept, parseTag_toJson (hwritten tag htag)]
  simp only [parseDevice, hobj, requiredInt, hint, htags]
  rfl

theorem parseGroup_csvGroup (path : String) :
    parseGroup path (csvGroup options tags) = ([importedGroup options tags], []) := by
  have hobj : (csvGroup options tags).isObject = true := rfl
  have hnames : parseTagNames path (((csvGroup options tags).array? "tagNames").getD []) =
      (tags.map CsvTag.name, []) := parseTagNames_strings path _
  simp only [parseGroup, hobj, hnames]
  rfl

/-- What is read of the imported project. -/
theorem parseProject_csvProject (hname : options.projectName ≠ "") (hport : options.port ≠ 0)
    (hunit : 0 ≤ options.unitId ∧ options.unitId ≤ 255) (hwritten : ∀ tag ∈ tags, tag.Written) :
    (parseProject (csvProject options tags)).2 = [] ∧
      (parseProject (csvProject options tags)).1.schemaVersion = 1 ∧
      (parseProject (csvProject options tags)).1.endpoints = [importedEndpoint options] ∧
      (parseProject (csvProject options tags)).1.devices = [importedDevice options tags] ∧
      (parseProject (csvProject options tags)).1.pollGroups = [importedGroup options tags] := by
  have hobj : (csvProject options tags).isObject = true := rfl
  have hendpoints : requiredEach (kept parseEndpoint) (csvProject options tags) "endpoints" =
      ([importedEndpoint options], []) := by
    show each (kept parseEndpoint) "endpoints" 0 [csvEndpoint options] = _
    rw [each, kept, parseEndpoint_csvEndpoint hport]
    rfl
  have hdevices : requiredEach parseDevice (csvProject options tags) "devices" =
      ([importedDevice options tags], []) := by
    show each parseDevice "devices" 0 [csvDevice options tags] = _
    rw [each, parseDevice_csvDevice hunit hwritten]
    rfl
  have hgroups : requiredEach parseGroup (csvProject options tags) "pollGroups" =
      ([importedGroup options tags], []) := by
    show each parseGroup "pollGroups" 0 [csvGroup options tags] = _
    rw [each, parseGroup_csvGroup]
    rfl
  have hnonempty : nonEmpty? (csvProject options tags) "name" = some options.projectName := by
    show (some options.projectName).filter _ = _
    rw [Option.filter_some, if_pos (by simpa using hname)]
  simp only [parseProject, hobj, hendpoints, hdevices, hgroups, hnonempty]
  exact ⟨rfl, rfl, rfl, rfl, rfl⟩

theorem accepts_csvProject (hname : options.projectName ≠ "") (hhost : options.host ≠ "")
    (hgroup : options.group ≠ "") (hdevice : options.deviceId ≠ "")
    (hendpoint : options.endpointId ≠ "") (hport : options.port ≠ 0)
    (hunit : 0 ≤ options.unitId ∧ options.unitId ≤ 255)
    (htags : ∀ tag ∈ tags, Schema.tag.accepts tag.toJson = true) :
    Schema.project.accepts (csvProject options tags) = true := by
  have hlt := options.port.toNat_lt
  have hpos : options.port.toNat ≠ 0 := fun hzero => hport (UInt16.toNat_inj.mp hzero)
  have hendpoints : Schema.endpoint.accepts (csvEndpoint options) = true := by
    refine Schema.accepts_object (by simp) ?_
    simp only [List.forall_mem_cons]
    refine ⟨rfl, ?_, ?_, ?_, rfl, rfl, rfl, List.forall_mem_nil _⟩
    · exact Schema.accepts_name hhost
    · exact Schema.accepts_name hendpoint
    · exact Schema.accepts_between (by omega) (by omega)
  have hdevices : Schema.device.accepts (csvDevice options tags) = true := by
    refine Schema.accepts_object (by simp) ?_
    simp only [List.forall_mem_cons]
    refine ⟨rfl, ?_, ?_, ?_, ?_, List.forall_mem_nil _⟩
    · exact Schema.accepts_name hendpoint
    · exact Schema.accepts_name hdevice
    · refine Schema.accepts_array (Nat.zero_le _) fun tag htag => ?_
      obtain ⟨tag, hmem, rfl⟩ := List.mem_map.mp htag
      exact htags tag hmem
    · exact Schema.accepts_between hunit.1 hunit.2
  have hgroups : Schema.pollGroup.accepts (csvGroup options tags) = true := by
    refine Schema.accepts_object (by simp) ?_
    simp only [List.forall_mem_cons]
    refine ⟨?_, ?_, rfl, rfl, ?_, List.forall_mem_nil _⟩
    · exact Schema.accepts_name hdevice
    · exact Schema.accepts_name hgroup
    · refine Schema.accepts_array (Nat.zero_le _) fun name hmem => ?_
      obtain ⟨text, -, rfl⟩ := List.mem_map.mp hmem
      rfl
  refine Schema.accepts_object (by simp) ?_
  simp only [List.forall_mem_cons]
  refine ⟨rfl, rfl, rfl, ?_, ?_, ?_, rfl, ?_, rfl, List.forall_mem_nil _⟩
  · exact Schema.accepts_array le_rfl (List.forall_mem_singleton.mpr hdevices)
  · exact Schema.accepts_array le_rfl (List.forall_mem_singleton.mpr hendpoints)
  · exact Schema.accepts_name hname
  · exact Schema.accepts_array le_rfl (List.forall_mem_singleton.mpr hgroups)

theorem sound_csvProject (hunit : 0 ≤ options.unitId ∧ options.unitId ≤ 255)
    (hnodup : (tags.map CsvTag.name).Nodup)
    (htags : ∀ tag ∈ tags, tag.name ≠ "" ∧ tag.loaded.Sound) {project : Project}
    (hversion : project.schemaVersion = 1)
    (hendpoints : project.endpoints = [importedEndpoint options])
    (hdevices : project.devices = [importedDevice options tags])
    (hgroups : project.pollGroups = [importedGroup options tags]) : project.Sound := by
  refine ⟨hversion.ge, ⟨?_, ?_⟩, ?_, ?_, ?_, ?_, ?_⟩
  · rw [hendpoints]
    exact List.nodup_singleton _
  · rw [hendpoints]
    exact List.forall_mem_singleton.mpr
      ⟨show (1 : ℤ) ≤ 3000 by norm_num, show (1 : ℤ) ≤ 1000 by norm_num⟩
  · rw [hdevices]
    exact List.nodup_singleton _
  · have hnames : (project.devices.flatMap Device.tags).map Tag.name = tags.map CsvTag.name := by
      rw [hdevices, List.flatMap_singleton]
      exact List.map_map
    rw [hnames]
    exact hnodup
  · rw [hdevices]
    refine List.forall_mem_singleton.mpr ⟨⟨?_, rfl, hunit⟩, fun tag htag => ?_⟩
    · rw [hendpoints]
      exact ⟨_, List.mem_singleton_self _, rfl⟩
    · obtain ⟨t, ht, rfl⟩ := List.mem_map.mp htag
      exact htags t ht
  · rw [hgroups]
    exact List.nodup_singleton _
  · rw [hgroups]
    refine List.forall_mem_singleton.mpr ⟨show (10 : ℤ) ≤ 1000 by norm_num, ?_, ?_, ?_⟩
    · rw [hdevices]
      exact ⟨_, List.mem_singleton_self _, rfl⟩
    · exact List.forall_mem_nil _
    · rw [hdevices]
      refine List.forall_mem_singleton.mpr fun _ name hname => ?_
      obtain ⟨t, ht, rfl⟩ := List.mem_map.mp hname
      exact ⟨t.loaded, List.mem_map_of_mem ht, rfl⟩

/-- An import whose rows pass the checks of a tag is loaded with these rows as its tags. -/
theorem loadJsonText_csvProject {lib : JsonLibrary} (hlib : lib.Faithful)
    (hname : options.projectName ≠ "") (hhost : options.host ≠ "") (hgroup : options.group ≠ "")
    (hport : options.port ≠ 0) {csv : Text} {root : Json}
    (himport : importCsvText stod csv options = .ok root)
    (hrows : ∀ line ∈ (contentLines isSkipped csv).tail, ∀ tag : Tag,
      tag.DescribedBy stod (cell (columnsOf (contentLines isSkipped csv)) line) options.group →
        tag.Sound)
    {text sourceName : String} (hroot : lib.parse text = .ok root) :
    (loadJsonText lib text sourceName).ok = true ∧ ∃ tags, tags ≠ [] ∧
      (loadJsonText lib text sourceName).project.devices = [importedDevice options tags] ∧
      (loadJsonText lib text sourceName).project.pollGroups = [importedGroup options tags] ∧
      List.Forall₂ (fun line tag => tag.DescribedBy stod
        (cell (columnsOf (contentLines isSkipped csv)) line) options.group)
        (contentLines isSkipped csv).tail (tags.map CsvTag.loaded) := by
  obtain ⟨hunit, hunit', hdevice, hendpoint, tags, hne, rfl, hnodup, hall⟩ :=
    importCsvText_eq_ok himport
  have hlines : List.Forall₂ (fun line (tag : CsvTag) => tag.Written ∧ tag.loaded.Sound ∧
      tag.loaded.DescribedBy stod (cell (columnsOf (contentLines isSkipped csv)) line)
        options.group) (contentLines isSkipped csv).tail tags := by
    refine forall₂_of_mem hall fun line hline tag htag => ?_
    obtain ⟨hwritten, hdescribed⟩ := tagFromRow_eq_ok htag
    exact ⟨hwritten, hrows line hline _ hdescribed, hdescribed⟩
  have htags : ∀ tag ∈ tags, tag.Written ∧ tag.loaded.Sound := by
    intro tag htag
    obtain ⟨line, -, hwritten, hsound, -⟩ := exists_of_forall₂ hlines.flip htag
    exact ⟨hwritten, hsound⟩
  have hwritten : ∀ tag ∈ tags, tag.Written := fun tag htag => (htags tag htag).1
  obtain ⟨hdiags, hversion, hendpoints, hdevices, hgroups⟩ :=
    parseProject_csvProject hname hport ⟨hunit, hunit'⟩ hwritten
  have hexpand : (expandDeviceProfiles (parseProject (csvProject options tags)).1).devices =
      [importedDevice options tags] := by
    show (parseProject (csvProject options tags)).1.devices.map _ = _
    rw [hdevices]
    exact expandDevices_of_no_profile (List.forall_mem_singleton.mpr rfl) _
  have hsound : (expandDeviceProfiles (parseProject (csvProject options tags)).1).Sound :=
    sound_csvProject ⟨hunit, hunit'⟩ hnodup
      (fun tag htag => ⟨(hwritten tag htag).name, (htags tag htag).2⟩) hversion hendpoints hexpand
      hgroups
  have haccepts : Schema.project.accepts (csvProject options tags) = true := by
    refine accepts_csvProject hname hhost hgroup hdevice hendpoint hport ⟨hunit, hunit'⟩ ?_
    intro tag htag
    obtain ⟨hwritten, hsound⟩ := htags tag htag
    exact accepts_toJson hwritten hsound.address hsound.quantity
  obtain ⟨hok, hproject⟩ := loadJsonText_of_sound hlib hroot (by rw [hdiags]; exact noErrors_nil)
    haccepts hsound
  refine ⟨hok, tags, hne, ?_, ?_, ?_⟩
  · rw [hproject, hexpand]
  · rw [hproject]
    exact hgroups
  · rw [List.forall₂_map_right_iff]
    exact hlines.imp fun _ _ h => h.2.2

end Rows

end OpcServer.Project
