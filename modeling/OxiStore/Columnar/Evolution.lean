/-
**Reading with another schema.**
-/

import OxiStore.Columnar.Projection

namespace OxiStore.Columnar

open ByteString Results List

/-! ### What is to be returned -/

/-- **A row of the file as the target wants it**: the cells the file has, and nulls for the others. -/
def evolve (fileSchema target : Schema) (row : Row) : Row :=
  target.map fun field => match fileSchema.indexOf field.name with
    | some place => row.cell place
    | none => field.nullCell

def SameTypes (fileSchema target : Schema) : Prop :=
  ∀ targetField ∈ target, ∀ place field, fileSchema.indexOf targetField.name = some place →
    fileSchema[place]? = some field → field.type = targetField.type

def EvolvesFaithfully (fileSchema target : Schema) : Prop :=
  ∀ (parquet : Parquet) (data : Bytes) (file : ParquetFile), parquet.InOrder →
    parquet.tryNew data = .ok file → file.schema = fileSchema →
    (∃ table, readWithSchemaFromBytes parquet data target = .ok table ∧ table.schema = target ∧
      table.rows = (file.rowGroups.flatMap RowGroup.rows).map (evolve fileSchema target)) ∨
    (¬ SameTypes fileSchema target ∧
      ∃ text, readWithSchemaFromBytes parquet data target = .error (.schemaMismatch text))

/-- **The shared columns are selected whole**: each of their leaves has the name of a shared column. -/
def SelectedWhole (fileSchema target : Schema) : Prop :=
  ∀ targetField ∈ target, ∀ place field, fileSchema.indexOf targetField.name = some place →
    fileSchema[place]? = some field → ∀ leaf ∈ field.leaves, leaf.name ∈ columnsToRead fileSchema target

/-- **No column becomes required**: a column of the target without nulls is one of the file. -/
def KeepsRequired (fileSchema target : Schema) : Prop :=
  ∀ targetField ∈ target, targetField.nullable = false →
    ∃ place field, fileSchema.indexOf targetField.name = some place ∧ fileSchema[place]? = some field ∧
      field.nullable = false

section

variable {fileSchema : Schema}

theorem checkTypes_cons {targetField : Field} {rest : List Field} :
    SameTypes fileSchema (targetField :: rest) ↔
      (∀ field, (fileSchema.indexOf targetField.name).bind (fileSchema[·]?) = some field →
        field.type = targetField.type) ∧ SameTypes fileSchema rest := by
  unfold SameTypes
  rw [forall_mem_cons]
  refine and_congr_left fun _ => ⟨fun same field found => ?_, fun same place field found here => ?_⟩
  · obtain ⟨place, found, here⟩ := Option.bind_eq_some_iff.mp found
    exact same place field found here
  · exact same field (Option.bind_eq_some_iff.mpr ⟨place, found, here⟩)

theorem checkTypes_cases (target : Schema) :
    (SameTypes fileSchema target ∧ checkTypes fileSchema target = .ok ()) ∨
      (¬ SameTypes fileSchema target ∧
        ∃ text, checkTypes fileSchema target = .error (.schemaMismatch text)) := by
  induction target with
  | nil => exact Or.inl ⟨by simp [SameTypes], rfl⟩
  | cons targetField rest ih =>
    rw [checkTypes_cons, checkTypes]
    cases found : (fileSchema.indexOf targetField.name).bind (fileSchema[·]?) with
    | none => simpa using ih
    | some field =>
      by_cases same : field.type = targetField.type
      · simpa [same] using ih
      · refine Or.inr ⟨fun both => same (both.1 field rfl), ?_⟩
        simp [same]

end

/-! ### Putting rows together -/

def reassembled (schema target : Schema) (row : Row) : Row :=
  target.map fun field => (RecordBatch.columnFor schema field).2 row

def TypesMatch (schema target : Schema) : Prop :=
  ∀ field ∈ target, (RecordBatch.columnFor schema field).1 = field.type

section

variable {schema target : Schema} {batches : List RecordBatch}

theorem reassemble_eq_ok {rows : List Row} {batch : RecordBatch} :
    RecordBatch.reassemble target ⟨schema, rows⟩ = .ok batch ↔
      (target ≠ [] ∧ TypesMatch schema target ∧ ∀ row ∈ rows, (reassembled schema target row).Respects target) ∧
        batch = ⟨target, rows.map (reassembled schema target)⟩ := by
  have types : (target.map (RecordBatch.columnFor schema)).map Prod.fst = target.map Field.type ↔
      TypesMatch schema target := by
    rw [map_map]
    exact map_inj_left
  have rows' : (rows.map fun row => (target.map (RecordBatch.columnFor schema)).map fun col => col.2 row) =
      rows.map (reassembled schema target) := by simp [reassembled]
  unfold RecordBatch.reassemble
  simp only [rows', RecordBatch.tryNew_eq_ok, types, forall_mem_map, ne_eq, map_eq_nil_iff]
  tauto

theorem reassembleAll_eq_ok (uniform : ∀ batch ∈ batches, batch.schema = schema)
    (some' : target ≠ []) (typed : TypesMatch schema target)
    (respects : ∀ row ∈ batches.flatMap RecordBatch.rows, (reassembled schema target row).Respects target) :
    ∃ result, reassembleAll target batches = .ok result ∧ result.flatMap RecordBatch.rows =
      (batches.flatMap RecordBatch.rows).map (reassembled schema target) := by
  induction batches with
  | nil => exact ⟨[], rfl, rfl⟩
  | cons batch batches ih =>
    rw [flatMap_cons, forall_mem_append] at respects
    obtain ⟨rest, later, rows⟩ := ih (fun batch member => uniform batch (mem_cons_of_mem _ member)) respects.2
    obtain rfl : batch.schema = schema := uniform batch mem_cons_self
    have here : RecordBatch.reassemble target batch =
        .ok ⟨target, batch.rows.map (reassembled batch.schema target)⟩ :=
      reassemble_eq_ok.mpr ⟨⟨some', typed, respects.1⟩, rfl⟩
    unfold reassembleAll
    rw [here, later]
    refine ⟨_, rfl, ?_⟩
    rw [flatMap_cons, flatMap_cons, map_append, rows]

end

/-! ### Columns that are selected whole -/

section

variable {fileSchema target : Schema}

theorem Row.cell_map {schema : Schema} {place : ℕ} {field : Field} (here : schema[place]? = some field)
    (make : Field → Cell) : Row.cell (schema.map make) place = make field := by
  rw [Row.cell, getD_eq_getElem?_getD, getElem?_map, here]
  rfl

theorem evolve_respects (required : KeepsRequired fileSchema target) {row : Row}
    (conforms : row.Conforms fileSchema) : (evolve fileSchema target row).Respects target := by
  intro idx targetField here null
  rw [evolve, Row.cell_map here] at null
  by_contra needed
  obtain ⟨place, field, found, there, never⟩ :=
    required targetField (mem_of_getElem? here) ((Bool.not_eq_true _).mp needed)
  rw [found] at null
  rw [(conforms.admits_cell there).null null] at never
  cases never

variable (stored : ∀ field ∈ fileSchema, field.Stored)

include stored

variable (whole : SelectedWhole fileSchema target)

include whole

variable (same : SameTypes fileSchema target)

include same

theorem columnFor_of_whole {targetField : Field} (member : targetField ∈ target) :
    (RecordBatch.columnFor (projectFields (columnsToRead fileSchema target).contains fileSchema)
        targetField).1 = targetField.type ∧
      ∀ row : Row, row.Conforms fileSchema →
        (RecordBatch.columnFor (projectFields (columnsToRead fileSchema target).contains fileSchema)
          targetField).2 (row.project (columnsToRead fileSchema target).contains fileSchema) =
          match fileSchema.indexOf targetField.name with
          | some place => row.cell place
          | none => targetField.nullCell := by
  unfold RecordBatch.columnFor
  cases found : fileSchema.indexOf targetField.name with
  | none => simp [indexOf_project_none found]
  | some place =>
    obtain ⟨field, here⟩ := Schema.getElem?_of_indexOf found
    have wanted : ∀ leaf ∈ field.leaves,
        (columnsToRead fileSchema target).contains leaf.name = true := fun leaf inside =>
      contains_iff_mem.mpr (whole targetField member place field found here leaf inside)
    have left := Field.project_self (stored field (mem_of_getElem? here)) wanted
    obtain ⟨idx, found', read⟩ := indexOf_project found here left
    rw [found']
    refine ⟨?_, fun row conforms => ?_⟩
    · simp only [read.there, Option.map_some, Option.getD_some]
      exact same targetField member place field found here
    · show (row.project _ fileSchema).cell idx = row.cell place
      rw [read.cells row conforms.length_eq.symm]
      exact Cell.project_self ((conforms.admits_cell here).fits) wanted

theorem reassembled_of_whole {row : Row} (conforms : row.Conforms fileSchema) :
    reassembled (projectFields (columnsToRead fileSchema target).contains fileSchema) target
      (row.project (columnsToRead fileSchema target).contains fileSchema) =
        evolve fileSchema target row :=
  map_congr_left fun _ member => (columnFor_of_whole stored whole same member).2 row conforms

theorem faithful_of_whole (some' : target ≠ []) (required : KeepsRequired fileSchema target) :
    EvolvesFaithfully fileSchema target := by
  rintro parquet data file inOrder parsed rfl
  have typed : TypesMatch (projectFields (columnsToRead file.schema target).contains file.schema) target :=
    fun _ member => (columnFor_of_whole stored whole same member).1
  have evolved : ∀ row ∈ file.rowGroups.flatMap RowGroup.rows,
      reassembled (projectFields (columnsToRead file.schema target).contains file.schema) target
        (row.project (columnsToRead file.schema target).contains file.schema) =
          evolve file.schema target row :=
    fun row member => reassembled_of_whole stored whole same (file.conforms row member)
  have respects : ∀ row ∈ (parquet.collectProjected file (columnsToRead file.schema target).contains).flatMap
      RecordBatch.rows, (reassembled (projectFields (columnsToRead file.schema target).contains file.schema)
        target row).Respects target := by
    rw [inOrder.rows_collectProjected, forall_mem_map]
    intro row member
    rw [evolved row member]
    exact evolve_respects required (file.conforms row member)
  obtain ⟨result, done, rows⟩ := reassembleAll_eq_ok Parquet.schema_collectProjected some' typed respects
  obtain ⟨_, checked⟩ := (checkTypes_cases target).resolve_right fun other => other.1 same
  refine Or.inl ⟨⟨target, result, .none⟩, ?_, rfl, ?_⟩
  · unfold readWithSchemaFromBytes
    rw [parsed]
    show (checkTypes file.schema target >>= fun _ => _) = _
    rw [checked]
    show (reassembleAll target _ >>= fun _ => _) = _
    rw [done]
    rfl
  · show result.flatMap RecordBatch.rows = _
    rw [rows, inOrder.rows_collectProjected, map_map]
    exact map_congr_left evolved

end

/-! ### A file of one row -/

theorem sample_disjoint (type other : DataType) : type.sample true ≠ other.sample false := by
  unfold DataType.sample
  cases type.physical <;> cases other.physical <;> simp [Physical.sample]

def Cell.Marked (cell : Cell) : Prop :=
  ∃ values ∈ cell.leafValues, ∃ type : DataType, some (type.sample true) ∈ values

theorem Field.marked_fullCell {field : Field} {leaf : Leaf} (member : leaf ∈ field.leaves) :
    (field.fullCell (DataType.sample true)).Marked := by
  refine ⟨[some (leaf.type.sample true)], ?_, leaf.type, mem_singleton_self _⟩
  rw [field.leafValues_fullCell]
  exact mem_map.mpr ⟨leaf, member, rfl⟩

theorem Field.not_marked_fullCell (field : Field) : ¬ (field.fullCell (DataType.sample false)).Marked := by
  rintro ⟨values, member, type, inside⟩
  rw [field.leafValues_fullCell] at member
  obtain ⟨leaf, _, rfl⟩ := mem_map.mp member
  exact sample_disjoint type leaf.type (Option.some.inj (mem_singleton.mp inside))

theorem Field.not_marked_nullCell (field : Field) : ¬ field.nullCell.Marked := by
  rintro ⟨values, member, type, inside⟩
  cases field <;> simp_all [Field.nullCell, Cell.leafValues]

theorem Cell.Marked.of_project {keep : String → Bool} {field : Field} {cell : Cell}
    (marked : (cell.project keep field).Marked) : cell.Marked := by
  obtain ⟨values, member, inside⟩ := marked
  exact ⟨values, Cell.mem_project member, inside⟩

def loneFile (schema : Schema) (row : Row) (conforms : row.Conforms schema) : ParquetFile :=
  ⟨schema, [.bare [row] fun other member => by
    rw [List.mem_singleton.mp member]
    exact conforms]⟩

section

variable {fileSchema target : Schema}

theorem reassembled_of_faithful (faithful : EvolvesFaithfully fileSchema target)
    (same : SameTypes fileSchema target) {row : Row} (conforms : row.Conforms fileSchema) :
    (target ≠ [] ∧
      TypesMatch (projectFields (columnsToRead fileSchema target).contains fileSchema) target ∧
      (evolve fileSchema target row).Respects target) ∧
    reassembled (projectFields (columnsToRead fileSchema target).contains fileSchema) target
      (row.project (columnsToRead fileSchema target).contains fileSchema) =
        evolve fileSchema target row := by
  let file := loneFile fileSchema row conforms
  obtain ⟨table, read, _, rows⟩ := (faithful (Parquet.single file) [] file (Parquet.inOrder_single file)
    rfl rfl).resolve_right fun refused => refused.1 same
  obtain ⟨_, checked⟩ := (checkTypes_cases target).resolve_right fun other => other.1 same
  have batches : (Parquet.single file).collectProjected file (columnsToRead fileSchema target).contains =
      [⟨projectFields (columnsToRead fileSchema target).contains fileSchema,
        [row.project (columnsToRead fileSchema target).contains fileSchema]⟩] := rfl
  unfold readWithSchemaFromBytes at read
  have read' : (checkTypes fileSchema target >>= fun _ => reassembleAll target
      ((Parquet.single file).collectProjected file (columnsToRead fileSchema target).contains) >>=
        fun result => Except.ok (⟨target, result, .none⟩ : ColumnarTable)) = .ok table := read
  rw [checked, batches] at read'
  obtain ⟨result, done, finish⟩ := bind_eq_ok.mp (show (reassembleAll target _ >>= fun _ => _) = _ from read')
  unfold reassembleAll at done
  obtain ⟨batch, here, done⟩ := bind_eq_ok.mp done
  cases done
  cases finish
  obtain ⟨fine, rfl⟩ := reassemble_eq_ok.mp (mapError_eq_ok.mp here)
  have only : [reassembled (projectFields (columnsToRead fileSchema target).contains fileSchema) target
      (row.project (columnsToRead fileSchema target).contains fileSchema)] =
        [evolve fileSchema target row] := rows
  have whole := head_eq_of_cons_eq only
  exact ⟨⟨fine.1, fine.2.1, whole ▸ fine.2.2 _ (mem_singleton_self _)⟩, whole⟩

theorem whole_of_faithful (faithful : EvolvesFaithfully fileSchema target)
    (same : SameTypes fileSchema target) : SelectedWhole fileSchema target := by
  intro targetField member place field found here leaf inside
  by_contra unwanted
  have unwanted' : (columnsToRead fileSchema target).contains leaf.name = false := by simpa using unwanted
  -- a row with other values in that column than elsewhere
  have conforms := Schema.conforms_rowWith (DataType.holds_sample false) here
    (field.admits_fullCell (DataType.holds_sample true))
  obtain ⟨⟨_, typed, _⟩, rows⟩ := reassembled_of_faithful faithful same conforms
  have cell := map_inj_left.mp rows targetField member
  have typed' := typed targetField member
  rw [found] at cell
  have own : (fileSchema.rowWith (DataType.sample false) place
      (field.fullCell (DataType.sample true))).cell place = field.fullCell (DataType.sample true) := by
    rw [Row.cell, getD_eq_getElem?_getD, Schema.getElem?_rowWith here]
    rfl
  simp only [own] at cell
  have holds := Field.marked_fullCell inside
  rw [← cell] at holds
  unfold RecordBatch.columnFor at holds typed'
  cases found' : Schema.indexOf (projectFields (columnsToRead fileSchema target).contains fileSchema)
      targetField.name with
  | none =>
    rw [found'] at holds
    exact Field.not_marked_nullCell _ holds
  | some idx =>
    rw [found'] at holds typed'
    obtain ⟨kept, there⟩ := Schema.getElem?_of_indexOf found'
    obtain ⟨place', field', read⟩ := exists_readFrom there
    have held : ((fileSchema.rowWith (DataType.sample false) place
        (field.fullCell (DataType.sample true))).cell place').Marked := by
      simp only [read.cells _ conforms.length_eq.symm] at holds
      exact holds.of_project
    by_cases own : place = place'
    · -- read in part: another type than the target's
      subst own
      obtain rfl : field = field' := Option.some.inj (here.symm.trans read.here)
      have type : kept.type = field.type := by
        rw [same targetField member _ field found here]
        simpa [there] using typed'
      obtain rfl := Field.eq_of_type (Field.head_project read.left).1 type (Field.head_project read.left).2
      exact Field.project_ne_self inside unwanted' read.left
    · -- not read: another column of that name, with other values
      rw [Row.cell, getD_eq_getElem?_getD, Schema.getElem?_rowWith_other read.here own] at held
      exact Field.not_marked_fullCell _ held

theorem Schema.conforms_full (schema : Schema) :
    Row.Conforms (schema.map (Field.fullCell (DataType.sample true))) schema := by
  unfold Row.Conforms
  rw [forall₂_map_right_iff, forall₂_same]
  exact fun field _ => field.admits_fullCell (DataType.holds_sample true)

theorem required_of_faithful (faithful : EvolvesFaithfully fileSchema target)
    (same : SameTypes fileSchema target) : KeepsRequired fileSchema target := by
  intro targetField member needed
  obtain ⟨idx, here⟩ := getElem?_of_mem member
  have refused : ∀ {row : Row}, row.Conforms fileSchema →
      ¬ ((evolve fileSchema target row).cell idx).isNull = true := by
    intro row conforms null
    have nullable := (reassembled_of_faithful faithful same conforms).1.2.2 idx targetField here null
    rw [needed] at nullable
    cases nullable
  cases found : fileSchema.indexOf targetField.name with
  | none =>
    -- a column that the file lacks comes back as nulls
    refine absurd ?_ (refused fileSchema.conforms_full)
    rw [evolve, Row.cell_map here, found]
    exact targetField.isNull_nullCell
  | some place =>
    obtain ⟨field, there⟩ := Schema.getElem?_of_indexOf found
    refine ⟨place, field, rfl, there, ?_⟩
    by_contra nullable
    -- a row with a null in the file's column
    have conforms := Schema.conforms_rowWith (DataType.holds_sample true) there
      ⟨field.fits_nullCell, fun _ => (Bool.not_eq_false _).mp nullable⟩
    refine absurd ?_ (refused conforms)
    rw [evolve, Row.cell_map here, found]
    show (Row.cell _ place).isNull = true
    rw [Row.cell, getD_eq_getElem?_getD, Schema.getElem?_rowWith there]
    exact field.isNull_nullCell

end

/-- **Reading with a target schema is faithful exactly if the shared columns are selected whole**, the target
has a column at all, and none of its columns without nulls may have nulls in the file or is missing there. -/
theorem evolution_faithful_iff {fileSchema target : Schema} (stored : ∀ field ∈ fileSchema, field.Stored) :
    EvolvesFaithfully fileSchema target ↔ (SameTypes fileSchema target →
      target ≠ [] ∧ SelectedWhole fileSchema target ∧ KeepsRequired fileSchema target) := by
  constructor
  · exact fun faithful same => ⟨(reassembled_of_faithful faithful same fileSchema.conforms_full).1.1,
      whole_of_faithful faithful same, required_of_faithful faithful same⟩
  · intro whole
    by_cases same : SameTypes fileSchema target
    · obtain ⟨some', selected, required⟩ := whole same
      exact faithful_of_whole stored selected same some' required
    · rintro parquet data file _ parsed rfl
      obtain ⟨_, text, refused⟩ := (checkTypes_cases target).resolve_left fun other => same other.1
      refine Or.inr ⟨same, text, ?_⟩
      unfold readWithSchemaFromBytes
      rw [parsed]
      show (checkTypes file.schema target >>= fun _ => _) = _
      rw [refused]
      rfl

theorem flat_evolution_faithful :
    EvolvesFaithfully [.leaf "x" .int32 false, .leaf "z" .int64]
      [.leaf "y" .utf8, .leaf "z" .int64, .leaf "x" .int32 false] := by
  refine (evolution_faithful_iff fun field member => ?_).mpr fun _ => ⟨by simp, ?_, ?_⟩
  · rcases List.mem_pair.mp member with rfl | rfl <;> exact .leaf ..
  · intro targetField _ place field _ here leaf inside
    rcases List.mem_pair.mp (mem_of_getElem? here) with rfl | rfl
    all_goals
      obtain rfl := mem_singleton.mp inside
      decide +kernel
  · intro targetField member needed
    rcases mem_cons.mp member with rfl | member
    · cases needed
    rcases List.mem_pair.mp member with rfl | rfl
    · cases needed
    · exact ⟨0, _, by decide +kernel, rfl, rfl⟩

def nestedSchema : Schema := [.group "s" [.leaf "x" .int32]]

def nestedRow : Row := [.nested [[some (.int32 7)]]]

theorem nestedRow_conforms : nestedRow.Conforms nestedSchema := by
  refine .cons ⟨.cons ?_ .nil, nofun⟩ .nil
  intro datum inside
  obtain rfl : datum = .int32 7 := by simpa using inside
  exact ⟨rfl, by simp⟩

theorem own_schema_nulls_struct :
    ∃ table, readWithSchemaFromBytes (.single (loneFile nestedSchema nestedRow nestedRow_conforms)) []
        nestedSchema = .ok table ∧ table.rows = [[.nested [[]] false]] ∧
      (loneFile nestedSchema nestedRow nestedRow_conforms).rowGroups.flatMap RowGroup.rows =
        [[.nested [[some (.int32 7)]]]] := by
  refine ⟨_, rfl, ?_, rfl⟩
  rfl

end OxiStore.Columnar
