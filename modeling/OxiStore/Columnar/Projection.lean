/-
**Reading some of the columns.**
-/

import OxiStore.Columnar.Predicate

namespace OxiStore.Columnar

open ByteString List

/-! ### Types of columns -/

@[induction_eliminator]
theorem Field.induction {motive : Field → Prop}
    (leaf : ∀ name type nullable, motive (.leaf name type nullable))
    (group : ∀ name children nullable, (∀ child ∈ children, motive child) →
      motive (.group name children nullable)) (field : Field) : motive field :=
  @Field.rec motive (fun fields => ∀ field ∈ fields, motive field) leaf
    (fun name children nullable => group name children nullable) (by simp)
    (fun _ _ first rest => forall_mem_cons.mpr ⟨first, rest⟩) field

mutual

def Field.decEq : (first second : Field) → Decidable (first = second)
  | .leaf name type nullable, .leaf name' type' nullable' =>
      if same : name = name' ∧ type = type' ∧ nullable = nullable' then
        isTrue (by rw [same.1, same.2.1, same.2.2])
      else isFalse (by simpa using same)
  | .leaf _ _ _, .group _ _ _ => isFalse nofun
  | .group _ _ _, .leaf _ _ _ => isFalse nofun
  | .group name children nullable, .group name' children' nullable' =>
      match decEq (name, nullable) (name', nullable'), fieldsDecEq children children' with
      | isTrue same, isTrue alike => isTrue (by rw [(Prod.mk.inj same).1, (Prod.mk.inj same).2, alike])
      | isFalse other, _ => isFalse fun same => other (by cases same; rfl)
      | _, isFalse other => isFalse fun same => other (by cases same; rfl)

def fieldsDecEq : (first second : List Field) → Decidable (first = second)
  | [], [] => isTrue rfl
  | [], _ :: _ => isFalse nofun
  | _ :: _, [] => isFalse nofun
  | field :: fields, field' :: fields' =>
      match field.decEq field', fieldsDecEq fields fields' with
      | isTrue same, isTrue alike => isTrue (by rw [same, alike])
      | isFalse other, _ => isFalse (by simp [other])
      | _, isFalse other => isFalse (by simp [other])

end

instance : DecidableEq Field := Field.decEq

def Field.type : Field → DataType ⊕ List Field
  | .leaf _ type _ => .inl type
  | .group _ children _ => .inr children

theorem Field.eq_of_type {first second : Field} (name : first.name = second.name)
    (type : first.type = second.type) (nullable : first.nullable = second.nullable) : first = second := by
  cases first with
  | leaf name' type' =>
    cases second with
    | leaf _ _ =>
      cases name
      cases type
      cases nullable
      rfl
    | group _ _ => cases type
  | group name' children =>
    cases second with
    | leaf _ _ => cases type
    | group _ _ =>
      cases name
      cases type
      cases nullable
      rfl

/-- **A field that can be stored**: no nested field is without columns. -/
inductive Field.Stored : Field → Prop
  | leaf (name : String) (type : DataType) (nullable : Bool) : Field.Stored (.leaf name type nullable)
  | group (name : String) {children : List Field} (nullable : Bool) (some' : children ≠ [])
      (stored : ∀ child ∈ children, Field.Stored child) : Field.Stored (.group name children nullable)

theorem leavesOf_eq_flatMap (fields : List Field) : leavesOf fields = fields.flatMap Field.leaves := by
  induction fields with
  | nil => rfl
  | cons field fields ih => rw [leavesOf, ih, flatMap_cons]

/-! ### What is left of a column -/

mutual

def Field.project (keep : String → Bool) : Field → Option Field
  | .leaf name type nullable => if keep name then some (.leaf name type nullable) else none
  | .group name children nullable => match projectFields keep children with
      | [] => none
      | child :: rest => some (.group name (child :: rest) nullable)

def projectFields (keep : String → Bool) : List Field → List Field
  | [] => []
  | field :: fields => match field.project keep with
      | some kept => kept :: projectFields keep fields
      | none => projectFields keep fields

end

def Cell.project (keep : String → Bool) (field : Field) : Cell → Cell
  | .value datum => .value datum
  | .nested leaves valid => .nested ((field.leaves.zip leaves).filterMap fun (leaf, values) =>
      if keep leaf.name then some values else none) valid

def Row.project (keep : String → Bool) (schema : Schema) (row : Row) : Row :=
  (schema.zip row).filterMap fun (field, cell) =>
    if (field.project keep).isSome then some (cell.project keep field) else none

section

variable {keep : String → Bool}

theorem projectFields_eq (keep : String → Bool) (fields : List Field) :
    projectFields keep fields = fields.filterMap (Field.project keep) := by
  induction fields with
  | nil => rfl
  | cons field fields ih =>
    rw [projectFields]
    cases kept : field.project keep with
    | none => rw [filterMap_cons_none kept, ih]
    | some left => rw [filterMap_cons_some kept, ih]

variable {field : Field}

theorem Field.head_project {kept : Field} (left : field.project keep = some kept) :
    kept.name = field.name ∧ kept.nullable = field.nullable := by
  cases field with
  | leaf name type =>
    rw [Field.project] at left
    split_ifs at left
    cases left
    exact ⟨rfl, rfl⟩
  | group name children =>
    rw [Field.project] at left
    split at left
    · cases left
    · cases left
      exact ⟨rfl, rfl⟩

theorem Field.leaves_project (keep : String → Bool) (field : Field) :
    ((field.project keep).map Field.leaves).getD [] = field.leaves.filter fun leaf => keep leaf.name := by
  induction field with
  | leaf name type =>
    rw [Field.project, Field.leaves]
    by_cases wanted : keep name = true
    · simp [wanted, Field.leaves]
    · simp [wanted]
  | group name children nullable ih =>
    have below : leavesOf (projectFields keep children) =
        (leavesOf children).filter fun leaf => keep leaf.name := by
      rw [projectFields_eq, leavesOf_eq_flatMap, leavesOf_eq_flatMap, filter_flatMap]
      induction children with
      | nil => rfl
      | cons child children ihChildren =>
        have here := ih child mem_cons_self
        have rest := ihChildren fun child member => ih child (mem_cons_of_mem _ member)
        rw [flatMap_cons, ← here, ← rest]
        cases kept : child.project keep with
        | none =>
          rw [filterMap_cons_none kept]
          rfl
        | some left =>
          rw [filterMap_cons_some kept]
          rfl
    rw [Field.project, Field.leaves, ← below]
    cases projectFields keep children <;> rfl

theorem Field.project_ne_self {leaf : Leaf} (member : leaf ∈ field.leaves)
    (unwanted : keep leaf.name = false) : field.project keep ≠ some field := by
  intro whole
  have leaves := field.leaves_project keep
  rw [whole] at leaves
  have kept : leaf ∈ field.leaves.filter fun leaf => keep leaf.name := leaves ▸ member
  rw [mem_filter, unwanted] at kept
  cases kept.2

theorem Field.project_self (stored : field.Stored) (wanted : ∀ leaf ∈ field.leaves, keep leaf.name = true) :
    field.project keep = some field := by
  induction stored with
  | leaf name type => exact if_pos (wanted _ (mem_singleton_self _))
  | @group name children nullable some' _ ih =>
    have every : ∀ child ∈ children, child.project keep = some child := by
      intro child member
      refine ih child member fun leaf inside => wanted leaf ?_
      rw [Field.leaves, leavesOf_eq_flatMap]
      exact mem_flatMap.mpr ⟨child, member, inside⟩
    have same : projectFields keep children = children := by
      rw [projectFields_eq, filterMap_congr every, filterMap_some]
    obtain ⟨child, rest, rfl⟩ := exists_cons_of_ne_nil some'
    rw [Field.project, same]

theorem Cell.project_self {cell : Cell} (fits : field.Fits cell)
    (wanted : ∀ leaf ∈ field.leaves, keep leaf.name = true) : cell.project keep field = cell := by
  cases cell with
  | value datum => rfl
  | nested leaves =>
    have every : ∀ pair ∈ field.leaves.zip leaves,
        (if keep pair.1.name then some pair.2 else none) = some pair.2 := fun pair member =>
      if_pos (wanted pair.1 (of_mem_zip member).1)
    rw [Cell.project, filterMap_congr every]
    have second : (field.leaves.zip leaves).filterMap (fun pair => some pair.2) = leaves := by
      rw [filterMap_eq_map']
      exact map_snd_zip (le_of_eq fits.length_leafValues)
    rw [second]

theorem Cell.mem_project {cell : Cell} {values : List (Option Datum)}
    (member : values ∈ (cell.project keep field).leafValues) : values ∈ cell.leafValues := by
  cases cell with
  | value datum => exact member
  | nested leaves =>
    obtain ⟨⟨leaf, values'⟩, pair, kept⟩ := mem_filterMap.mp member
    dsimp only at kept
    split_ifs at kept
    cases kept
    exact (of_mem_zip pair).2

end

/-! ### Where the columns stand -/

section

variable {keep : String → Bool} {schema : Schema} {name : String} {place : ℕ} {field kept : Field}

theorem Schema.indexOf_cons (first : Field) (rest : Schema) (name : String) :
    Schema.indexOf (first :: rest) name =
      if first.name = name then some 0 else (Schema.indexOf rest name).map (· + 1) := by
  unfold Schema.indexOf
  rw [findIdx?_cons]
  simp

theorem Schema.getElem?_of_indexOf (found : schema.indexOf name = some place) :
    ∃ field, schema[place]? = some field := by
  obtain ⟨inside, _⟩ := findIdx?_eq_some_iff_getElem.mp found
  exact ⟨_, getElem?_eq_getElem inside⟩

theorem Row.project_cons (first : Field) (rest : Schema) (cell : Cell) (row : Row) :
    Row.project keep (first :: rest) (cell :: row) =
      if (first.project keep).isSome then cell.project keep first :: Row.project keep rest row
      else Row.project keep rest row := by
  unfold Row.project
  rw [zip_cons_cons]
  by_cases read : (first.project keep).isSome = true
  · rw [if_pos read]
    exact filterMap_cons_some (if_pos read)
  · rw [if_neg read]
    exact filterMap_cons_none (if_neg read)

/-- **The column read at `idx` comes from the one at `place` in the file.** -/
structure ReadFrom (keep : String → Bool) (schema : Schema) (idx place : ℕ) (field kept : Field) : Prop where
  here : schema[place]? = some field
  left : field.project keep = some kept
  there : (projectFields keep schema)[idx]? = some kept
  cells : ∀ row : Row, row.length = schema.length →
    (row.project keep schema).cell idx = (row.cell place).project keep field

theorem readFrom_zero (first : Field) (rest : Schema) (left : first.project keep = some kept) :
    ReadFrom keep (first :: rest) 0 0 first kept where
  here := rfl
  left := left
  there := by
    rw [projectFields, left]
    rfl
  cells row length := by
    cases row with
    | nil => simp at length
    | cons cell row =>
      rw [Row.project_cons, if_pos (by rw [left]; rfl)]
      rfl

theorem ReadFrom.succ {idx : ℕ} (read : ReadFrom keep schema idx place field kept) (first : Field) :
    ReadFrom keep (first :: schema) (if (first.project keep).isSome then idx + 1 else idx) (place + 1)
      field kept where
  here := read.here
  left := read.left
  there := by
    rw [projectFields]
    cases first.project keep <;> exact read.there
  cells row length := by
    cases row with
    | nil => simp at length
    | cons cell row =>
      have rest := read.cells row (by simpa using length)
      rw [Row.project_cons]
      cases first.project keep <;> exact rest

theorem exists_readFrom {idx : ℕ} (there : (projectFields keep schema)[idx]? = some kept) :
    ∃ place field, ReadFrom keep schema idx place field kept := by
  induction schema generalizing idx with
  | nil => simp [projectFields] at there
  | cons first rest ih =>
    rw [projectFields] at there
    cases left : first.project keep with
    | none =>
      rw [left] at there
      obtain ⟨place, field, read⟩ := ih there
      have shifted := read.succ first
      rw [left] at shifted
      exact ⟨place + 1, field, shifted⟩
    | some other =>
      rw [left] at there
      cases idx with
      | zero =>
        obtain rfl : other = kept := by simpa using there
        exact ⟨0, first, readFrom_zero first rest left⟩
      | succ idx =>
        obtain ⟨place, field, read⟩ := ih (by simpa using there)
        have shifted := read.succ first
        rw [left] at shifted
        exact ⟨place + 1, field, shifted⟩

theorem indexOf_projectFields_cons {first : Field} (other : first.name ≠ name) (rest : Schema) :
    Schema.indexOf (projectFields keep (first :: rest)) name =
      (Schema.indexOf (projectFields keep rest) name).map fun idx =>
        if (first.project keep).isSome then idx + 1 else idx := by
  rw [projectFields]
  cases left : first.project keep with
  | none => simp
  | some kept =>
    have other' : kept.name ≠ name := by
      rw [(Field.head_project left).1]
      exact other
    simp [Schema.indexOf_cons, other']

theorem indexOf_project (found : schema.indexOf name = some place) (here : schema[place]? = some field)
    (left : field.project keep = some kept) :
    ∃ idx, Schema.indexOf (projectFields keep schema) name = some idx ∧
      ReadFrom keep schema idx place field kept := by
  induction schema generalizing place with
  | nil => simp at here
  | cons first rest ih =>
    rw [Schema.indexOf_cons] at found
    by_cases same : first.name = name
    · rw [if_pos same] at found
      obtain rfl : 0 = place := Option.some.inj found
      obtain rfl : first = field := by simpa using here
      refine ⟨0, ?_, readFrom_zero first rest left⟩
      rw [projectFields, left]
      simp only
      rw [Schema.indexOf_cons, if_pos ((Field.head_project left).1.trans same)]
    · rw [if_neg same] at found
      obtain ⟨place', found', rfl⟩ := Option.map_eq_some_iff.mp found
      obtain ⟨idx, found'', read⟩ := ih found' (by simpa using here)
      refine ⟨_, ?_, read.succ first⟩
      rw [indexOf_projectFields_cons same, found'']
      rfl

theorem indexOf_project_none (missing : schema.indexOf name = none) :
    Schema.indexOf (projectFields keep schema) name = none := by
  induction schema with
  | nil => rfl
  | cons first rest ih =>
    rw [Schema.indexOf_cons] at missing
    by_cases same : first.name = name
    · simp [if_pos same] at missing
    · rw [if_neg same, Option.map_eq_none_iff] at missing
      rw [indexOf_projectFields_cons same, ih missing]
      rfl

end

/-! ### The readers -/

def RecordBatch.nullIn (schema : Schema) (rows : List Row) : Option (Field × ℕ) :=
  schema.zipIdx.find? fun (field, idx) => !field.nullable && rows.any fun row => (row.cell idx).isNull

def RecordBatch.tryNew (schema : Schema) (types : List (DataType ⊕ List Field)) (rows : List Row) :
    Except String RecordBatch :=
  if types = [] then .error "must either specify a row count or at least one column"
  else match RecordBatch.nullIn schema rows with
    | some (field, _) =>
        .error ("Column '" ++ field.name ++ "' is declared as non-nullable but contains null values")
    | none =>
        if types ≠ schema.map Field.type then .error "column types must match schema types"
        else .ok ⟨schema, rows⟩

/-- **No null where the schema has none.** -/
def Row.Respects (row : Row) (schema : Schema) : Prop :=
  ∀ idx field, schema[idx]? = some field → (row.cell idx).isNull = true → field.nullable = true

theorem Row.Conforms.admits_cell {schema : Schema} {row : Row} (conforms : row.Conforms schema)
    {place : ℕ} {field : Field} (here : schema[place]? = some field) : field.Admits (row.cell place) := by
  unfold Row.Conforms at conforms
  induction conforms generalizing place with
  | nil => simp at here
  | cons admits _ ih =>
    cases place with
    | zero =>
      cases here
      exact admits
    | succ place => exact ih (by simpa using here)

theorem RecordBatch.nullIn_eq_none {schema : Schema} {rows : List Row} :
    RecordBatch.nullIn schema rows = none ↔ ∀ row ∈ rows, row.Respects schema := by
  unfold RecordBatch.nullIn Row.Respects
  rw [find?_eq_none]
  constructor
  · intro none_found row member idx field here null
    by_contra required
    refine none_found (field, idx) (mem_zipIdx_iff_getElem?.mpr here) ?_
    simp only [Bool.and_eq_true, any_eq_true]
    exact ⟨by simpa using required, row, member, null⟩
  · rintro respects ⟨field, idx⟩ member found
    simp only [Bool.and_eq_true, any_eq_true] at found
    obtain ⟨required, row, among, null⟩ := found
    have nullable := respects row among idx field (mem_zipIdx_iff_getElem?.mp member) null
    simp [nullable] at required

theorem RecordBatch.tryNew_eq_ok {schema : Schema} {types : List (DataType ⊕ List Field)} {rows : List Row}
    {batch : RecordBatch} : RecordBatch.tryNew schema types rows = .ok batch ↔
      types ≠ [] ∧ (∀ row ∈ rows, row.Respects schema) ∧ types = schema.map Field.type ∧
        batch = ⟨schema, rows⟩ := by
  unfold RecordBatch.tryNew
  by_cases some' : types = []
  · simp [some']
  rw [if_neg some', ← RecordBatch.nullIn_eq_none]
  cases RecordBatch.nullIn schema rows with
  | some found => simp
  | none =>
    by_cases same : types = schema.map Field.type
    · rw [if_neg (not_not.mpr same), Except.ok.injEq]
      exact ⟨fun made => ⟨some', rfl, same, made.symm⟩, fun made => made.2.2.2.symm⟩
    · simp [same]

def Parquet.collectProjected (parquet : Parquet) (file : ParquetFile) (keep : String → Bool) :
    List RecordBatch :=
  (parquet.cut (file.rowGroups.flatMap RowGroup.rows)).map fun rows =>
    ⟨projectFields keep file.schema, rows.map (Row.project keep file.schema)⟩

theorem Parquet.InOrder.rows_collectProjected {parquet : Parquet} (inOrder : parquet.InOrder)
    (file : ParquetFile) (keep : String → Bool) :
    (parquet.collectProjected file keep).flatMap RecordBatch.rows =
      (file.rowGroups.flatMap RowGroup.rows).map (Row.project keep file.schema) := by
  have whole := inOrder.flatten_cut (file.rowGroups.flatMap RowGroup.rows)
  unfold Parquet.collectProjected
  rw [flatMap_map]
  nth_rewrite 2 [← whole]
  rw [map_flatten]
  rfl

theorem Parquet.schema_collectProjected {parquet : Parquet} {file : ParquetFile} {keep : String → Bool} :
    ∀ batch ∈ parquet.collectProjected file keep, batch.schema = projectFields keep file.schema := by
  intro batch member
  obtain ⟨rows, _, rfl⟩ := mem_map.mp member
  rfl

def readColumnsFromBytes (parquet : Parquet) (data : Bytes) (columns : List String) :
    Except ColumnarError ColumnarTable := do
  let file ← (parquet.tryNew data).mapError .parquet
  let batches := parquet.collectProjected file columns.contains
  let projectedSchema := match batches with
    | first :: _ => first.schema
    | [] => file.schema.filter fun field => columns.contains field.name
  .ok ⟨projectedSchema, batches, .none⟩

def Field.typeText : Field → String
  | .leaf _ .boolean _ => "Boolean"
  | .leaf _ .int32 _ => "Int32"
  | .leaf _ .int64 _ => "Int64"
  | .leaf _ .float32 _ => "Float32"
  | .leaf _ .float64 _ => "Float64"
  | .leaf _ .utf8 _ => "Utf8"
  | .leaf _ (.other _) _ => "other"
  | .group _ children _ => "nested (" ++ ", ".intercalate (children.map Field.name) ++ ")"

def checkTypes (fileSchema : Schema) : List Field → Except ColumnarError Unit
  | [] => .ok ()
  | targetField :: rest =>
      match (fileSchema.indexOf targetField.name).bind (fileSchema[·]?) with
      | none => checkTypes fileSchema rest
      | some fileField =>
          if fileField.type ≠ targetField.type then
            .error (.schemaMismatch ("column '" ++ targetField.name ++ "': file type " ++
              fileField.typeText ++ " != target type " ++ targetField.typeText))
          else checkTypes fileSchema rest

def columnsToRead (fileSchema target : Schema) : List String :=
  (target.map Field.name).filter fun name => (fileSchema.indexOf name).isSome

def RecordBatch.columnFor (schema : Schema) (targetField : Field) : (DataType ⊕ List Field) × (Row → Cell) :=
  match schema.indexOf targetField.name with
  | some idx => ((schema[idx]?.map Field.type).getD (.inr []), fun row => row.cell idx)
  | none => (targetField.type, fun _ => targetField.nullCell)

def RecordBatch.reassemble (target : Schema) (batch : RecordBatch) : Except String RecordBatch :=
  let cols := target.map (RecordBatch.columnFor batch.schema)
  RecordBatch.tryNew target (cols.map Prod.fst) (batch.rows.map fun row => cols.map fun col => col.2 row)

def reassembleAll (target : Schema) : List RecordBatch → Except ColumnarError (List RecordBatch)
  | [] => .ok []
  | batch :: batches => do
      let newBatch ← (batch.reassemble target).mapError .arrow
      let rest ← reassembleAll target batches
      .ok (newBatch :: rest)

def readWithSchemaFromBytes (parquet : Parquet) (data : Bytes) (target : Schema) :
    Except ColumnarError ColumnarTable := do
  let file ← (parquet.tryNew data).mapError .parquet
  checkTypes file.schema target
  let batches := parquet.collectProjected file (columnsToRead file.schema target).contains
  let resultBatches ← reassembleAll target batches
  .ok ⟨target, resultBatches, .none⟩

end OxiStore.Columnar
