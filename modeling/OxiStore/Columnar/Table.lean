/-
**Columnar tables and Parquet files.**
-/

import OxiStore.Lib.Bytes

namespace OxiStore.Columnar

open ByteString

inductive ColumnarError where
  | io (text : String)
  | arrow (text : String)
  | parquet (text : String)
  | schemaMismatch (text : String)
  | compress (text : String)
  | unsupportedType (text : String)
  | manifest (text : String)
deriving DecidableEq

/-! ### Schemas -/

inductive Physical where
  | boolean
  | int32
  | int64
  | int96
  | float
  | double
  | byteArray
  | fixedLenByteArray
deriving DecidableEq

inductive DataType where
  | boolean
  | int32
  | int64
  | float32
  | float64
  | utf8
  | other (physical : Physical)
deriving DecidableEq

def DataType.physical : DataType → Physical
  | .boolean => .boolean
  | .int32 => .int32
  | .int64 => .int64
  | .float32 => .float
  | .float64 => .double
  | .utf8 => .byteArray
  | .other physical => physical

inductive Field where
  | leaf (name : String) (type : DataType) (nullable : Bool := true)
  | group (name : String) (children : List Field) (nullable : Bool := true)

def Field.name : Field → String
  | .leaf name _ _ | .group name _ _ => name

def Field.nullable : Field → Bool
  | .leaf _ _ nullable | .group _ _ nullable => nullable

structure Leaf where
  name : String
  type : DataType
deriving DecidableEq

mutual

def Field.leaves : Field → List Leaf
  | .leaf name type _ => [⟨name, type⟩]
  | .group _ children _ => leavesOf children

def leavesOf : List Field → List Leaf
  | [] => []
  | field :: fields => field.leaves ++ leavesOf fields

end

abbrev Schema := List Field

namespace Schema

def columns (schema : Schema) : List Leaf := leavesOf schema

def indexOf (schema : Schema) (name : String) : Option ℕ := schema.findIdx? fun field => field.name == name

def leafIndexOf (schema : Schema) (name : String) : Option ℕ :=
  schema.columns.findIdx? fun leaf => leaf.name == name

def leavesBefore (schema : Schema) (place : ℕ) : ℕ := (columns (schema.take place)).length

def Flat (schema : Schema) : Prop := ∀ field ∈ schema, ∃ name type nullable, field = .leaf name type nullable

end Schema

/-! ### Values and rows -/

instance linearOrderInt32 : LinearOrder Int32 where
  toLE := instLEInt32
  toLT := instLTInt32
  le_refl := Int32.le_refl
  le_trans _ _ _ := Int32.le_trans
  le_antisymm _ _ := Int32.le_antisymm
  le_total := Int32.le_total
  lt_iff_le_not_ge first second := by
    rw [Int32.lt_iff_toInt_lt, Int32.le_iff_toInt_le, Int32.le_iff_toInt_le]
    omega
  toDecidableLE := Int32.decLe
  toDecidableLT := Int32.decLt

instance linearOrderInt64 : LinearOrder Int64 where
  toLE := instLEInt64
  toLT := instLTInt64
  le_refl := Int64.le_refl
  le_trans _ _ _ := Int64.le_trans
  le_antisymm _ _ := Int64.le_antisymm
  le_total := Int64.le_total
  lt_iff_le_not_ge first second := by
    rw [Int64.lt_iff_toInt_lt, Int64.le_iff_toInt_le, Int64.le_iff_toInt_le]
    omega
  toDecidableLE := Int64.decLe
  toDecidableLT := Int64.decLt

abbrev FloatValue := WithTop ℚ

inductive Datum where
  | boolean (value : Bool)
  | int32 (value : Int32)
  | int64 (value : Int64)
  | int96 (raw : Bytes)
  | float (value : FloatValue)
  | double (value : FloatValue)
  | byteArray (value : Bytes)
  | fixedLenByteArray (raw : Bytes)
deriving DecidableEq

def Datum.physical : Datum → Physical
  | .boolean _ => .boolean
  | .int32 _ => .int32
  | .int64 _ => .int64
  | .int96 _ => .int96
  | .float _ => .float
  | .double _ => .double
  | .byteArray _ => .byteArray
  | .fixedLenByteArray _ => .fixedLenByteArray

/-- **The cell of a row in a top-level field**: a value or null; in a nested field, the values and nulls
the row has in each leaf below it, and whether the cell itself is not null. -/
inductive Cell where
  | value (datum : Option Datum)
  | nested (leaves : List (List (Option Datum))) (valid : Bool := true)
deriving DecidableEq

def Cell.isNull : Cell → Bool
  | .value datum => datum.isNone
  | .nested _ valid => !valid

def Cell.leafValues : Cell → List (List (Option Datum))
  | .value datum => [[datum]]
  | .nested leaves _ => leaves

abbrev Row := List Cell

def Row.leafValues (row : Row) : List (List (Option Datum)) := row.flatMap Cell.leafValues

def validUtf8 (bytes : Bytes) : Bool := (ByteArray.mk bytes.toArray).validateUTF8

def DataType.Holds (type : DataType) (datum : Datum) : Prop :=
  datum.physical = type.physical ∧
    (type = .utf8 → ∀ bytes, datum = .byteArray bytes → validUtf8 bytes = true)

def Leaf.Fits (leaf : Leaf) (values : List (Option Datum)) : Prop :=
  ∀ datum, some datum ∈ values → leaf.type.Holds datum

def Field.Fits : Field → Cell → Prop
  | .leaf name type _, .value datum => Leaf.Fits ⟨name, type⟩ [datum]
  | .group _ children _, .nested leaves _ => List.Forall₂ Leaf.Fits (leavesOf children) leaves
  | _, _ => False

/-- **A cell that a column may hold**: of its type, and null only if the column may hold nulls. -/
structure Field.Admits (field : Field) (cell : Cell) : Prop where
  fits : field.Fits cell
  null : cell.isNull = true → field.nullable = true

def Row.Conforms (row : Row) (schema : Schema) : Prop := List.Forall₂ Field.Admits schema row

theorem Field.Fits.length_leafValues {field : Field} {cell : Cell} (fits : field.Fits cell) :
    cell.leafValues.length = field.leaves.length := by
  cases field with
  | leaf name type =>
    cases cell with
    | value datum => rfl
    | nested leaves => cases fits
  | group name children =>
    cases cell with
    | value datum => cases fits
    | nested leaves => exact fits.length_eq.symm

theorem Schema.leavesBefore_succ (field : Field) (schema : Schema) (place : ℕ) :
    Schema.leavesBefore (field :: schema) (place + 1) =
      field.leaves.length + Schema.leavesBefore schema place := by
  simp [Schema.leavesBefore, Schema.columns, leavesOf]

theorem Row.Conforms.leafValues_own {schema : Schema} {row : Row} (conforms : row.Conforms schema)
    {place : ℕ} {datum : Option Datum} (here : row[place]? = some (.value datum)) :
    row.leafValues[schema.leavesBefore place]? = some [datum] := by
  unfold Row.Conforms at conforms
  induction conforms generalizing place with
  | nil => simp at here
  | @cons field cell schema row admits _ ih =>
    cases place with
    | zero =>
      obtain rfl : cell = .value datum := by simpa using here
      rfl
    | succ place =>
      rw [Schema.leavesBefore_succ, ← admits.fits.length_leafValues]
      show (cell.leafValues ++ Row.leafValues row)[_]? = _
      rw [List.getElem?_append_right (Nat.le_add_right _ _), Nat.add_sub_cancel_left]
      exact ih (by simpa using here)

/-! ### Cells and rows to test with -/

def Physical.sample (one : Bool) : Physical → Datum
  | .boolean => .boolean one
  | .int32 => .int32 (if one then 1 else 0)
  | .int64 => .int64 (if one then 1 else 0)
  | .int96 => .int96 [if one then 1 else 0]
  | .float => .float (if one then 1 else 0 : ℚ)
  | .double => .double (if one then 1 else 0 : ℚ)
  | .byteArray => .byteArray (if one then [97] else [])
  | .fixedLenByteArray => .fixedLenByteArray [if one then 1 else 0]

def DataType.sample (one : Bool) (type : DataType) : Datum := type.physical.sample one

theorem DataType.holds_sample (one : Bool) (type : DataType) : type.Holds (type.sample one) := by
  refine ⟨?_, ?_⟩
  · unfold DataType.sample
    cases type.physical <;> rfl
  · rintro rfl bytes same
    cases same
    cases one <;> decide +kernel

def Field.nullCell : Field → Cell
  | .leaf _ _ _ => .value none
  | .group _ children _ => .nested ((leavesOf children).map fun _ => []) false

theorem Field.fits_nullCell (field : Field) : field.Fits field.nullCell := by
  cases field with
  | leaf name type => simp [Field.nullCell, Field.Fits, Leaf.Fits]
  | group name children =>
    show List.Forall₂ Leaf.Fits (leavesOf children) ((leavesOf children).map fun _ => [])
    rw [List.forall₂_map_right_iff, List.forall₂_same]
    simp [Leaf.Fits]

theorem Field.isNull_nullCell (field : Field) : field.nullCell.isNull = true := by
  cases field <;> rfl

def Field.fullCell (fill : DataType → Datum) : Field → Cell
  | .leaf _ type _ => .value (some (fill type))
  | .group _ children _ => .nested ((leavesOf children).map fun leaf => [some (fill leaf.type)])

theorem Field.leafValues_fullCell (fill : DataType → Datum) (field : Field) :
    (field.fullCell fill).leafValues = field.leaves.map fun leaf => [some (fill leaf.type)] := by
  cases field <;> rfl

/-- **A row with one cell of interest**, and one value in each leaf of the other columns. -/
def Schema.rowWith (fill : DataType → Datum) (schema : Schema) (place : ℕ) (cell : Cell) : Row :=
  (schema.map (Field.fullCell fill)).set place cell

section

variable {fill : DataType → Datum} {schema : Schema} {place : ℕ} {field : Field} {cell : Cell}

theorem Schema.getElem?_rowWith (here : schema[place]? = some field) :
    (schema.rowWith fill place cell)[place]? = some cell := by
  rw [rowWith, List.getElem?_set_self', List.getElem?_map, here]
  rfl

theorem Schema.getElem?_rowWith_other {place' : ℕ} {field' : Field} (there : schema[place']? = some field')
    (other : place ≠ place') : (schema.rowWith fill place cell)[place']? = some (field'.fullCell fill) := by
  rw [rowWith, List.getElem?_set_ne other, List.getElem?_map, there]
  rfl

theorem Row.leafValues_full (fill : DataType → Datum) (schema : Schema) :
    Row.leafValues (schema.map (Field.fullCell fill)) =
      schema.columns.map fun leaf => [some (fill leaf.type)] := by
  induction schema with
  | nil => rfl
  | cons field schema ih =>
    rw [Schema.columns, leavesOf, List.map_append, ← field.leafValues_fullCell]
    exact congrArg _ ih

theorem Schema.leafValues_rowWith {name : String} {type : DataType} {nullable : Bool}
    (primitive : schema[place]? = some (.leaf name type nullable)) {datum : Option Datum} {index : ℕ}
    {values : List (Option Datum)}
    (here : (schema.rowWith fill place (.value datum)).leafValues[index]? = some values) :
    (index = schema.leavesBefore place ∧ values = [datum]) ∨ (index ≠ schema.leavesBefore place ∧
      ∃ leaf, schema.columns[index]? = some leaf ∧ values = [some (fill leaf.type)]) := by
  have filled : ∀ {leaves : List Leaf} {index : ℕ},
      (leaves.map fun leaf => [some (fill leaf.type)])[index]? = some values →
        ∃ leaf, leaves[index]? = some leaf ∧ values = [some (fill leaf.type)] := by
    intro leaves index found
    obtain ⟨leaf, there, rfl⟩ := Option.map_eq_some_iff.mp ((List.getElem?_map ..).symm.trans found)
    exact ⟨leaf, there, rfl⟩
  induction schema generalizing place index with
  | nil => simp at primitive
  | cons first schema ih =>
    cases place with
    | zero =>
      obtain rfl : first = .leaf name type nullable := by simpa using primitive
      cases index with
      | zero => exact .inl ⟨rfl, (Option.some.inj here).symm⟩
      | succ index =>
        have later : (Row.leafValues (schema.map (Field.fullCell fill)))[index]? = some values := here
        rw [Row.leafValues_full] at later
        obtain ⟨leaf, there, same⟩ := filled later
        exact .inr ⟨Nat.succ_ne_zero index, leaf, there, same⟩
    | succ place =>
      have split : (first.leaves.map (fun leaf => [some (fill leaf.type)]) ++
          (Schema.rowWith fill schema place (.value datum)).leafValues)[index]? = some values :=
        first.leafValues_fullCell fill ▸ here
      rw [Schema.leavesBefore_succ]
      by_cases early : index < first.leaves.length
      · rw [List.getElem?_append_left (by rwa [List.length_map])] at split
        obtain ⟨leaf, there, same⟩ := filled split
        exact .inr ⟨by omega, leaf, (List.getElem?_append_left early).trans there, same⟩
      · rw [List.getElem?_append_right (by rw [List.length_map]; exact not_lt.mp early),
          List.length_map] at split
        rcases ih (by simpa using primitive) split with ⟨own, same⟩ | ⟨other, leaf, there, same⟩
        · exact .inl ⟨by omega, same⟩
        · refine .inr ⟨by omega, leaf, ?_, same⟩
          exact (List.getElem?_append_right (not_lt.mp early)).trans there

variable (holds : ∀ type : DataType, type.Holds (fill type))

include holds

theorem Leaf.fits_fill (leaf : Leaf) : leaf.Fits [some (fill leaf.type)] := by
  intro datum member
  obtain rfl : datum = fill leaf.type := by simpa using member
  exact holds leaf.type

theorem Field.admits_fullCell (field : Field) : field.Admits (field.fullCell fill) := by
  cases field with
  | leaf name type => exact ⟨Leaf.fits_fill holds ⟨name, type⟩, nofun⟩
  | group name children =>
    refine ⟨?_, nofun⟩
    show List.Forall₂ Leaf.Fits (leavesOf children) ((leavesOf children).map fun leaf => _)
    rw [List.forall₂_map_right_iff, List.forall₂_same]
    exact fun leaf _ => Leaf.fits_fill holds leaf

theorem Schema.conforms_rowWith (here : schema[place]? = some field) (admits : field.Admits cell) :
    (schema.rowWith fill place cell).Conforms schema := by
  unfold Row.Conforms
  induction schema generalizing place with
  | nil => simp at here
  | cons first schema ih =>
    cases place with
    | zero =>
      obtain rfl : first = field := by simpa using here
      refine .cons admits ?_
      rw [List.forall₂_map_right_iff, List.forall₂_same]
      exact fun field _ => field.admits_fullCell holds
    | succ place => exact .cons (first.admits_fullCell holds) (ih (by simpa using here))

end

/-! ### Statistics and row groups -/

structure ValueStatistics (T : Type) where
  minOpt : Option T
  maxOpt : Option T
  nullCountOpt : Option ℕ

def ValueStatistics.Bounds {T : Type} [LinearOrder T] (s : ValueStatistics T) (value : T) : Prop :=
  (∀ low ∈ s.minOpt, low ≤ value) ∧ ∀ high ∈ s.maxOpt, value ≤ high

inductive Statistics where
  | boolean (s : ValueStatistics Bool)
  | int32 (s : ValueStatistics Int32)
  | int64 (s : ValueStatistics Int64)
  | int96 (s : ValueStatistics Bytes)
  | float (s : ValueStatistics FloatValue)
  | double (s : ValueStatistics FloatValue)
  | byteArray (s : ValueStatistics Bytes)
  | fixedLenByteArray (s : ValueStatistics Bytes)

def Statistics.physical : Statistics → Physical
  | .boolean _ => .boolean
  | .int32 _ => .int32
  | .int64 _ => .int64
  | .int96 _ => .int96
  | .float _ => .float
  | .double _ => .double
  | .byteArray _ => .byteArray
  | .fixedLenByteArray _ => .fixedLenByteArray

/-- **Statistics that bound a value.** NaNs are not counted in the bounds of floats, and the bounds of
the types that are never compared may be anything. -/
def Statistics.Bounds : Statistics → Datum → Prop
  | .boolean s, .boolean value => s.Bounds value
  | .int32 s, .int32 value => s.Bounds value
  | .int64 s, .int64 value => s.Bounds value
  | .float s, .float value => value ≠ ⊤ → s.Bounds value
  | .double s, .double value => value ≠ ⊤ → s.Bounds value
  | .byteArray s, .byteArray value => s.Bounds value
  | _, _ => True

/-- **A row group**: its rows, and for each leaf column the statistics of its chunk, if it has any. -/
structure RowGroup (schema : Schema) where
  rows : List Row
  chunks : List (Option Statistics)
  conforms : ∀ row ∈ rows, row.Conforms schema
  typed : ∀ (place : ℕ) (stats : Statistics) (leaf : Leaf), chunks[place]? = some (some stats) →
    schema.columns[place]? = some leaf → stats.physical = leaf.type.physical
  bounded : ∀ (place : ℕ) (stats : Statistics), chunks[place]? = some (some stats) → ∀ row ∈ rows,
    ∀ values, row.leafValues[place]? = some values → ∀ datum, some datum ∈ values → stats.Bounds datum

def RowGroup.bare {schema : Schema} (rows : List Row) (conforms : ∀ row ∈ rows, row.Conforms schema) :
    RowGroup schema where
  rows := rows
  chunks := []
  conforms := conforms
  typed := by simp
  bounded := by simp

/-! ### Batches, tables and files -/

structure RecordBatch where
  schema : Schema
  rows : List Row

def RecordBatch.numRows (batch : RecordBatch) : ℕ := batch.rows.length

inductive CompressionMode where
  | none
  | oxiArc (level : UInt8)
deriving DecidableEq

structure ColumnarTable where
  schema : Schema
  batches : List RecordBatch
  compression : CompressionMode

def ColumnarTable.rows (table : ColumnarTable) : List Row := table.batches.flatMap RecordBatch.rows

structure ParquetFile where
  schema : Schema
  rowGroups : List (RowGroup schema)

theorem ParquetFile.conforms (file : ParquetFile) :
    ∀ row ∈ file.rowGroups.flatMap RowGroup.rows, Row.Conforms row file.schema := by
  intro row member
  obtain ⟨group, _, inside⟩ := List.mem_flatMap.mp member
  exact group.conforms row inside

/-- **The `parquet` crate**: the file some bytes stand for, and how its reader cuts the rows it reads
into batches. -/
structure Parquet where
  tryNew : Bytes → Except String ParquetFile
  cut : List Row → List (List Row)

/-- **A reader in order**: batches hold the rows in their order, and none of them is empty. -/
structure Parquet.InOrder (parquet : Parquet) : Prop where
  flatten_cut : ∀ rows, (parquet.cut rows).flatten = rows
  nonempty : ∀ rows, ∀ batch ∈ parquet.cut rows, batch ≠ []

def Parquet.single (file : ParquetFile) : Parquet where
  tryNew _ := .ok file
  cut rows := if rows = [] then [] else [rows]

theorem Parquet.inOrder_single (file : ParquetFile) : (Parquet.single file).InOrder where
  flatten_cut rows := by
    simp only [Parquet.single]
    split
    · simp_all
    · simp
  nonempty rows batch member := by
    simp only [Parquet.single] at member
    split at member
    · simp at member
    · simp_all

variable {parquet : Parquet}

def Parquet.collect (parquet : Parquet) (file : ParquetFile) (groups : List (RowGroup file.schema)) :
    ColumnarTable :=
  ⟨file.schema, (parquet.cut (groups.flatMap RowGroup.rows)).map (RecordBatch.mk file.schema), .none⟩

def readBatchesFromBytes (parquet : Parquet) (data : Bytes) : Except ColumnarError ColumnarTable := do
  let file ← (parquet.tryNew data).mapError .parquet
  .ok (parquet.collect file file.rowGroups)

theorem Parquet.InOrder.rows_collect (inOrder : parquet.InOrder) (file : ParquetFile)
    (groups : List (RowGroup file.schema)) :
    (parquet.collect file groups).rows = groups.flatMap RowGroup.rows := by
  unfold Parquet.collect ColumnarTable.rows
  rw [List.flatMap_map]
  exact List.flatMap_id.trans (inOrder.flatten_cut _)

theorem Parquet.InOrder.batches_collect (inOrder : parquet.InOrder) (file : ParquetFile)
    {groups : List (RowGroup file.schema)} (nothing : groups.flatMap RowGroup.rows = []) :
    (parquet.collect file groups).batches = [] := by
  have whole := inOrder.flatten_cut []
  have none' : parquet.cut [] = [] := by
    rw [List.eq_nil_iff_forall_not_mem]
    intro batch member
    exact inOrder.nonempty [] batch member (List.flatten_eq_nil_iff.mp whole batch member)
  unfold Parquet.collect
  rw [nothing, none']
  rfl

end OxiStore.Columnar
