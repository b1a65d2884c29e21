/-
**Predicates, on rows and on statistics.**
-/

import OxiStore.Lib.Results
import OxiStore.Columnar.Table

namespace OxiStore.Columnar

open ByteString Results List

/-! ### Predicates -/

inductive Scalar where
  | bool (value : Bool)
  | int32 (value : Int32)
  | int64 (value : Int64)
  | float32 (value : FloatValue)
  | float64 (value : FloatValue)
  | bytes (value : Bytes)
  | null
deriving DecidableEq

inductive CmpOp where
  | eq
  | ne
  | lt
  | le
  | gt
  | ge
deriving DecidableEq

inductive Predicate where
  | cmp (column : String) (op : CmpOp) (value : Scalar)
  | and (preds : List Predicate)
  | or (preds : List Predicate)
  | not (pred : Predicate)
  | all
  | none

@[induction_eliminator]
theorem Predicate.induction {motive : Predicate → Prop}
    (cmp : ∀ column op value, motive (.cmp column op value))
    (and : ∀ preds, (∀ pred ∈ preds, motive pred) → motive (.and preds))
    (or : ∀ preds, (∀ pred ∈ preds, motive pred) → motive (.or preds))
    (not : ∀ pred, motive pred → motive (.not pred)) (all : motive .all) (none : motive .none)
    (pred : Predicate) : motive pred := by
  refine @Predicate.rec motive (fun preds => ∀ pred ∈ preds, motive pred) cmp and or not all none ?_ ?_ pred
  · exact fun _ member => absurd member not_mem_nil
  · intro first rest here there pred member
    rcases mem_cons.mp member with rfl | later
    · exact here
    · exact there pred later

mutual

def Predicate.columns : Predicate → List String
  | .cmp column _ _ => [column]
  | .and preds => columnsOf preds
  | .or preds => columnsOf preds
  | .not pred => pred.columns
  | .all => []
  | .none => []

def columnsOf : List Predicate → List String
  | [] => []
  | pred :: preds => pred.columns ++ columnsOf preds

end

theorem mem_columnsOf {preds : List Predicate} {pred : Predicate} (member : pred ∈ preds)
    {column : String} (compared : column ∈ pred.columns) : column ∈ columnsOf preds := by
  induction preds with
  | nil => exact absurd member not_mem_nil
  | cons first rest ih =>
    rw [columnsOf, mem_append]
    rcases mem_cons.mp member with rfl | later
    · exact Or.inl compared
    · exact Or.inr (ih later)

/-! ### Comparisons on rows -/

def CmpOp.holds {T : Type} [LinearOrder T] (op : CmpOp) (left right : T) : Bool :=
  match op with
  | .eq => left = right
  | .ne => left ≠ right
  | .lt => left < right
  | .le => left ≤ right
  | .gt => left > right
  | .ge => left ≥ right

abbrev BooleanArray := List (Option Bool)

def applyCmp {T : Type} [LinearOrder T] (col : List (Option T)) (op : CmpOp) (rhs : T) : BooleanArray :=
  col.map (Option.map fun value => op.holds value rhs)

def applyCmpI32 (col : List (Option Int32)) (op : CmpOp) (rhs : Int32) : BooleanArray := applyCmp col op rhs

def applyCmpI64 (col : List (Option Int64)) (op : CmpOp) (rhs : Int64) : BooleanArray := applyCmp col op rhs

def applyCmpF32 (col : List (Option FloatValue)) (op : CmpOp) (rhs : FloatValue) : BooleanArray :=
  applyCmp col op rhs

def applyCmpF64 (col : List (Option FloatValue)) (op : CmpOp) (rhs : FloatValue) : BooleanArray :=
  applyCmp col op rhs

def applyCmpStr (col : List (Option Bytes)) (op : CmpOp) (rhs : Bytes) : BooleanArray := applyCmp col op rhs

structure Column where
  type : Option DataType
  cells : List Cell

def Field.dataType : Field → Option DataType
  | .leaf _ type _ => some type
  | .group _ _ _ => Option.none

def Row.cell (row : Row) (place : ℕ) : Cell := row.getD place (.value Option.none)

def RecordBatch.column (batch : RecordBatch) (place : ℕ) : Column :=
  ⟨batch.schema[place]?.bind Field.dataType, batch.rows.map fun row => row.cell place⟩

def Column.downcast {T : Type} (col : Column) (type : DataType) (read : Datum → Option T) :
    Option (List (Option T)) :=
  if col.type = some type then
    some (col.cells.map fun cell => match cell with
      | .value (some datum) => read datum
      | _ => Option.none)
  else Option.none

def Datum.int32Opt : Datum → Option Int32
  | .int32 value => some value
  | _ => Option.none

def Datum.int64Opt : Datum → Option Int64
  | .int64 value => some value
  | _ => Option.none

def Datum.floatOpt : Datum → Option FloatValue
  | .float value => some value
  | _ => Option.none

def Datum.doubleOpt : Datum → Option FloatValue
  | .double value => some value
  | _ => Option.none

def Datum.byteArrayOpt : Datum → Option Bytes
  | .byteArray value => some value
  | _ => Option.none

def typeMismatch (expected : String) : ColumnarError := .schemaMismatch ("type mismatch: expected " ++ expected)

def unsupportedScalar (shown : String) : ColumnarError :=
  .schemaMismatch ("unsupported scalar type for row-level filter: " ++ shown)

def Column.compareAs {T : Type} (col : Column) (type : DataType) (read : Datum → Option T)
    (expected : String) (compare : List (Option T) → BooleanArray) : Except ColumnarError BooleanArray :=
  match col.downcast type read with
  | Option.none => .error (typeMismatch expected)
  | some arr => .ok (compare arr)

def evaluateCmpColumn (col : Column) (op : CmpOp) : Scalar → Except ColumnarError BooleanArray
  | .int32 v => col.compareAs .int32 Datum.int32Opt "Int32" fun arr => applyCmpI32 arr op v
  | .int64 v => col.compareAs .int64 Datum.int64Opt "Int64" fun arr => applyCmpI64 arr op v
  | .float32 v => col.compareAs .float32 Datum.floatOpt "Float32" fun arr => applyCmpF32 arr op v
  | .float64 v => col.compareAs .float64 Datum.doubleOpt "Float64" fun arr => applyCmpF64 arr op v
  | .bytes v => match col.downcast .utf8 Datum.byteArrayOpt with
      | Option.none => .error (typeMismatch "Utf8 (StringArray) for Bytes comparison")
      | some arr =>
          if validUtf8 v then .ok (applyCmpStr arr op v)
          else .error (.schemaMismatch
            "Bytes scalar is not valid UTF-8; cannot compare against Utf8 column")
  | .bool v => .error (unsupportedScalar ("Bool(" ++ toString v ++ ")"))
  | .null => .error (unsupportedScalar "Null")

/-! ### Predicates on batches -/

def combineKernel (combine : Bool → Bool → Bool) (left right : BooleanArray) :
    Except String BooleanArray :=
  if left.length ≠ right.length then
    .error "Cannot perform bitwise operation on arrays of different length"
  else .ok (List.zipWith (Option.map₂ combine) left right)

def notKernel (mask : BooleanArray) : BooleanArray := mask.map (Option.map Bool.not)

mutual

def Predicate.evaluateBatch : Predicate → RecordBatch → Except ColumnarError BooleanArray
  | .all, batch => .ok (List.replicate batch.numRows (some true))
  | .none, batch => .ok (List.replicate batch.numRows (some false))
  | .cmp column op value, batch => match batch.schema.indexOf column with
      | Option.none => .error (.schemaMismatch ("column '" ++ column ++ "' not found in batch"))
      | some place => evaluateCmpColumn (batch.column place) op value
  | .and preds, batch => combineAll Bool.and preds batch (List.replicate batch.numRows (some true))
  | .or preds, batch => combineAll Bool.or preds batch (List.replicate batch.numRows (some false))
  | .not pred, batch => do
      let mask ← pred.evaluateBatch batch
      .ok (notKernel mask)

def combineAll (combine : Bool → Bool → Bool) :
    List Predicate → RecordBatch → BooleanArray → Except ColumnarError BooleanArray
  | [], _, result => .ok result
  | pred :: preds, batch, result => do
      let mask ← pred.evaluateBatch batch
      let result ← (combineKernel combine result mask).mapError .arrow
      combineAll combine preds batch result

end

def filterRecordBatch (batch : RecordBatch) (mask : BooleanArray) : RecordBatch :=
  { batch with rows := (batch.rows.zip mask).filterMap fun (row, keep) =>
      if keep = some true then some row else Option.none }

def filterBatches (predicate : Predicate) : List RecordBatch → Except ColumnarError (List RecordBatch)
  | [] => .ok []
  | batch :: batches => do
      let mask ← predicate.evaluateBatch batch
      let result := filterRecordBatch batch mask
      let filtered ← filterBatches predicate batches
      .ok (if result.numRows > 0 then result :: filtered else filtered)

def ColumnarTable.filter (table : ColumnarTable) (predicate : Predicate) :
    Except ColumnarError ColumnarTable := do
  let filtered ← filterBatches predicate table.batches
  .ok { table with batches := filtered }

/-! ### Predicates on statistics -/

def applyBoolOp (op : CmpOp) (min max v : Bool) : Bool :=
  match op with
  | .eq => (!min || v) && (!v || max)
  | .ne => true
  | .lt => !min && v
  | .le => !min || v
  | .gt => max && !v
  | .ge => max || !v

def applyOrdOp {T : Type} [LinearOrder T] (op : CmpOp) (min max v : T) (nullCount : Option ℕ) : Bool :=
  match op with
  | .eq => min ≤ v && v ≤ max
  | .ne =>
      let allSame := min = v && max = v
      let noNulls := nullCount = some 0
      !(allSame && noNulls)
  | .lt => min < v
  | .le => min ≤ v
  | .gt => max > v
  | .ge => max ≥ v

def applyFloatOp (epsilon : ℚ) (op : CmpOp) (min max v : FloatValue) (nullCount : Option ℕ) : Bool :=
  if v = ⊤ ∨ min = ⊤ ∨ max = ⊤ then true
  else match op with
    | .eq => min ≤ v && v ≤ max
    | .ne =>
        let allSame := |min.untopD 0 - v.untopD 0| < epsilon && |max.untopD 0 - v.untopD 0| < epsilon
        let noNulls := nullCount = some 0
        !(allSame && noNulls)
    | .lt => min < v
    | .le => min ≤ v
    | .gt => max > v
    | .ge => max ≥ v

def epsilonF32 : ℚ := 1 / 2 ^ 23

def epsilonF64 : ℚ := 1 / 2 ^ 52

def applyFloatOpF32 : CmpOp → FloatValue → FloatValue → FloatValue → Option ℕ → Bool :=
  applyFloatOp epsilonF32

def applyFloatOpF64 : CmpOp → FloatValue → FloatValue → FloatValue → Option ℕ → Bool :=
  applyFloatOp epsilonF64

def applyBytesOp (op : CmpOp) (min max v : Bytes) (nullCount : Option ℕ) : Bool :=
  applyOrdOp op min max v nullCount

def ValueStatistics.judge {T : Type} (s : ValueStatistics T) (verdict : T → T → Bool) : Bool :=
  match s.minOpt, s.maxOpt with
  | some min, some max => verdict min max
  | _, _ => true

def evaluateCmp (stats : Statistics) (op : CmpOp) (value : Scalar) : Bool :=
  match stats, value with
  | .boolean s, .bool v => s.judge fun min max => applyBoolOp op min max v
  | .int32 s, .int32 v => s.judge fun min max => applyOrdOp op min max v s.nullCountOpt
  | .int64 s, .int64 v => s.judge fun min max => applyOrdOp op min max v s.nullCountOpt
  | .float s, .float32 v => s.judge fun min max => applyFloatOpF32 op min max v s.nullCountOpt
  | .double s, .float64 v => s.judge fun min max => applyFloatOpF64 op min max v s.nullCountOpt
  | .byteArray s, .bytes v => s.judge fun min max => applyBytesOp op min max v s.nullCountOpt
  | _, _ => true

section

variable {schema : Schema}

def cmpMightMatch (group : RowGroup schema) (column : String) (op : CmpOp) (value : Scalar) : Bool :=
  if value = .null then true
  else match schema.leafIndexOf column with
    | Option.none => true
    | some place =>
        if group.chunks.length ≤ place then true
        else match group.chunks[place]? with
          | some (some stats) => evaluateCmp stats op value
          | _ => true

mutual

def Predicate.rowGroupMightMatch : Predicate → RowGroup schema → Bool
  | .all, _ => true
  | .none, _ => false
  | .not _, _ => true
  | .and preds, group => allMightMatch preds group
  | .or preds, group => anyMightMatch preds group
  | .cmp column op value, group => cmpMightMatch group column op value

def allMightMatch : List Predicate → RowGroup schema → Bool
  | [], _ => true
  | pred :: preds, group => pred.rowGroupMightMatch group && allMightMatch preds group

def anyMightMatch : List Predicate → RowGroup schema → Bool
  | [], _ => false
  | pred :: preds, group => pred.rowGroupMightMatch group || anyMightMatch preds group

end

theorem allMightMatch_eq_false {preds : List Predicate} {group : RowGroup schema} :
    allMightMatch preds group = false ↔ ∃ pred ∈ preds, pred.rowGroupMightMatch group = false := by
  induction preds with
  | nil => simp [allMightMatch]
  | cons pred preds ih =>
    rw [allMightMatch, Bool.and_eq_false_iff, ih]
    simp

theorem anyMightMatch_eq_false {preds : List Predicate} {group : RowGroup schema} :
    anyMightMatch preds group = false ↔ ∀ pred ∈ preds, pred.rowGroupMightMatch group = false := by
  induction preds with
  | nil => simp [anyMightMatch]
  | cons pred preds ih => simp [anyMightMatch, ih]

end

/-! ### A predicate tests row by row -/

def Datum.test (op : CmpOp) (value : Scalar) (datum : Datum) : Option Bool :=
  match datum, value with
  | .int32 left, .int32 right => some (op.holds left right)
  | .int64 left, .int64 right => some (op.holds left right)
  | .float left, .float32 right => some (op.holds left right)
  | .double left, .float64 right => some (op.holds left right)
  | .byteArray left, .bytes right => some (op.holds left right)
  | _, _ => Option.none

def Cell.test (op : CmpOp) (value : Scalar) : Cell → Option Bool
  | .value (some datum) => datum.test op value
  | _ => Option.none

def Scalar.columnType : Scalar → Option DataType
  | .int32 _ => some .int32
  | .int64 _ => some .int64
  | .float32 _ => some .float32
  | .float64 _ => some .float64
  | .bytes _ => some .utf8
  | .bool _ => Option.none
  | .null => Option.none

def cmpError (type : Option DataType) (op : CmpOp) (value : Scalar) : Except ColumnarError Unit :=
  (evaluateCmpColumn ⟨type, []⟩ op value).map fun _ => ()

abbrev RowTest := Row → Option Bool

mutual

def Predicate.rowTest : Predicate → Schema → Except ColumnarError RowTest
  | .all, _ => .ok fun _ => some true
  | .none, _ => .ok fun _ => some false
  | .cmp column op value, schema => match schema.indexOf column with
      | Option.none => .error (.schemaMismatch ("column '" ++ column ++ "' not found in batch"))
      | some place => do
          cmpError (schema[place]?.bind Field.dataType) op value
          .ok fun row => (row.cell place).test op value
  | .and preds, schema => do
      let tests ← rowTests preds schema
      .ok fun row => tests.foldl (fun result test => Option.map₂ Bool.and result (test row)) (some true)
  | .or preds, schema => do
      let tests ← rowTests preds schema
      .ok fun row => tests.foldl (fun result test => Option.map₂ Bool.or result (test row)) (some false)
  | .not pred, schema => do
      let test ← pred.rowTest schema
      .ok fun row => (test row).map Bool.not

def rowTests : List Predicate → Schema → Except ColumnarError (List RowTest)
  | [], _ => .ok []
  | pred :: preds, schema => do
      let test ← pred.rowTest schema
      let tests ← rowTests preds schema
      .ok (test :: tests)

end

theorem applyCmp_downcast {T : Type} [LinearOrder T] {cells : List Cell} {op : CmpOp} {value : Scalar}
    {rhs : T} {read : Datum → Option T}
    (reads : ∀ datum, (read datum).map (fun left => op.holds left rhs) = datum.test op value) :
    applyCmp (cells.map fun cell => match cell with
      | .value (some datum) => read datum
      | _ => Option.none) op rhs = cells.map (Cell.test op value) := by
  unfold applyCmp
  rw [map_map]
  apply map_congr_left
  intro cell _
  cases cell with
  | value datum =>
    cases datum with
    | none => rfl
    | some datum => exact reads datum
  | nested leaves => rfl

theorem Column.compareAs_eq {T : Type} [LinearOrder T] (type : Option DataType) (cells : List Cell)
    (wanted : DataType) {op : CmpOp} {value : Scalar} {rhs : T} {read : Datum → Option T}
    (reads : ∀ datum, (read datum).map (fun left => op.holds left rhs) = datum.test op value)
    (expected : String) :
    Column.compareAs ⟨type, cells⟩ wanted read expected (fun arr => applyCmp arr op rhs) =
      ((Column.compareAs ⟨type, []⟩ wanted read expected fun arr => applyCmp arr op rhs).map
        fun _ => ()).map fun _ => cells.map (Cell.test op value) := by
  by_cases same : type = some wanted
  · simp only [Column.compareAs, Column.downcast, if_pos same]
    exact congrArg Except.ok (applyCmp_downcast reads)
  · simp only [Column.compareAs, Column.downcast, if_neg same]
    rfl

theorem evaluateCmpColumn_eq (type : Option DataType) (cells : List Cell) (op : CmpOp) (value : Scalar) :
    evaluateCmpColumn ⟨type, cells⟩ op value =
      (cmpError type op value).map fun _ => cells.map (Cell.test op value) := by
  cases value with
  | bool v | null => rfl
  | int32 v | int64 v | float32 v | float64 v =>
    exact Column.compareAs_eq type cells _ (fun datum => by cases datum <;> rfl) _
  | bytes v =>
    unfold cmpError
    by_cases same : type = some .utf8
    · by_cases text : validUtf8 v = true
      · simp only [evaluateCmpColumn, Column.downcast, if_pos same, if_pos text]
        exact congrArg Except.ok (applyCmp_downcast fun datum => by cases datum <;> rfl)
      · simp only [evaluateCmpColumn, Column.downcast, if_pos same, if_neg text]
        rfl
    · simp only [evaluateCmpColumn, Column.downcast, if_neg same]
      rfl

section

variable {schema : Schema} {rows : List Row} (combine : Bool → Bool → Bool)

theorem combineKernel_map (left right : RowTest) :
    combineKernel combine (rows.map left) (rows.map right) =
      .ok (rows.map fun row => Option.map₂ combine (left row) (right row)) := by
  unfold combineKernel
  rw [if_neg (by simp), zipWith_map, zipWith_self]

theorem combineAll_eq {preds : List Predicate}
    (members : ∀ pred ∈ preds, pred.evaluateBatch ⟨schema, rows⟩ =
      (pred.rowTest schema).map fun test => rows.map test) (result : RowTest) :
    combineAll combine preds ⟨schema, rows⟩ (rows.map result) =
      (rowTests preds schema).map fun tests => rows.map fun row =>
        tests.foldl (fun result test => Option.map₂ combine result (test row)) (result row) := by
  induction preds generalizing result with
  | nil => rfl
  | cons pred preds ih =>
    have here := members pred mem_cons_self
    have later := ih fun pred member => members pred (mem_cons_of_mem _ member)
    unfold combineAll rowTests
    rw [here]
    cases pred.rowTest schema with
    | error error => rfl
    | ok test =>
      show (do
        let result ← (combineKernel combine (rows.map result) (rows.map test)).mapError
          ColumnarError.arrow
        combineAll combine preds ⟨schema, rows⟩ result) = _
      rw [combineKernel_map]
      show combineAll combine preds ⟨schema, rows⟩ _ = _
      rw [later fun row => Option.map₂ combine (result row) (test row)]
      cases rowTests preds schema <;> rfl

theorem Predicate.evaluateBatch_eq (pred : Predicate) (schema : Schema) (rows : List Row) :
    pred.evaluateBatch ⟨schema, rows⟩ = (pred.rowTest schema).map fun test => rows.map test := by
  have every : ∀ truth : Option Bool, replicate (RecordBatch.mk schema rows).numRows truth =
      rows.map fun _ => truth := fun truth => (map_const' ..).symm
  induction pred with
  | cmp column op value =>
    unfold Predicate.evaluateBatch Predicate.rowTest
    cases found : schema.indexOf column with
    | none => rfl
    | some place =>
      simp only [RecordBatch.column]
      rw [evaluateCmpColumn_eq, map_map]
      cases cmpError (schema[place]?.bind Field.dataType) op value <;> rfl
  | and preds members | or preds members =>
    unfold Predicate.evaluateBatch Predicate.rowTest
    rw [every, combineAll_eq _ members]
    cases rowTests preds schema <;> rfl
  | not pred ih =>
    unfold Predicate.evaluateBatch Predicate.rowTest
    rw [ih]
    cases pred.rowTest schema with
    | error error => rfl
    | ok test =>
      show Except.ok (notKernel (rows.map test)) = .ok _
      unfold notKernel
      rw [map_map]
      rfl
  | all | none => exact congrArg Except.ok (every _)

end

/-! ### Conjunctions and disjunctions -/

section

variable {schema : Schema} {tests : List RowTest}

theorem mem_rowTests {preds : List Predicate} (tested : rowTests preds schema = .ok tests) :
    (∀ pred ∈ preds, ∃ test ∈ tests, pred.rowTest schema = .ok test) ∧
      ∀ test ∈ tests, ∃ pred ∈ preds, pred.rowTest schema = .ok test := by
  induction preds generalizing tests with
  | nil =>
    cases tested
    simp
  | cons pred preds ih =>
    unfold rowTests at tested
    obtain ⟨test, here, tested⟩ := bind_eq_ok.mp tested
    obtain ⟨rest, later, tested⟩ := bind_eq_ok.mp tested
    cases tested
    obtain ⟨forth, back⟩ := ih later
    simp only [forall_mem_cons, exists_mem_cons_iff]
    exact ⟨⟨Or.inl here, fun pred member => Or.inr (forth pred member)⟩,
      Or.inl here, fun test member => Or.inr (back test member)⟩

variable {left right : Option Bool}

theorem map₂_and_eq_true :
    Option.map₂ Bool.and left right = some true ↔ left = some true ∧ right = some true := by
  cases left with
  | none => simp
  | some left =>
    cases right with
    | none => simp
    | some right => cases left <;> cases right <;> simp

theorem map₂_or_eq_true : Option.map₂ Bool.or left right = some true ↔
    (left ≠ none ∧ right ≠ none) ∧ (left = some true ∨ right = some true) := by
  cases left with
  | none => simp
  | some left =>
    cases right with
    | none => simp
    | some right => cases left <;> cases right <;> simp

theorem map₂_or_ne_none :
    Option.map₂ Bool.or left right ≠ none ↔ left ≠ none ∧ right ≠ none := by
  cases left <;> cases right <;> simp

theorem foldl_and_eq_true {row : Row} {start : Option Bool} :
    tests.foldl (fun result test => Option.map₂ Bool.and result (test row)) start = some true ↔
      start = some true ∧ ∀ test ∈ tests, test row = some true := by
  induction tests generalizing start with
  | nil => simp
  | cons test tests ih =>
    rw [foldl_cons, ih, map₂_and_eq_true, forall_mem_cons, and_assoc]

theorem foldl_or_eq_true {row : Row} {start : Option Bool} :
    tests.foldl (fun result test => Option.map₂ Bool.or result (test row)) start = some true ↔
      (start ≠ none ∧ ∀ test ∈ tests, test row ≠ none) ∧
        (start = some true ∨ ∃ test ∈ tests, test row = some true) := by
  induction tests generalizing start with
  | nil =>
    refine ⟨fun passes => ⟨⟨by simp_all, by simp⟩, Or.inl passes⟩, ?_⟩
    rintro ⟨_, passes | ⟨test, member, _⟩⟩
    · exact passes
    · cases member
  | cons test tests ih =>
    rw [foldl_cons, ih, map₂_or_eq_true, map₂_or_ne_none, forall_mem_cons,
      exists_mem_cons_iff]
    tauto

end

/-! ### Filtering a table -/

section

variable {schema : Schema} {predicate : Predicate} {batches : List RecordBatch}

theorem rows_filterRecordBatch (batch : RecordBatch) (test : RowTest) :
    (filterRecordBatch batch (batch.rows.map test)).rows =
      batch.rows.filter fun row => test row = some true := by
  show ((batch.rows.zip (batch.rows.map test)).filterMap _) = _
  induction batch.rows with
  | nil => rfl
  | cons row rows ih =>
    by_cases passes : test row = some true
    all_goals simp [passes, ih]

theorem filterBatches_ok {tests : Schema → RowTest}
    (tested : ∀ batch ∈ batches, predicate.rowTest batch.schema = .ok (tests batch.schema)) :
    ∃ filtered, filterBatches predicate batches = .ok filtered ∧ filtered.flatMap RecordBatch.rows =
      batches.flatMap fun batch => batch.rows.filter fun row => tests batch.schema row = some true := by
  induction batches with
  | nil => exact ⟨[], rfl, rfl⟩
  | cons batch batches ih =>
    obtain ⟨filtered, filters, rows⟩ := ih fun batch member =>
      tested batch (mem_cons_of_mem _ member)
    have evaluates : predicate.evaluateBatch batch = .ok (batch.rows.map (tests batch.schema)) := by
      rw [show batch = ⟨batch.schema, batch.rows⟩ from rfl, Predicate.evaluateBatch_eq,
        tested batch mem_cons_self]
      rfl
    have kept := rows_filterRecordBatch batch (tests batch.schema)
    unfold filterBatches
    rw [evaluates, filters]
    refine ⟨_, rfl, ?_⟩
    rw [flatMap_cons, ← kept, ← rows]
    split_ifs with some'
    · rfl
    · have empty : (filterRecordBatch batch (batch.rows.map (tests batch.schema))).rows = [] :=
        length_eq_zero_iff.mp (Nat.eq_zero_of_not_pos some')
      rw [empty, nil_append]

theorem filterBatches_uniform {test : RowTest} (tested : predicate.rowTest schema = .ok test)
    (uniform : ∀ batch ∈ batches, batch.schema = schema) :
    ∃ filtered, filterBatches predicate batches = .ok filtered ∧
      filtered.flatMap RecordBatch.rows =
        (batches.flatMap RecordBatch.rows).filter fun row => test row = some true := by
  have found : ∀ batch ∈ batches, predicate.rowTest batch.schema = .ok test := fun batch member => by
    rw [uniform batch member, tested]
  obtain ⟨filtered, filters, rows⟩ := @filterBatches_ok _ _ (fun _ => test) found
  exact ⟨filtered, filters, rows.trans filter_flatMap.symm⟩

theorem rowTest_of_filterBatches {filtered : List RecordBatch}
    (filters : filterBatches predicate batches = .ok filtered) :
    ∀ batch ∈ batches, ∃ test, predicate.rowTest batch.schema = .ok test := by
  induction batches generalizing filtered with
  | nil => simp
  | cons batch batches ih =>
    unfold filterBatches at filters
    obtain ⟨mask, evaluates, filters⟩ := bind_eq_ok.mp filters
    obtain ⟨rest, filters, _⟩ := bind_eq_ok.mp filters
    rw [show batch = ⟨batch.schema, batch.rows⟩ from rfl, Predicate.evaluateBatch_eq] at evaluates
    obtain ⟨test, tested, _⟩ := map_eq_ok.mp evaluates
    exact forall_mem_cons.mpr ⟨⟨test, tested⟩, ih filters⟩

end

/-! ### Values between the bounds -/

section

variable {T : Type} [LinearOrder T]

theorem applyOrdOp_of_holds {op : CmpOp} {min max value v : T} {nullCount : Option ℕ}
    (above : min ≤ value) (below : value ≤ max) (holds : op.holds value v = true) :
    applyOrdOp op min max v nullCount = true := by
  cases op with
  | eq =>
    obtain rfl : value = v := by simpa [CmpOp.holds] using holds
    simp [applyOrdOp, above, below]
  | ne =>
    have differs : value ≠ v := by simpa [CmpOp.holds] using holds
    have apart : ¬ (min = v ∧ max = v) := by
      rintro ⟨rfl, rfl⟩
      exact differs (le_antisymm below above)
    simp only [applyOrdOp, Bool.not_eq_true', Bool.and_eq_false_iff]
    left
    by_contra same
    apply apart
    simpa using same
  | lt =>
    have less : value < v := by simpa [CmpOp.holds] using holds
    simpa [applyOrdOp] using lt_of_le_of_lt above less
  | le =>
    have less : value ≤ v := by simpa [CmpOp.holds] using holds
    simpa [applyOrdOp] using le_trans above less
  | gt =>
    have more : v < value := by simpa [CmpOp.holds] using holds
    simpa [applyOrdOp] using lt_of_lt_of_le more below
  | ge =>
    have more : v ≤ value := by simpa [CmpOp.holds] using holds
    simpa [applyOrdOp] using le_trans more below

omit [LinearOrder T] in
theorem ValueStatistics.judge_eq_true {s : ValueStatistics T} {verdict : T → T → Bool}
    (keeps : ∀ min max, s.minOpt = some min → s.maxOpt = some max → verdict min max = true) :
    s.judge verdict = true := by
  unfold ValueStatistics.judge
  split
  · rename_i min max low high
    exact keeps min max low high
  · rfl

theorem ValueStatistics.judge_of_holds {s : ValueStatistics T} {op : CmpOp} {value v : T}
    (bounds : s.Bounds value) (holds : op.holds value v = true) :
    (s.judge fun min max => applyOrdOp op min max v s.nullCountOpt) = true :=
  ValueStatistics.judge_eq_true fun min max low high =>
    applyOrdOp_of_holds (bounds.1 min low) (bounds.2 max high) holds

end

end OxiStore.Columnar
