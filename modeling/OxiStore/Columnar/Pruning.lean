/-
**Row-group pruning.**
-/

import OxiStore.Columnar.Predicate

namespace OxiStore.Columnar

open ByteString Results List

variable {schema : Schema}

def readWithPredicateFromBytes (parquet : Parquet) (data : Bytes) (pred : Predicate) :
    Except ColumnarError ColumnarTable := do
  let file ← (parquet.tryNew data).mapError .parquet
  let surviving := file.rowGroups.filter fun group => pred.rowGroupMightMatch group
  .ok (parquet.collect file surviving)

/-! ### One comparison -/

/-- **Comparisons on a column prune soundly**: in no row group that is pruned, of valid statistics, is
there a row that the comparison is true of. -/
def PrunesSoundly (schema : Schema) (column : String) : Prop :=
  ∀ (op : CmpOp) (value : Scalar) (group : RowGroup schema),
    (Predicate.cmp column op value).rowGroupMightMatch group = false →
      ∀ mask, (Predicate.cmp column op value).evaluateBatch ⟨schema, group.rows⟩ = .ok mask →
        some true ∉ mask

def DataType.comparable : DataType → Bool
  | .int32 | .int64 | .float32 | .float64 | .utf8 => true
  | .boolean | .other _ => false

def DataType.isFloat : DataType → Bool
  | .float32 | .float64 => true
  | _ => false

def Schema.ReadsOwn (schema : Schema) (column : String) (place : ℕ) (type : DataType) : Prop :=
  type.comparable = true → ∀ first leaf, schema.leafIndexOf column = some first →
    schema.columns[first]? = some leaf → leaf.type.physical = type.physical →
      first = schema.leavesBefore place ∧ type.isFloat = false

variable {mask : BooleanArray}

theorem Column.type_of_compareAs {T : Type} {col : Column} {wanted : DataType} {read : Datum → Option T}
    {expected : String} {compare : List (Option T) → BooleanArray}
    (succeeds : col.compareAs wanted read expected compare = .ok mask) : col.type = some wanted := by
  by_contra differs
  simp only [Column.compareAs, Column.downcast, if_neg differs] at succeeds
  cases succeeds

variable {value : Scalar} {op : CmpOp}

theorem columnType_of_evaluateCmpColumn {col : Column}
    (succeeds : evaluateCmpColumn col op value = .ok mask) :
    ∃ type, col.type = some type ∧ value.columnType = some type := by
  cases value with
  | bool v | null => cases succeeds
  | int32 v | int64 v | float32 v | float64 v => exact ⟨_, Column.type_of_compareAs succeeds, rfl⟩
  | bytes v =>
    refine ⟨.utf8, ?_, rfl⟩
    by_contra differs
    simp only [evaluateCmpColumn, Column.downcast, if_neg differs] at succeeds
    cases succeeds

variable {type : DataType}

theorem comparable_of_columnType (compares : value.columnType = some type) :
    type.comparable = true := by
  cases value <;> cases compares <;> rfl

theorem Row.value_of_test_cell {row : Row} {place : ℕ} {truth : Bool}
    (tests : (row.cell place).test op value = some truth) :
    ∃ datum, row[place]? = some (.value (some datum)) ∧ datum.test op value = some truth := by
  unfold Row.cell at tests
  rw [getD_eq_getElem?_getD] at tests
  cases here : row[place]? with
  | none =>
    rw [here] at tests
    cases tests
  | some cell =>
    rw [here] at tests
    cases cell with
    | nested leaves => cases tests
    | value datum =>
      cases datum with
      | none => cases tests
      | some datum => exact ⟨datum, rfl, tests⟩

variable {column : String}

theorem exists_test_of_mask {rows : List Row}
    (evaluates : (Predicate.cmp column op value).evaluateBatch ⟨schema, rows⟩ = .ok mask)
    (passes : some true ∈ mask) :
    ∃ place type, schema.indexOf column = some place ∧ schema[place]?.bind Field.dataType = some type ∧
      value.columnType = some type ∧
      ∃ row ∈ rows, ∃ datum, row[place]? = some (.value (some datum)) ∧
        datum.test op value = some true := by
  unfold Predicate.evaluateBatch at evaluates
  cases found : schema.indexOf column with
  | none =>
    simp only [found] at evaluates
    cases evaluates
  | some place =>
    simp only [found] at evaluates
    obtain ⟨type, typed, compares⟩ := columnType_of_evaluateCmpColumn evaluates
    refine ⟨place, type, rfl, typed, compares, ?_⟩
    simp only [RecordBatch.column] at evaluates
    rw [evaluateCmpColumn_eq, map_map] at evaluates
    obtain ⟨_, _, rfl⟩ := map_eq_ok.mp evaluates
    obtain ⟨row, member, tests⟩ := mem_map.mp passes
    exact ⟨row, member, Row.value_of_test_cell tests⟩

theorem cmpMightMatch_eq_false {group : RowGroup schema}
    (pruned : cmpMightMatch group column op value = false) :
    ∃ first stats, schema.leafIndexOf column = some first ∧ group.chunks[first]? = some (some stats) ∧
      evaluateCmp stats op value = false := by
  unfold cmpMightMatch at pruned
  split_ifs at pruned with null
  split at pruned
  · cases pruned
  · rename_i first found
    split_ifs at pruned with short
    split at pruned
    · rename_i stats here
      exact ⟨first, stats, found, here, pruned⟩
    · cases pruned

theorem evaluateCmp_of_test {stats : Statistics} {datum : Datum} (compares : value.columnType = some type)
    (exact' : type.isFloat = false) (bounds : stats.Bounds datum) (tests : datum.test op value = some true) :
    
    evaluateCmp stats op value = true := by
  cases value with
  | bool v | null => cases compares
  | float32 v | float64 v =>
    cases compares
    cases exact'
  | int32 v | int64 v | bytes v =>
    cases datum <;> cases stats <;> first | rfl | cases tests | skip
    exact ValueStatistics.judge_of_holds bounds (Option.some.inj tests)

theorem evaluateCmp_of_physical_ne {stats : Statistics} (compares : value.columnType = some type)
    (differs : stats.physical ≠ type.physical) :
    evaluateCmp stats op value = true := by
  cases value <;> cases compares <;> cases stats <;> first | rfl | exact absurd rfl differs

theorem exists_leaf_of_leafIndexOf {first : ℕ} (found : schema.leafIndexOf column = some first) :
    ∃ leaf, schema.columns[first]? = some leaf := by
  obtain ⟨inside, _⟩ := findIdx?_eq_some_iff_getElem.mp found
  exact ⟨_, getElem?_eq_getElem inside⟩

theorem prunesSoundly_of_readsOwn {name : String} {place : ℕ} {nullable : Bool} (top : schema.indexOf column = some place)
    (primitive : schema[place]? = some (.leaf name type nullable))
    (own : schema.ReadsOwn column place type) : PrunesSoundly schema column := by
  intro op value group pruned mask evaluates passes
  obtain ⟨first, stats, found, here, excludes⟩ := cmpMightMatch_eq_false pruned
  obtain ⟨leaf, leafHere⟩ := exists_leaf_of_leafIndexOf found
  obtain ⟨place', type', top', typed, compares, row, member, datum, value', tests⟩ :=
    exists_test_of_mask evaluates passes
  obtain rfl : place = place' := Option.some.inj (top.symm.trans top')
  rw [primitive] at typed
  obtain rfl : type = type' := Option.some.inj typed
  have physical := group.typed first stats leaf here leafHere
  by_cases same : leaf.type.physical = type.physical
  · obtain ⟨rfl, exact'⟩ := own (comparable_of_columnType compares) first leaf found leafHere same
    have held := (group.conforms row member).leafValues_own value'
    have bounds := group.bounded _ stats here row member _ held datum (mem_singleton.mpr rfl)
    simp [evaluateCmp_of_test compares exact' bounds tests] at excludes
  · simp [evaluateCmp_of_physical_ne compares (physical ▸ same)] at excludes

theorem prunesSoundly_of_missing (missing : schema.indexOf column = none) :
    PrunesSoundly schema column := by
  intro op value group _ mask evaluates passes
  obtain ⟨place, _, top, _⟩ := exists_test_of_mask evaluates passes
  simp [missing] at top

/-! ### Whole predicates -/

theorem Predicate.no_match_of_pruned {pred : Predicate}
    (sound : ∀ column ∈ pred.columns, PrunesSoundly schema column) {group : RowGroup schema}
    (pruned : pred.rowGroupMightMatch group = false) {test : RowTest}
    (tested : pred.rowTest schema = .ok test) : ∀ row ∈ group.rows, test row ≠ some true := by
  induction pred generalizing test with
  | cmp column op value =>
    intro row member passes
    refine sound column (mem_singleton.mpr rfl) op value group pruned (group.rows.map test) ?_ ?_
    · rw [Predicate.evaluateBatch_eq, tested]
      rfl
    · exact passes ▸ mem_map_of_mem member
  | and preds ih =>
    intro row member passes
    -- one member excludes the group, and a row that passes passes that member
    obtain ⟨pred, inside, excludes⟩ := allMightMatch_eq_false.mp pruned
    unfold Predicate.rowTest at tested
    obtain ⟨tests, all, same⟩ := bind_eq_ok.mp tested
    cases same
    obtain ⟨test, listed, own⟩ := (mem_rowTests all).1 pred inside
    exact ih pred inside (fun column compared => sound column (mem_columnsOf inside compared))
      excludes own row member ((foldl_and_eq_true.mp passes).2 test listed)
  | or preds ih =>
    intro row member passes
    have excludes := anyMightMatch_eq_false.mp pruned
    unfold Predicate.rowTest at tested
    obtain ⟨tests, all, same⟩ := bind_eq_ok.mp tested
    cases same
    rcases (foldl_or_eq_true.mp passes).2 with start | ⟨test, listed, passes'⟩
    · cases start
    · obtain ⟨pred, inside, own⟩ := (mem_rowTests all).2 test listed
      exact ih pred inside (fun column compared => sound column (mem_columnsOf inside compared))
        (excludes pred inside) own row member passes'
  | not pred ih | all => cases pruned
  | none =>
    intro row member passes
    cases tested
    cases passes

theorem filter_flatMap_surviving {pred : Predicate}
    (sound : ∀ column ∈ pred.columns, PrunesSoundly schema column) {test : RowTest}
    (tested : pred.rowTest schema = .ok test) (groups : List (RowGroup schema)) :
    ((groups.filter fun group => pred.rowGroupMightMatch group).flatMap RowGroup.rows).filter
        (fun row => test row = some true) =
      (groups.flatMap RowGroup.rows).filter fun row => test row = some true := by
  induction groups with
  | nil => rfl
  | cons group groups ih =>
    rw [flatMap_cons, filter_append]
    cases might : pred.rowGroupMightMatch group with
    | true => rw [filter_cons_of_pos might, flatMap_cons, filter_append, ih]
    | false =>
      have nothing : group.rows.filter (fun row => test row = some true) = [] := by
        rw [filter_eq_nil_iff]
        intro row member
        simpa using Predicate.no_match_of_pruned sound might tested row member
      rw [filter_cons_of_neg (by simp [might]), nothing, nil_append, ih]

/-! ### Flat schemas -/

namespace Schema.Flat

variable (flat : schema.Flat)

include flat

theorem names_columns : schema.columns.map Leaf.name = schema.map Field.name := by
  unfold Schema.columns
  induction schema with
  | nil => rfl
  | cons field schema ih =>
    obtain ⟨name, type, nullable, rfl⟩ := flat field mem_cons_self
    rw [leavesOf, map_append, ih fun field member => flat field (mem_cons_of_mem _ member)]
    rfl

theorem take (count : ℕ) : Schema.Flat (schema.take count) :=
  fun field member => flat field (mem_of_mem_take member)

theorem leafIndexOf_eq (column : String) : schema.leafIndexOf column = schema.indexOf column := by
  have leaves : schema.leafIndexOf column = (schema.columns.map Leaf.name).findIdx? (· == column) := by
    rw [findIdx?_map]
    rfl
  have fields : schema.indexOf column = (schema.map Field.name).findIdx? (· == column) := by
    rw [findIdx?_map]
    rfl
  rw [leaves, fields, flat.names_columns]

theorem leavesBefore_eq {place : ℕ} (inside : place ≤ schema.length) :
    schema.leavesBefore place = place := by
  have count := congrArg length (flat.take place).names_columns
  rw [length_map, length_map, length_take, min_eq_left inside] at count
  exact count

theorem readsOwn {column : String} {place : ℕ} (top : schema.indexOf column = some place)
    {type : DataType} (exact' : type.isFloat = false) : schema.ReadsOwn column place type := by
  intro _ first leaf found _ _
  rw [flat.leafIndexOf_eq, top] at found
  obtain rfl : place = first := Option.some.inj found
  obtain ⟨inside, _⟩ := findIdx?_eq_some_iff_getElem.mp top
  exact ⟨(flat.leavesBefore_eq inside.le).symm, exact'⟩

end Schema.Flat

def Schema.typeOf (schema : Schema) (column : String) : Option DataType :=
  (schema.indexOf column).bind fun place => schema[place]?.bind Field.dataType

def Predicate.OverIntegersAndText (pred : Predicate) (schema : Schema) : Prop :=
  ∀ column ∈ pred.columns, ∀ type, schema.typeOf column = some type →
    type = .int32 ∨ type = .int64 ∨ type = .utf8

theorem Schema.Flat.prunesSoundly (flat : schema.Flat)
    (exact' : ∀ type, schema.typeOf column = some type → type.isFloat = false) :
    PrunesSoundly schema column := by
  cases top : schema.indexOf column with
  | none => exact prunesSoundly_of_missing top
  | some place =>
    obtain ⟨inside, _⟩ := findIdx?_eq_some_iff_getElem.mp top
    obtain ⟨name, type, nullable, leaf⟩ := flat _ (getElem_mem inside)
    have primitive : schema[place]? = some (.leaf name type nullable) := by
      rw [getElem?_eq_getElem inside, leaf]
    refine prunesSoundly_of_readsOwn top primitive (flat.readsOwn top (exact' type ?_))
    unfold Schema.typeOf
    rw [top, Option.bind_some, primitive]
    rfl

/-! ### Reading with a predicate -/

section

variable {parquet : Parquet} (inOrder : parquet.InOrder) (file : ParquetFile) {pred : Predicate}

include inOrder

theorem filter_collect {test : RowTest} (tested : pred.rowTest file.schema = .ok test)
    (groups : List (RowGroup file.schema)) :
    ∃ filtered, (parquet.collect file groups).filter pred = .ok filtered ∧
      filtered.rows = (groups.flatMap RowGroup.rows).filter fun row => test row = some true := by
  have uniform : ∀ batch ∈ (parquet.collect file groups).batches, batch.schema = file.schema := by
    intro batch member
    obtain ⟨rows, _, rfl⟩ := mem_map.mp member
    rfl
  obtain ⟨batches, filters, rows⟩ := filterBatches_uniform tested uniform
  refine ⟨{ parquet.collect file groups with batches := batches }, ?_, ?_⟩
  · unfold ColumnarTable.filter
    rw [filters]
    rfl
  · rw [← inOrder.rows_collect file groups]
    exact rows

variable {groups : List (RowGroup file.schema)}

theorem filter_collect_nothing (nothing : groups.flatMap RowGroup.rows = []) :
    (parquet.collect file groups).filter pred = .ok (parquet.collect file groups) := by
  have empty := inOrder.batches_collect file nothing
  unfold ColumnarTable.filter
  rw [empty]
  show Except.ok { parquet.collect file groups with batches := [] } = _
  rw [← empty]

theorem rowTest_of_filter_collect (some' : groups.flatMap RowGroup.rows ≠ []) {filtered : ColumnarTable}
    (filters : (parquet.collect file groups).filter pred = .ok filtered) :
    ∃ test, pred.rowTest file.schema = .ok test := by
  unfold ColumnarTable.filter at filters
  cases cut : parquet.cut (groups.flatMap RowGroup.rows) with
  | nil =>
    have whole := inOrder.flatten_cut (groups.flatMap RowGroup.rows)
    rw [cut] at whole
    exact absurd whole.symm some'
  | cons first rest =>
    have batches : (parquet.collect file groups).batches =
        ⟨file.schema, first⟩ :: rest.map (RecordBatch.mk file.schema) := by
      unfold Parquet.collect
      rw [cut]
      rfl
    rw [batches] at filters
    obtain ⟨_, succeeds, _⟩ := bind_eq_ok.mp filters
    exact rowTest_of_filterBatches succeeds _ mem_cons_self

end

/-- **Predicate pushdown is lossless over flat schemas**: if the whole table can be filtered, so can the
one that was read with the predicate, to the same rows in the same order. -/
theorem pushdown_lossless {parquet : Parquet} (inOrder : parquet.InOrder) {data : Bytes}
    {file : ParquetFile} (parsed : parquet.tryNew data = .ok file) (flat : file.schema.Flat)
    {pred : Predicate} (compares : pred.OverIntegersAndText file.schema) {full filtered : ColumnarTable}
    (reads : readBatchesFromBytes parquet data = .ok full) (filters : full.filter pred = .ok filtered) :
    ∃ pruned filtered', readWithPredicateFromBytes parquet data pred = .ok pruned ∧
      pruned.filter pred = .ok filtered' ∧ filtered'.rows = filtered.rows := by
  have sound : ∀ column ∈ pred.columns, PrunesSoundly file.schema column := by
    intro column compared
    refine flat.prunesSoundly fun type typed => ?_
    rcases compares column compared type typed with rfl | rfl | rfl <;> rfl
  unfold readBatchesFromBytes at reads
  unfold readWithPredicateFromBytes
  rw [parsed] at reads ⊢
  obtain rfl : parquet.collect file file.rowGroups = full := Except.ok.inj reads
  by_cases nothing : file.rowGroups.flatMap RowGroup.rows = []
  · -- no rows: the filter cannot fail, on either side
    have nothing' : (file.rowGroups.filter fun group => pred.rowGroupMightMatch group).flatMap
        RowGroup.rows = [] := by
      rw [flatMap_eq_nil_iff] at nothing ⊢
      exact fun group member => nothing group (mem_of_mem_filter member)
    rw [filter_collect_nothing inOrder file nothing] at filters
    refine ⟨_, _, rfl, filter_collect_nothing inOrder file nothing', ?_⟩
    rw [← Except.ok.inj filters, inOrder.rows_collect, inOrder.rows_collect, nothing, nothing']
  · obtain ⟨test, tested⟩ := rowTest_of_filter_collect inOrder file nothing filters
    obtain ⟨filtered₁, filters₁, rows₁⟩ := filter_collect inOrder file tested file.rowGroups
    obtain ⟨filtered₂, filters₂, rows₂⟩ := filter_collect inOrder file tested
      (file.rowGroups.filter fun group => pred.rowGroupMightMatch group)
    obtain rfl : filtered₁ = filtered := Except.ok.inj (filters₁.symm.trans filters)
    refine ⟨_, filtered₂, rfl, filters₂, ?_⟩
    rw [rows₁, rows₂, filter_flatMap_surviving sound tested]

def exampleGroup (value : Int32) : RowGroup [.leaf "id" .int32] where
  rows := [[.value (some (.int32 value))], [.value none]]
  chunks := [some (.int32 ⟨some value, some value, some 1⟩)]
  conforms row member := by
    have fits : ∀ datum : Option Datum, (∀ inner ∈ datum, inner.physical = .int32) →
        Row.Conforms [.value datum] [.leaf "id" .int32] := by
      intro datum physical
      refine .cons ⟨fun inner inside => ⟨physical inner ?_, fun text => by cases text⟩, fun _ => rfl⟩ .nil
      simpa [eq_comm] using inside
    rcases List.mem_pair.mp member with rfl | rfl
    · exact fits _ (by simp [Datum.physical])
    · exact fits _ (by simp)
  typed place stats leaf here leafHere := by
    cases place with
    | zero =>
        cases here
        cases leafHere
        rfl
    | succ place => simp at here
  bounded place stats here row member values held datum inside := by
    cases place with
    | zero =>
        cases here
        rcases List.mem_pair.mp member with rfl | rfl
        · cases held
          obtain rfl : datum = .int32 value := by simpa using inside
          exact ⟨by simp, by simp⟩
        · cases held
          simp at inside
    | succ place => simp at here

def exampleFile : ParquetFile := ⟨_, [exampleGroup 1, exampleGroup 9]⟩

theorem pushdown_lossless_example :
    (exampleFile.rowGroups.filter fun group =>
        (Predicate.cmp "id" .gt (.int32 5)).rowGroupMightMatch group).length = 1 ∧
      ∃ pruned filtered, readWithPredicateFromBytes (.single exampleFile) [] (.cmp "id" .gt (.int32 5)) =
          .ok pruned ∧ pruned.filter (.cmp "id" .gt (.int32 5)) = .ok filtered ∧
        filtered.rows = [[.value (some (.int32 9))]] := by
  refine ⟨by decide +kernel, ?_⟩
  have flat : exampleFile.schema.Flat := by
    intro field member
    exact ⟨_, _, _, mem_singleton.mp member⟩
  have compares : (Predicate.cmp "id" .gt (.int32 5)).OverIntegersAndText exampleFile.schema := by
    intro column compared type typed
    obtain rfl := mem_singleton.mp compared
    left
    exact (Option.some.inj typed).symm
  have filters : ((Parquet.single exampleFile).collect exampleFile exampleFile.rowGroups).filter
      (.cmp "id" .gt (.int32 5)) =
        .ok ⟨exampleFile.schema, [⟨exampleFile.schema, [[.value (some (.int32 9))]]⟩], .none⟩ := rfl
  exact pushdown_lossless (Parquet.inOrder_single exampleFile) rfl flat compares rfl filters

end OxiStore.Columnar
