/-
**Filtering by a disjunction.**
-/

import OxiStore.Columnar.Predicate

namespace OxiStore.Columnar

open Results List

/-! ### What a filter keeps -/

def Predicate.value (pred : Predicate) (schema : Schema) (row : Row) : Option Bool :=
  match pred.evaluateBatch ⟨schema, [row]⟩ with
  | .ok [truth] => truth
  | _ => Option.none

def Predicate.keeps (pred : Predicate) (schema : Schema) (row : Row) : Bool :=
  pred.value schema row = some true

def ColumnarTable.rowsWhere (table : ColumnarTable) (chosen : Schema → Row → Bool) : List Row :=
  table.batches.flatMap fun batch => batch.rows.filter (chosen batch.schema)

def OrKeepsAny (table : ColumnarTable) (preds : List Predicate) : Prop :=
  ∃ kept, table.filter (.or preds) = .ok kept ∧
    kept.rows = table.rowsWhere fun schema row => preds.any fun pred => pred.keeps schema row

def AndKeepsCommon (table : ColumnarTable) (preds : List Predicate) : Prop :=
  ∃ kept, table.filter (.and preds) = .ok kept ∧
    kept.rows = table.rowsWhere fun schema row => preds.all fun pred => pred.keeps schema row

def FiltersSucceed (table : ColumnarTable) (preds : List Predicate) : Prop :=
  ∀ pred ∈ preds, ∃ kept, table.filter pred = .ok kept

def NoNullBesideTrue (table : ColumnarTable) (preds : List Predicate) : Prop :=
  ∀ batch ∈ table.batches, ∀ row ∈ batch.rows, (∃ pred ∈ preds, pred.value batch.schema row = some true) →
    ∀ pred ∈ preds, pred.value batch.schema row ≠ none

section

variable {pred : Predicate} {schema : Schema} {table : ColumnarTable}

theorem Predicate.value_eq {test : RowTest} (tested : pred.rowTest schema = .ok test) :
    pred.value schema = test := by
  funext row
  unfold Predicate.value
  rw [Predicate.evaluateBatch_eq, tested]
  rfl

theorem Predicate.rowTest_value (tested : ∃ test, pred.rowTest schema = .ok test) :
    pred.rowTest schema = .ok (pred.value schema) := by
  obtain ⟨test, tested⟩ := tested
  rw [tested, Predicate.value_eq tested]

theorem rowTest_of_filter {kept : ColumnarTable} (filters : table.filter pred = .ok kept) :
    ∀ batch ∈ table.batches, pred.rowTest batch.schema = .ok (pred.value batch.schema) := by
  intro batch member
  unfold ColumnarTable.filter at filters
  obtain ⟨filtered, loop, _⟩ := bind_eq_ok.mp filters
  exact Predicate.rowTest_value (rowTest_of_filterBatches loop batch member)

theorem filter_of_rowTest
    (tested : ∀ batch ∈ table.batches, pred.rowTest batch.schema = .ok (pred.value batch.schema)) :
    ∃ kept, table.filter pred = .ok kept ∧ kept.rows = table.rowsWhere pred.keeps := by
  obtain ⟨filtered, loop, rows⟩ := filterBatches_ok tested
  refine ⟨{ table with batches := filtered }, ?_, rows⟩
  unfold ColumnarTable.filter
  rw [loop]
  rfl

end

/-! ### Members and their combination -/

section

variable {preds : List Predicate} {schema : Schema}

theorem rowTests_of_members
    (members : ∀ pred ∈ preds, pred.rowTest schema = .ok (pred.value schema)) :
    rowTests preds schema = .ok (preds.map fun pred => pred.value schema) := by
  induction preds with
  | nil => rfl
  | cons pred preds ih =>
    have later := ih fun pred member => members pred (mem_cons_of_mem _ member)
    unfold rowTests
    rw [members pred mem_cons_self, later]
    rfl

variable (members : ∀ pred ∈ preds, pred.rowTest schema = .ok (pred.value schema))
include members

theorem rowTest_and :
    (Predicate.and preds).rowTest schema = .ok ((Predicate.and preds).value schema) := by
  apply Predicate.rowTest_value
  unfold Predicate.rowTest
  rw [rowTests_of_members members]
  exact ⟨_, rfl⟩

theorem rowTest_or :
    (Predicate.or preds).rowTest schema = .ok ((Predicate.or preds).value schema) := by
  apply Predicate.rowTest_value
  unfold Predicate.rowTest
  rw [rowTests_of_members members]
  exact ⟨_, rfl⟩

theorem value_and_eq_true {row : Row} :
    (Predicate.and preds).value schema row = some true ↔
      ∀ pred ∈ preds, pred.value schema row = some true := by
  have tested := rowTest_and members
  unfold Predicate.rowTest at tested
  rw [rowTests_of_members members] at tested
  rw [← Except.ok.inj tested, foldl_and_eq_true]
  simp

theorem value_or_eq_true {row : Row} :
    (Predicate.or preds).value schema row = some true ↔
      (∀ pred ∈ preds, pred.value schema row ≠ none) ∧ ∃ pred ∈ preds, pred.value schema row = some true := by
  have tested := rowTest_or members
  unfold Predicate.rowTest at tested
  rw [rowTests_of_members members] at tested
  rw [← Except.ok.inj tested, foldl_or_eq_true]
  simp

end

/-! ### The laws of `And` and `Or` -/

theorem flatMap_sublist_eq {α β : Type} {items : List α} {fewer more : α → List β}
    (within : ∀ item ∈ items, (fewer item).Sublist (more item))
    (same : items.flatMap fewer = items.flatMap more) : ∀ item ∈ items, fewer item = more item := by
  induction items with
  | nil => simp
  | cons item items ih =>
    have here := within item mem_cons_self
    have later := fun item member => within item (mem_cons_of_mem _ member)
    have rest : (items.flatMap fewer).length ≤ (items.flatMap more).length := by
      rw [length_flatMap, length_flatMap]
      exact sum_le_sum fun item member => (later item member).length_le
    have lengths := congrArg length same
    simp only [flatMap_cons, length_append] at lengths
    have first : fewer item = more item :=
      here.eq_of_length (by have := here.length_le; omega)
    rw [flatMap_cons, flatMap_cons, first] at same
    exact forall_mem_cons.mpr ⟨first, ih later (append_cancel_left same)⟩

section

variable {table : ColumnarTable} {preds : List Predicate}

theorem rowsWhere_eq_iff {strict loose : Schema → Row → Bool}
    (stricter : ∀ batch ∈ table.batches, ∀ row ∈ batch.rows,
      strict batch.schema row = true → loose batch.schema row = true) :
    table.rowsWhere strict = table.rowsWhere loose ↔
      ∀ batch ∈ table.batches, ∀ row ∈ batch.rows, loose batch.schema row = true →
        strict batch.schema row = true := by
  have fewer : ∀ batch ∈ table.batches, (batch.rows.filter (strict batch.schema)).Sublist
      (batch.rows.filter (loose batch.schema)) := by
    intro batch member
    have narrowed : batch.rows.filter (strict batch.schema) =
        (batch.rows.filter (loose batch.schema)).filter (strict batch.schema) := by
      rw [filter_filter]
      refine filter_congr fun row inside => ?_
      have implied := stricter batch member row inside
      cases kept : strict batch.schema row with
      | false => rfl
      | true => rw [implied kept, Bool.and_self]
    rw [narrowed]
    exact filter_sublist
  constructor
  · intro same batch member row inside loosely
    have equal : batch.rows.filter (strict batch.schema) = batch.rows.filter (loose batch.schema) :=
      flatMap_sublist_eq fewer same batch member
    have kept : row ∈ batch.rows.filter (strict batch.schema) := by
      rw [equal]
      exact mem_filter.mpr ⟨inside, loosely⟩
    exact (mem_filter.mp kept).2
  · intro back
    refine flatMap_congr fun batch member => filter_congr fun row inside => ?_
    exact Bool.eq_iff_iff.mpr ⟨stricter batch member row inside, back batch member row inside⟩

variable (succeed : FiltersSucceed table preds)
include succeed

theorem rowTest_of_succeed {batch : RecordBatch} (member : batch ∈ table.batches) :
    ∀ pred ∈ preds, pred.rowTest batch.schema = .ok (pred.value batch.schema) := by
  intro pred listed
  obtain ⟨kept, filters⟩ := succeed pred listed
  exact rowTest_of_filter filters batch member

theorem andKeepsCommon : AndKeepsCommon table preds := by
  have members := fun batch (member : batch ∈ table.batches) => rowTest_of_succeed succeed member
  obtain ⟨kept, filters, rows⟩ :=
    filter_of_rowTest fun batch member => rowTest_and (members batch member)
  refine ⟨kept, filters, rows.trans ?_⟩
  refine flatMap_congr fun batch member => filter_congr fun row _ => ?_
  rw [Bool.eq_iff_iff, all_eq_true]
  simp only [Predicate.keeps, decide_eq_true_iff, value_and_eq_true (members batch member)]

theorem orKeepsAny_iff : OrKeepsAny table preds ↔ NoNullBesideTrue table preds := by
  have members := fun batch (member : batch ∈ table.batches) => rowTest_of_succeed succeed member
  obtain ⟨kept, filters, rows⟩ :=
    filter_of_rowTest fun batch member => rowTest_or (members batch member)
  have passes : ∀ batch ∈ table.batches, ∀ row, (Predicate.or preds).keeps batch.schema row = true ↔
      (∀ pred ∈ preds, pred.value batch.schema row ≠ none) ∧
        ∃ pred ∈ preds, pred.value batch.schema row = some true := by
    intro batch member row
    unfold Predicate.keeps
    rw [decide_eq_true_iff, value_or_eq_true (members batch member)]
  have any : ∀ schema row, (preds.any fun pred => pred.keeps schema row) = true ↔
      ∃ pred ∈ preds, pred.value schema row = some true := by
    intro schema row
    simp [Predicate.keeps]
  have agree : OrKeepsAny table preds ↔ table.rowsWhere (Predicate.or preds).keeps =
      table.rowsWhere fun schema row => preds.any fun pred => pred.keeps schema row := by
    constructor
    · rintro ⟨kept', filters', rows'⟩
      cases filters.symm.trans filters'
      exact rows.symm.trans rows'
    · intro same
      exact ⟨kept, filters, rows.trans same⟩
  rw [agree, rowsWhere_eq_iff]
  · refine forall₄_congr fun batch member row _ => ?_
    rw [any, passes batch member row]
    exact ⟨fun back some' => (back some').1, fun clean some' => ⟨clean some', some'⟩⟩
  · intro batch member row _ kept'
    exact (any _ _).mpr ((passes batch member row).mp kept').2

end

/-- **`Or` and `And` filter to the union and the intersection, exactly if no member is null on a row
that another member is true on.** -/
theorem or_and_filter_iff {table : ColumnarTable} {preds : List Predicate}
    (succeed : FiltersSucceed table preds) :
    OrKeepsAny table preds ∧ AndKeepsCommon table preds ↔ NoNullBesideTrue table preds := by
  rw [orKeepsAny_iff succeed]
  exact and_iff_left (andKeepsCommon succeed)

def pairTable : ColumnarTable :=
  ⟨[.leaf "x" .int32, .leaf "y" .int32],
    [⟨[.leaf "x" .int32, .leaf "y" .int32], [[.value (some (.int32 1)), .value (some (.int32 2))]]⟩], .none⟩

def halfNullTable : ColumnarTable :=
  ⟨[.leaf "x" .int32, .leaf "y" .int32],
    [⟨[.leaf "x" .int32, .leaf "y" .int32], [[.value (some (.int32 1)), .value none]]⟩], .none⟩

def pairPredicates : List Predicate := [.cmp "x" .eq (.int32 1), .cmp "y" .eq (.int32 3)]

theorem pair_filters_succeed : FiltersSucceed pairTable pairPredicates := by
  intro pred listed
  rcases mem_cons.mp listed with rfl | listed
  · exact ⟨_, rfl⟩
  · obtain rfl := mem_singleton.mp listed
    exact ⟨_, rfl⟩

theorem pair_or_and_filter :
    OrKeepsAny pairTable pairPredicates ∧ AndKeepsCommon pairTable pairPredicates := by
  refine (or_and_filter_iff pair_filters_succeed).mpr ?_
  intro batch member row inside _ pred listed
  obtain rfl := mem_singleton.mp member
  obtain rfl := mem_singleton.mp inside
  rcases mem_cons.mp listed with rfl | listed
  · decide +kernel
  · obtain rfl := mem_singleton.mp listed
    decide +kernel

theorem or_drops_half_null_row :
    (∃ kept, halfNullTable.filter (.cmp "x" .eq (.int32 1)) = .ok kept ∧
        kept.rows = [[.value (some (.int32 1)), .value none]]) ∧
      (∃ kept, halfNullTable.filter (.cmp "y" .eq (.int32 3)) = .ok kept ∧ kept.rows = []) ∧
      ∃ kept, halfNullTable.filter (.or pairPredicates) = .ok kept ∧ kept.rows = [] :=
  ⟨⟨_, rfl, rfl⟩, ⟨_, rfl, rfl⟩, ⟨_, rfl, rfl⟩⟩

end OxiStore.Columnar
