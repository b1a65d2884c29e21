/-
**Tables as bytes.**
-/

import OxiStore.Columnar.Pruning
import OxiStore.Columnar.Evolution

namespace OxiStore.Columnar

open ByteString Results List

/-! ### Writing and reading -/

/-- **The crates that tables are written with**: Parquet's reader and writer, and DEFLATE. -/
structure Codec where
  parquet : Parquet
  encode : Schema → List RecordBatch → Except String Bytes
  deflate : Bytes → UInt8 → Except String Bytes
  inflate : Bytes → Except String Bytes

def oxiaMagic : Bytes := [0x4f, 0x58, 0x49, 0x41]

/-- **Parquet and DEFLATE round-trip**: a file that was written is read with its schema and its rows, and
starts with a magic of its own; compressed bytes are inflated to what they were. -/
structure Codec.RoundTrips (codec : Codec) : Prop where
  inOrder : codec.parquet.InOrder
  reads : ∀ schema batches bytes, codec.encode schema batches = .ok bytes →
    ∃ file, codec.parquet.tryNew bytes = .ok file ∧ file.schema = schema ∧
      file.rowGroups.flatMap RowGroup.rows = batches.flatMap RecordBatch.rows
  raw : ∀ schema batches bytes, codec.encode schema batches = .ok bytes → oxiaMagic.isPrefixOf bytes = false
  inflates : ∀ bytes level packed, codec.deflate bytes level = .ok packed →
    codec.inflate packed = .ok bytes

def Codec.RefusesEnvelopes (codec : Codec) : Prop :=
  ∀ bytes level packed, codec.deflate bytes level = .ok packed →
    ∃ text, codec.parquet.tryNew (oxiaMagic ++ packed) = .error text

variable {codec : Codec}

def writeBatchesToBytes (codec : Codec) (schema : Schema) (batches : List RecordBatch) :
    Except ColumnarError Bytes := (codec.encode schema batches).mapError .parquet

def compressPayload (codec : Codec) (raw : Bytes) (level : UInt8) : Except ColumnarError Bytes := do
  let compressed ← (codec.deflate raw level).mapError .compress
  .ok (oxiaMagic ++ compressed)

def decompressPayload (codec : Codec) (compressed : Bytes) : Except ColumnarError Bytes :=
  (codec.inflate compressed).mapError .compress

def ColumnarTable.writeToBytes (codec : Codec) (table : ColumnarTable) : Except ColumnarError Bytes := do
  let raw ← writeBatchesToBytes codec table.schema table.batches
  match table.compression with
  | .none => .ok raw
  | .oxiArc level => compressPayload codec raw level

def readFromBytes (codec : Codec) (data : Bytes) : Except ColumnarError ColumnarTable := do
  let parquetBytes ← if oxiaMagic.isPrefixOf data then decompressPayload codec (data.drop oxiaMagic.length)
    else .ok data
  readBatchesFromBytes codec.parquet parquetBytes

def projectBatches (newSchema : Schema) (indices : List ℕ) :
    List RecordBatch → Except ColumnarError (List RecordBatch)
  | [] => .ok []
  | batch :: batches => do
      let projected ← (RecordBatch.tryNew newSchema
        (indices.filterMap fun index => (batch.schema[index]?).map Field.type)
        (batch.rows.map fun row => indices.map row.cell)).mapError .arrow
      let rest ← projectBatches newSchema indices batches
      .ok (projected :: rest)

def ColumnarTable.project (table : ColumnarTable) (columns : List String) :
    Except ColumnarError ColumnarTable :=
  let indices := columns.filterMap table.schema.indexOf
  if indices = [] then .ok ⟨[], [], .none⟩
  else do
    let newSchema := indices.filterMap (table.schema[·]?)
    let newBatches ← projectBatches newSchema indices table.batches
    .ok ⟨newSchema, newBatches, table.compression⟩

theorem readFromBytes_of_written (roundTrips : codec.RoundTrips) {table : ColumnarTable} {bytes : Bytes}
    (written : table.writeToBytes codec = .ok bytes) :
    ∃ file : ParquetFile, file.schema = table.schema ∧
      file.rowGroups.flatMap RowGroup.rows = table.rows ∧
      readFromBytes codec bytes = .ok (codec.parquet.collect file file.rowGroups) ∧
      (table.compression = .none → codec.parquet.tryNew bytes = .ok file) ∧
      (table.compression ≠ .none → ∃ raw level packed,
        codec.deflate raw level = .ok packed ∧ bytes = oxiaMagic ++ packed) := by
  unfold ColumnarTable.writeToBytes at written
  obtain ⟨raw, encoded, written⟩ := bind_eq_ok.mp written
  have encoded' := mapError_eq_ok.mp encoded
  obtain ⟨file, parsed, schema, rows⟩ := roundTrips.reads _ _ _ encoded'
  have reads : readBatchesFromBytes codec.parquet raw = .ok (codec.parquet.collect file file.rowGroups) := by
    unfold readBatchesFromBytes
    rw [parsed]
    rfl
  refine ⟨file, schema, rows, ?_⟩
  unfold readFromBytes
  cases mode : table.compression with
  | none =>
    rw [mode] at written
    cases written
    rw [roundTrips.raw _ _ _ encoded']
    exact ⟨reads, fun _ => parsed, fun other => absurd rfl other⟩
  | oxiArc level =>
    rw [mode] at written
    obtain ⟨packed, deflated, same⟩ := bind_eq_ok.mp written
    cases same
    have deflated' := mapError_eq_ok.mp deflated
    have magic : oxiaMagic.isPrefixOf (oxiaMagic ++ packed) = true := by simp
    rw [magic, if_pos rfl, drop_left, decompressPayload, roundTrips.inflates _ _ _ deflated']
    exact ⟨reads, nofun, fun _ => ⟨raw, level, packed, deflated', rfl⟩⟩

/-! ### Lists and sets of columns -/

def Row.wanted (names : List String) (schema : Schema) (row : Row) : Row :=
  ((schema.zip row).filter fun pair => names.contains pair.1.name).map Prod.snd

/-- **The list and the set of names select the same fields and cells.** Without a name, `project` returns
no row at all. -/
def SelectsAlike (schema : Schema) (rows : List Row) (names : List String) : Prop :=
  (names.filterMap schema.indexOf).filterMap (schema[·]?) =
      schema.filter (fun field => names.contains field.name) ∧
    (∀ row ∈ rows, (names.filterMap schema.indexOf).map row.cell = row.wanted names schema) ∧
    (names = [] → rows = [])

section

variable {schema : Schema} {names : List String} {row : Row} {field : Field}

theorem Schema.Flat.tail (flat : Schema.Flat (field :: schema)) : schema.Flat :=
  fun other member => flat other (mem_cons_of_mem _ member)

theorem Schema.Flat.projectFields_eq (flat : schema.Flat) (keep : String → Bool) :
    projectFields keep schema = schema.filter fun field => keep field.name := by
  induction schema with
  | nil => rfl
  | cons field schema ih =>
    obtain ⟨name, type, nullable, rfl⟩ := flat field mem_cons_self
    rw [projectFields, Field.project, ih flat.tail]
    by_cases wanted : keep name = true
    all_goals simp [Field.name, wanted]

theorem Schema.Flat.project_eq (flat : schema.Flat) (conforms : row.Conforms schema)
    (names : List String) : row.project names.contains schema = row.wanted names schema := by
  unfold Row.Conforms at conforms
  induction conforms with
  | nil => rfl
  | @cons field cell schema row admits _ ih =>
    obtain ⟨name, type, nullable, rfl⟩ := flat field mem_cons_self
    have rest := ih flat.tail
    obtain ⟨datum, rfl⟩ : ∃ datum, cell = .value datum := by
      cases cell with
      | value datum => exact ⟨datum, rfl⟩
      | nested leaves => cases admits.fits
    rw [Row.project_cons, rest, Field.project]
    unfold Row.wanted
    rw [zip_cons_cons]
    by_cases wanted : names.contains name = true
    · rw [if_pos wanted, filter_cons_of_pos (by exact wanted)]
      rfl
    · rw [if_neg wanted, filter_cons_of_neg (by exact wanted)]
      rfl

theorem filterMap_indexOf_cons (other : field.name ∉ names) :
    names.filterMap (Schema.indexOf (field :: schema)) = (names.filterMap schema.indexOf).map (· + 1) := by
  rw [map_filterMap]
  refine filterMap_congr fun name member => ?_
  rw [Schema.indexOf_cons, if_neg]
  rintro rfl
  exact other member

def Schema.placesOf (schema : Schema) (keep : String → Bool) : List ℕ :=
  ((schema.map Field.name).filter keep).filterMap schema.indexOf

theorem Schema.placesOf_cons (fresh : field.name ∉ schema.map Field.name) (keep : String → Bool) :
    Schema.placesOf (field :: schema) keep =
      if keep field.name then 0 :: (schema.placesOf keep).map (· + 1)
      else (schema.placesOf keep).map (· + 1) := by
  have other : field.name ∉ (schema.map Field.name).filter keep := fun member =>
    fresh (mem_of_mem_filter member)
  have own : Schema.indexOf (field :: schema) field.name = some 0 := by rw [Schema.indexOf_cons, if_pos rfl]
  unfold Schema.placesOf
  rw [map_cons]
  split_ifs with wanted
  · rw [filter_cons_of_pos wanted, filterMap_cons_some own, filterMap_indexOf_cons other]
  · rw [filter_cons_of_neg wanted, filterMap_indexOf_cons other]

variable (distinct : (schema.map Field.name).Nodup)

include distinct

theorem Schema.fields_placesOf (keep : String → Bool) :
    (schema.placesOf keep).filterMap (schema[·]?) = schema.filter fun field => keep field.name := by
  induction schema with
  | nil => rfl
  | cons field schema ih =>
    rw [map_cons, nodup_cons] at distinct
    have later : ((Schema.placesOf schema keep).map (· + 1)).filterMap ((field :: schema)[·]?) =
        schema.filter fun field => keep field.name := by
      rw [← ih distinct.2, filterMap_map]
      rfl
    rw [Schema.placesOf_cons distinct.1, filter_cons]
    split_ifs
    · rw [filterMap_cons, later]
      rfl
    · exact later

theorem Schema.cells_placesOf (keep : String → Bool) {row : Row} (length : row.length = schema.length) :
    (schema.placesOf keep).map row.cell =
      ((schema.zip row).filter fun pair => keep pair.1.name).map Prod.snd := by
  induction schema generalizing row with
  | nil => rfl
  | cons field schema ih =>
    rw [map_cons, nodup_cons] at distinct
    cases row with
    | nil => cases length
    | cons cell row =>
      have later : ((Schema.placesOf schema keep).map (· + 1)).map (Row.cell (cell :: row)) =
          ((schema.zip row).filter fun pair => keep pair.1.name).map Prod.snd := by
        rw [← ih distinct.2 (Nat.succ.inj length), map_map]
        rfl
      rw [Schema.placesOf_cons distinct.1, zip_cons_cons, filter_cons]
      dsimp only
      split_ifs
      · rw [map_cons, map_cons, later]
        rfl
      · exact later

theorem selectsAlike_iff {rows : List Row} (existing : ∀ name ∈ names, (schema.indexOf name).isSome)
    (conforms : ∀ row ∈ rows, row.Conforms schema) :
    SelectsAlike schema rows names ↔
      names = (schema.map Field.name).filter names.contains ∧ (names = [] → rows = []) := by
  have listed : ((names.filterMap schema.indexOf).filterMap (schema[·]?)).map Field.name = names := by
    rw [map_filterMap, filterMap_filterMap]
    have own : ∀ name ∈ names, ((schema.indexOf name).bind fun index =>
        (schema[index]?).map Field.name) = some name := by
      intro name member
      obtain ⟨place, found⟩ := Option.isSome_iff_exists.mp (existing name member)
      obtain ⟨inside, named, _⟩ := findIdx?_eq_some_iff_getElem.mp found
      rw [found, Option.bind_some, getElem?_eq_getElem inside, Option.map_some]
      exact congrArg some (eq_of_beq named)
    rw [filterMap_congr own, filterMap_some]
  constructor
  · rintro ⟨fields, _, empty⟩
    refine ⟨?_, empty⟩
    have order := congrArg (map Field.name) fields
    rw [listed] at order
    rw [filter_map]
    exact order
  · rintro ⟨order, empty⟩
    have places : schema.placesOf names.contains = names.filterMap schema.indexOf := by
      rw [Schema.placesOf, ← order]
    refine ⟨?_, fun row member => ?_, empty⟩
    · rw [← places]
      exact Schema.fields_placesOf distinct names.contains
    · rw [← places]
      exact Schema.cells_placesOf distinct names.contains (conforms row member).length_eq.symm

end

/-! ### The readers side by side -/

def ReadersAgree (codec : Codec) (bytes : Bytes) (schema : Schema) (names : List String) : Prop :=
  (∃ full projected read, readFromBytes codec bytes = .ok full ∧ full.project names = .ok projected ∧
    readColumnsFromBytes codec.parquet bytes names = .ok read ∧
    read.schema = projected.schema ∧ read.rows = projected.rows) ∧
  (∀ pred, ∃ table, readWithPredicateFromBytes codec.parquet bytes pred = .ok table) ∧
  ∀ target, target ≠ [] → SameTypes schema target → KeepsRequired schema target →
    ∃ table, readWithSchemaFromBytes codec.parquet bytes target = .ok table

section

variable {file : ParquetFile} {names : List String} {bytes : Bytes} {schema : Schema}

theorem getElem?_fieldsAt {indices : List ℕ} (inside : ∀ index ∈ indices, index < schema.length)
    (idx : ℕ) : (indices.filterMap (schema[·]?))[idx]? = indices[idx]?.bind (schema[·]?) := by
  induction indices generalizing idx with
  | nil => rfl
  | cons index indices ih =>
    rw [filterMap_cons_some (getElem?_eq_getElem (inside index mem_cons_self))]
    cases idx with
    | zero => simp [inside index mem_cons_self]
    | succ idx => exact ih (fun index member => inside index (mem_cons_of_mem _ member)) idx

theorem respects_cellsAt {indices : List ℕ} (inside : ∀ index ∈ indices, index < schema.length) {row : Row}
    (conforms : row.Conforms schema) :
    Row.Respects (indices.map row.cell) (indices.filterMap (schema[·]?)) := by
  intro idx field here null
  rw [getElem?_fieldsAt inside] at here
  obtain ⟨index, listed, there⟩ := Option.bind_eq_some_iff.mp here
  rw [Row.cell, getD_eq_getElem?_getD, getElem?_map, listed] at null
  exact (conforms.admits_cell there).null null

theorem projectBatches_ok {indices : List ℕ} {batches : List RecordBatch}
    (uniform : ∀ batch ∈ batches, batch.schema = schema) (some' : indices ≠ [])
    (inside : ∀ index ∈ indices, index < schema.length)
    (conforms : ∀ row ∈ batches.flatMap RecordBatch.rows, row.Conforms schema) :
    ∃ result, projectBatches (indices.filterMap (schema[·]?)) indices batches = .ok result ∧
      result.flatMap RecordBatch.rows =
        (batches.flatMap RecordBatch.rows).map fun row => indices.map row.cell := by
  have types : (indices.filterMap fun index => (schema[index]?).map Field.type) =
      (indices.filterMap (schema[·]?)).map Field.type := (map_filterMap ..).symm
  have typed : (indices.filterMap fun index => (schema[index]?).map Field.type) ≠ [] := by
    obtain ⟨index, rest, rfl⟩ := exists_cons_of_ne_nil some'
    have here := inside index mem_cons_self
    rw [filterMap_cons, getElem?_eq_getElem here]
    simp
  induction batches with
  | nil => exact ⟨[], rfl, rfl⟩
  | cons batch batches ih =>
    rw [flatMap_cons, forall_mem_append] at conforms
    obtain ⟨rest, later, rows⟩ :=
      ih (fun batch member => uniform batch (mem_cons_of_mem _ member)) conforms.2
    obtain rfl : batch.schema = schema := uniform batch mem_cons_self
    have made := RecordBatch.tryNew_eq_ok.mpr ⟨typed, forall_mem_map.mpr fun row member =>
      respects_cellsAt inside (conforms.1 row member), types, rfl⟩
    unfold projectBatches
    rw [made, later]
    refine ⟨_, rfl, ?_⟩
    rw [flatMap_cons, flatMap_cons, map_append, rows]

variable (inOrder : codec.parquet.InOrder)

include inOrder

theorem project_collect (some' : names ≠ []) (existing : ∀ name ∈ names, (file.schema.indexOf name).isSome) :
    ∃ projected, (codec.parquet.collect file file.rowGroups).project names = .ok projected ∧
      projected.schema = (names.filterMap file.schema.indexOf).filterMap (file.schema[·]?) ∧
      projected.rows = (file.rowGroups.flatMap RowGroup.rows).map fun row =>
        (names.filterMap file.schema.indexOf).map row.cell := by
  have uniform : ∀ batch ∈ (codec.parquet.collect file file.rowGroups).batches,
      batch.schema = file.schema := by
    intro batch member
    obtain ⟨rows, _, rfl⟩ := mem_map.mp member
    rfl
  have found : names.filterMap file.schema.indexOf ≠ [] := by
    obtain ⟨name, rest, rfl⟩ := exists_cons_of_ne_nil some'
    obtain ⟨place, here⟩ := Option.isSome_iff_exists.mp (existing name mem_cons_self)
    rw [filterMap_cons_some here]
    simp
  have inside : ∀ index ∈ names.filterMap file.schema.indexOf, index < file.schema.length := by
    intro index member
    obtain ⟨name, _, here⟩ := mem_filterMap.mp member
    exact (findIdx?_eq_some_iff_getElem.mp here).1
  obtain ⟨result, done, rows⟩ := projectBatches_ok uniform found inside fun row member =>
    file.conforms row (inOrder.rows_collect file file.rowGroups ▸ member)
  refine ⟨⟨(names.filterMap file.schema.indexOf).filterMap (file.schema[·]?), result, .none⟩, ?_, rfl, ?_⟩
  · unfold ColumnarTable.project
    show (if names.filterMap file.schema.indexOf = [] then _ else _) = _
    rw [if_neg found]
    exact bind_eq_ok.mpr ⟨result, done, rfl⟩
  · have whole := inOrder.rows_collect file file.rowGroups
    rw [← whole]
    exact rows

variable (parsed : codec.parquet.tryNew bytes = .ok file)

include parsed

theorem readColumns_flat (flat : file.schema.Flat) (names : List String) :
    ∃ read, readColumnsFromBytes codec.parquet bytes names = .ok read ∧
      read.schema = file.schema.filter (fun field => names.contains field.name) ∧
      read.rows = (file.rowGroups.flatMap RowGroup.rows).map fun row => row.wanted names file.schema := by
  unfold readColumnsFromBytes
  rw [parsed]
  refine ⟨_, rfl, ?_, ?_⟩
  · dsimp only
    cases batches : codec.parquet.collectProjected file names.contains with
    | nil => rfl
    | cons first rest =>
      have here := Parquet.schema_collectProjected first (batches ▸ mem_cons_self)
      exact here.trans (flat.projectFields_eq names.contains)
  · show (codec.parquet.collectProjected file names.contains).flatMap RecordBatch.rows = _
    rw [inOrder.rows_collectProjected]
    exact map_congr_left fun row member => flat.project_eq (file.conforms row member) names

theorem columns_agree_iff
    (reads : readFromBytes codec bytes = .ok (codec.parquet.collect file file.rowGroups))
    (flat : file.schema.Flat) (existing : ∀ name ∈ names, (file.schema.indexOf name).isSome) :
    (∃ full projected read, readFromBytes codec bytes = .ok full ∧ full.project names = .ok projected ∧
      readColumnsFromBytes codec.parquet bytes names = .ok read ∧
      read.schema = projected.schema ∧ read.rows = projected.rows) ↔
        SelectsAlike file.schema (file.rowGroups.flatMap RowGroup.rows) names := by
  obtain ⟨read, columns, schema, rows⟩ := readColumns_flat inOrder parsed flat names
  have agree : (∃ full projected read, readFromBytes codec bytes = .ok full ∧
      full.project names = .ok projected ∧ readColumnsFromBytes codec.parquet bytes names = .ok read ∧
      read.schema = projected.schema ∧ read.rows = projected.rows) ↔
      ∃ projected, (codec.parquet.collect file file.rowGroups).project names = .ok projected ∧
        read.schema = projected.schema ∧ read.rows = projected.rows := by
    constructor
    · rintro ⟨full, projected, read', reads', done, columns', same⟩
      cases reads.symm.trans reads'
      cases columns.symm.trans columns'
      exact ⟨projected, done, same⟩
    · rintro ⟨projected, done, same⟩
      exact ⟨_, projected, read, reads, done, columns, same⟩
  rw [agree]
  by_cases none' : names = []
  · subst none'
    have empty : (codec.parquet.collect file file.rowGroups).project [] = .ok ⟨[], [], .none⟩ := rfl
    constructor
    · rintro ⟨projected, done, _, same⟩
      cases empty.symm.trans done
      rw [rows] at same
      refine ⟨by simp, fun row _ => ?_, fun _ => map_eq_nil_iff.mp same⟩
      simp [Row.wanted]
    · rintro ⟨_, _, nothing⟩
      refine ⟨_, empty, ?_, ?_⟩
      · rw [schema]
        simp
      · rw [rows, nothing rfl]
        rfl
  · obtain ⟨projected, done, schema', rows'⟩ := project_collect inOrder none' existing
    constructor
    · rintro ⟨projected', done', fields, cells⟩
      cases done.symm.trans done'
      refine ⟨?_, ?_, fun empty => absurd empty none'⟩
      · rw [← schema', ← fields, schema]
      · rw [rows, rows'] at cells
        exact fun row member => (map_inj_left.mp cells row member).symm
    · rintro ⟨fields, cells, _⟩
      refine ⟨projected, done, ?_, ?_⟩
      · rw [schema, schema', fields]
      · rw [rows, rows']
        exact map_congr_left fun row member => (cells row member).symm

omit parsed

omit inOrder

theorem Schema.Flat.selectedWhole {target : Schema} (flat : schema.Flat) :
    SelectedWhole schema target := by
  intro targetField member place field found here leaf inside
  obtain ⟨name, type, nullable, rfl⟩ := flat field (mem_of_getElem? here)
  obtain rfl := mem_singleton.mp inside
  obtain ⟨place', named, _⟩ := findIdx?_eq_some_iff_getElem.mp found
  have same : name = targetField.name := by
    rw [getElem?_eq_getElem place'] at here
    rw [Option.some.inj here] at named
    exact eq_of_beq named
  refine mem_filter.mpr ⟨mem_map.mpr ⟨targetField, member, same.symm⟩, ?_⟩
  show (schema.indexOf name).isSome = true
  rw [same, found]
  rfl

theorem Schema.Flat.stored (flat : schema.Flat) : ∀ field ∈ schema, field.Stored := by
  intro field member
  obtain ⟨name, type, nullable, rfl⟩ := flat field member
  exact .leaf name type nullable

include parsed in
include inOrder in
theorem other_readers_succeed (flat : file.schema.Flat) :
    (∀ pred, ∃ table, readWithPredicateFromBytes codec.parquet bytes pred = .ok table) ∧
      ∀ target, target ≠ [] → SameTypes file.schema target → KeepsRequired file.schema target →
        ∃ table, readWithSchemaFromBytes codec.parquet bytes target = .ok table := by
  refine ⟨fun pred => ?_, fun target some' same required => ?_⟩
  · unfold readWithPredicateFromBytes
    rw [parsed]
    exact ⟨_, rfl⟩
  · have faithful := faithful_of_whole flat.stored flat.selectedWhole same some' required
    obtain ⟨table, read, _⟩ :=
      (faithful codec.parquet bytes file inOrder parsed rfl).resolve_right fun refused => refused.1 same
    exact ⟨table, read⟩

end

/-- **The readers agree exactly on tables that are not compressed and on lists of names that select what
their set selects**; with distinct columns, those in the order of the file. -/
theorem readers_agree_iff (roundTrips : codec.RoundTrips) (refuses : codec.RefusesEnvelopes)
    {table : ColumnarTable} {bytes : Bytes} (written : table.writeToBytes codec = .ok bytes)
    (flat : table.schema.Flat) {names : List String}
    (existing : ∀ name ∈ names, (table.schema.indexOf name).isSome) :
    (ReadersAgree codec bytes table.schema names ↔
      table.compression = .none ∧ SelectsAlike table.schema table.rows names) ∧
    ((table.schema.map Field.name).Nodup → (SelectsAlike table.schema table.rows names ↔
      names = (table.schema.map Field.name).filter names.contains ∧ (names = [] → table.rows = []))) := by
  obtain ⟨file, schema, rows, reads, plain, packed⟩ := readFromBytes_of_written roundTrips written
  rw [← schema] at flat existing
  rw [← schema, ← rows]
  refine ⟨?_, fun distinct => selectsAlike_iff distinct existing file.conforms⟩
  by_cases mode : table.compression = .none
  · have parsed := plain mode
    rw [and_iff_right mode, ← columns_agree_iff roundTrips.inOrder parsed reads flat existing]
    exact and_iff_left (other_readers_succeed roundTrips.inOrder parsed flat)
  · obtain ⟨raw, level, content, deflated, rfl⟩ := packed mode
    obtain ⟨text, refused⟩ := refuses _ _ _ deflated
    refine iff_of_false ?_ fun both => mode both.1
    rintro ⟨_, succeeds, _⟩
    obtain ⟨read, done⟩ := succeeds .all
    unfold readWithPredicateFromBytes at done
    rw [refused] at done
    cases done

/-! ### One file -/

def parquetMagic : Bytes := [0x50, 0x41, 0x52, 0x31]

def Codec.lone (file : ParquetFile) : Codec where
  parquet := ⟨fun bytes => if bytes = parquetMagic then .ok file else .error "Invalid Parquet file",
    (Parquet.single file).cut⟩
  encode schema batches :=
    if schema = file.schema ∧
        batches.flatMap RecordBatch.rows = file.rowGroups.flatMap RowGroup.rows then .ok parquetMagic
    else .error "another file"
  deflate bytes _ := .ok bytes
  inflate bytes := .ok bytes

theorem Codec.lone_roundTrips (file : ParquetFile) : (Codec.lone file).RoundTrips where
  inOrder := ⟨(Parquet.inOrder_single file).flatten_cut, (Parquet.inOrder_single file).nonempty⟩
  reads schema batches bytes encoded := by
    unfold Codec.lone at encoded
    dsimp only at encoded
    split_ifs at encoded with same
    cases encoded
    refine ⟨file, ?_, same.1.symm, same.2.symm⟩
    simp [Codec.lone]
  raw schema batches bytes encoded := by
    unfold Codec.lone at encoded
    dsimp only at encoded
    split_ifs at encoded
    cases encoded
    rfl
  inflates bytes level packed deflated := by
    cases deflated
    rfl

theorem Codec.lone_refusesEnvelopes (file : ParquetFile) : (Codec.lone file).RefusesEnvelopes := by
  intro bytes level packed _
  refine ⟨"Invalid Parquet file", ?_⟩
  have other : oxiaMagic ++ packed ≠ parquetMagic := by
    intro same
    cases same
  simp [Codec.lone, other]

def twoColumns : Schema := [.leaf "x" .int32, .leaf "y" .int32]

def intRow (x y : Int32) : Row := [.value (some (.int32 x)), .value (some (.int32 y))]

theorem intRow_conforms (x y : Int32) : (intRow x y).Conforms twoColumns := by
  have fits : ∀ (name : String) (value : Int32),
      (Field.leaf name .int32).Admits (.value (some (.int32 value))) := by
    refine fun name value => ⟨fun datum inside => ?_, nofun⟩
    obtain rfl : datum = .int32 value := by simpa using inside
    exact ⟨rfl, by simp⟩
  exact .cons (fits "x" x) (.cons (fits "y" y) .nil)

def twoColumnRow : Row := intRow 1 2

theorem twoColumnRow_conforms : twoColumnRow.Conforms twoColumns := intRow_conforms 1 2

def twoColumnFile : ParquetFile := loneFile twoColumns twoColumnRow twoColumnRow_conforms

def twoColumnTable (compression : CompressionMode) : ColumnarTable :=
  ⟨twoColumns, [⟨twoColumns, [twoColumnRow]⟩], compression⟩

theorem two_columns_agree :
    (twoColumnTable .none).writeToBytes (.lone twoColumnFile) = .ok parquetMagic ∧
      ReadersAgree (.lone twoColumnFile) parquetMagic twoColumns ["x", "y"] := by
  have written : (twoColumnTable .none).writeToBytes (.lone twoColumnFile) = .ok parquetMagic := by
    decide +kernel
  have flat : Schema.Flat twoColumns := by
    intro field member
    rcases mem_cons.mp member with rfl | member
    · exact ⟨_, _, _, rfl⟩
    · exact ⟨_, _, _, mem_singleton.mp member⟩
  refine ⟨written, ?_⟩
  have existing : ∀ name ∈ ["x", "y"], (Schema.indexOf twoColumns name).isSome := by decide +kernel
  obtain ⟨agree, order⟩ := readers_agree_iff (Codec.lone_roundTrips twoColumnFile)
    (Codec.lone_refusesEnvelopes twoColumnFile) written flat existing
  exact agree.mpr ⟨rfl, (order (by decide +kernel)).mpr ⟨by decide +kernel, nofun⟩⟩

theorem columns_out_of_order :
    (∃ full projected read, readFromBytes (.lone twoColumnFile) parquetMagic = .ok full ∧
      full.project ["y", "x"] = .ok projected ∧
      readColumnsFromBytes (Codec.lone twoColumnFile).parquet parquetMagic ["y", "x"] = .ok read ∧
      projected.rows = [[.value (some (.int32 2)), .value (some (.int32 1))]] ∧
      read.rows = [[.value (some (.int32 1)), .value (some (.int32 2))]]) ∧
    (twoColumnTable (.oxiArc 6)).writeToBytes (.lone twoColumnFile) = .ok (oxiaMagic ++ parquetMagic) ∧
    (∃ full, readFromBytes (.lone twoColumnFile) (oxiaMagic ++ parquetMagic) = .ok full) ∧
    readColumnsFromBytes (Codec.lone twoColumnFile).parquet (oxiaMagic ++ parquetMagic) ["x"] =
      .error (.parquet "Invalid Parquet file") :=
  ⟨⟨_, _, _, rfl, rfl, rfl, rfl, rfl⟩, by decide +kernel, ⟨_, rfl⟩, rfl⟩

end OxiStore.Columnar
