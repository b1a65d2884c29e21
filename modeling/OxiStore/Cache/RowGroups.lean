/-
**`ColumnarRowGroupCache`.**
-/

import OxiStore.Cache.Lru
import OxiStore.Columnar.Payload
import OxiStore.Lib.Chunks

namespace OxiStore.Caching

open ByteString OxiStore.Columnar

structure RowGroupKey where
  fileId : String
  rowGroupIndex : ℕ
deriving DecidableEq

structure ColumnarRowGroupCache where
  inner : LruCache RowGroupKey Bytes
  hits : ℕ
  misses : ℕ

def serialiseRowGroup (codec : Codec) (table : ColumnarTable) (rowGroupIndex : ℕ) :
    Except ColumnarError Bytes :=
  match table.batches[rowGroupIndex]? with
  | none => .error (.schemaMismatch ("row group index " ++ toString rowGroupIndex ++
      " out of range (table has " ++ toString table.batches.length ++ " batches)"))
  | some batch => ColumnarTable.writeToBytes codec ⟨table.schema, [batch], .none⟩

namespace ColumnarRowGroupCache

def new (maxEntries : ℕ) : ColumnarRowGroupCache := ⟨.new maxEntries, 0, 0⟩

def loadRowGroup (codec : Codec) (now later : Instant) (fileId : String) (rowGroupIndex : ℕ)
    (table : ColumnarTable) (s : ColumnarRowGroupCache) :
    Except ColumnarError Bytes × ColumnarRowGroupCache :=
  let key : RowGroupKey := ⟨fileId, rowGroupIndex⟩
  if s.inner.contains now key then
    let (found, inner) := s.inner.get later key
    (.ok (found.getD []), { s with inner := inner, hits := s.hits + 1 })
  else
    match serialiseRowGroup codec table rowGroupIndex with
    | .error error => (.error error, { s with misses := s.misses + 1 })
    | .ok bytes =>
        let (found, inner) := (s.inner.put key bytes).2.get later key
        (.ok (found.getD []), { s with inner := inner, misses := s.misses + 1 })

def getAsBatch (codec : Codec) (now : Instant) (key : RowGroupKey) (s : ColumnarRowGroupCache) :
    Except ColumnarError (Option RecordBatch) × ColumnarRowGroupCache :=
  match s.inner.get now key with
  | (none, inner) => (.ok none, { s with inner := inner })
  | (some bytes, inner) =>
      ((readBatchesFromBytes codec.parquet bytes).map fun table => table.batches.head?,
        { s with inner := inner })

end ColumnarRowGroupCache

/-- **A reader with batches of a fixed size**: the first rows, then those after them, and so on. -/
structure CutsAt (parquet : Parquet) (size : ℕ) : Prop where
  positive : 0 < size
  cut : ∀ rows, parquet.cut rows = ListChunks.chunks size rows

section

variable {codec : Codec} {size : ℕ} {now later time : Instant} {fileId : String} {index : ℕ}
  {table : ColumnarTable} {batch : RecordBatch} {bytes : Bytes} {s s' s'' : ColumnarRowGroupCache}

theorem loadRowGroup_fresh (fresh : s.inner.contains now ⟨fileId, index⟩ = false)
    (loaded : s.loadRowGroup codec now later fileId index table = (.ok bytes, s')) :
    serialiseRowGroup codec table index = .ok bytes ∧
      s'.inner.map.get ⟨fileId, index⟩ = some (.new bytes) := by
  unfold ColumnarRowGroupCache.loadRowGroup at loaded
  simp only [fresh, Bool.false_eq_true, if_false] at loaded
  cases written : serialiseRowGroup codec table index with
  | error error => simp [written] at loaded
  | ok raw =>
    have held : (s.inner.put ⟨fileId, index⟩ raw).2.map.get ⟨fileId, index⟩ = some (.new raw) :=
      lru_insertEntry_self _ _ _
    have found := lru_get_live held (CacheEntry.live_new later raw)
    rw [written] at loaded
    simp only [found] at loaded
    cases loaded
    exact ⟨rfl, LinkedMap.get_insert_self _ _ _⟩

theorem loadRowGroup_of_written (fresh : s.inner.contains now ⟨fileId, index⟩ = false)
    (written : serialiseRowGroup codec table index = .ok bytes) (later : Instant) :
    ∃ s', s.loadRowGroup codec now later fileId index table = (.ok bytes, s') := by
  have held : (s.inner.put ⟨fileId, index⟩ bytes).2.map.get ⟨fileId, index⟩ = some (.new bytes) :=
    lru_insertEntry_self _ _ _
  have found := lru_get_live held (CacheEntry.live_new later bytes)
  unfold ColumnarRowGroupCache.loadRowGroup
  simp only [fresh, Bool.false_eq_true, if_false, written, found]
  exact ⟨_, rfl⟩

theorem getAsBatch_resident (roundTrips : codec.RoundTrips) (cuts : CutsAt codec.parquet size)
    (there : table.batches[index]? = some batch) (nonempty : batch.rows ≠ [])
    (written : serialiseRowGroup codec table index = .ok bytes) {key : RowGroupKey}
    (resident : s.inner.map.get key = some (.new bytes)) (time : Instant) :
    (s.getAsBatch codec time key).1 = .ok (some ⟨table.schema, batch.rows.take size⟩) := by
  unfold serialiseRowGroup at written
  rw [there] at written
  obtain ⟨file, schema, rows, _, parsed, _⟩ := readFromBytes_of_written roundTrips written
  have rows' : file.rowGroups.flatMap RowGroup.rows = batch.rows := by
    rw [rows]
    exact List.append_nil _
  have reads : readBatchesFromBytes codec.parquet bytes =
      .ok (codec.parquet.collect file file.rowGroups) := by
    unfold readBatchesFromBytes
    rw [parsed rfl]
    rfl
  have found := lru_get_live resident (CacheEntry.live_new time bytes)
  unfold ColumnarRowGroupCache.getAsBatch
  rw [found]
  dsimp only
  rw [reads]
  show Except.ok ((codec.parquet.cut _).map _).head? = _
  rw [rows', cuts.cut, ListChunks.chunks_of_ne_nil cuts.positive nonempty, schema]
  rfl

/-- **A batch that is loaded is read back exactly if the reader puts it into one batch**, and it has the
schema of its table. It may be read in any state that still holds what the load left. -/
theorem row_group_round_trip_iff (roundTrips : codec.RoundTrips) (cuts : CutsAt codec.parquet size)
    (there : table.batches[index]? = some batch) (nonempty : batch.rows ≠ [])
    (fresh : s.inner.contains now ⟨fileId, index⟩ = false)
    (loaded : s.loadRowGroup codec now later fileId index table = (.ok bytes, s'))
    (resident : s''.inner.map.get ⟨fileId, index⟩ = s'.inner.map.get ⟨fileId, index⟩) (time : Instant) :
    (s''.getAsBatch codec time ⟨fileId, index⟩).1 = .ok (some batch) ↔
      batch.numRows ≤ size ∧ batch.schema = table.schema := by
  obtain ⟨written, held⟩ := loadRowGroup_fresh fresh loaded
  rw [getAsBatch_resident roundTrips cuts there nonempty written (resident.trans held) time]
  obtain ⟨schema, rows⟩ := batch
  rw [Except.ok.injEq, Option.some_inj, RecordBatch.mk.injEq, List.take_eq_self_iff]
  constructor
  · rintro ⟨same, short⟩
    exact ⟨short, same.symm⟩
  · rintro ⟨short, same⟩
    exact ⟨same.symm, short⟩

end

/-! ### A row more than a batch -/

def copiesFile (schema : Schema) (row : Row) (conforms : row.Conforms schema) (copies : ℕ) : ParquetFile :=
  ⟨schema, [.bare (List.replicate copies row) fun other member => by
    rw [List.eq_of_mem_replicate member]
    exact conforms]⟩

def batchedCodec (file : ParquetFile) : Codec :=
  { Codec.lone file with
    parquet := { (Codec.lone file).parquet with cut := ListChunks.chunks 1024 } }

theorem batched_cutsAt (file : ParquetFile) : CutsAt (batchedCodec file).parquet 1024 :=
  ⟨by decide, fun _ => rfl⟩

theorem batched_roundTrips (file : ParquetFile) : (batchedCodec file).RoundTrips where
  inOrder := ⟨ListChunks.flatten_chunks (by decide), fun _ _ member =>
    ListChunks.ne_nil_of_mem_chunks (by decide) member⟩
  reads := (Codec.lone_roundTrips file).reads
  raw := (Codec.lone_roundTrips file).raw
  inflates := (Codec.lone_roundTrips file).inflates

def copiesTable (copies : ℕ) : ColumnarTable :=
  ⟨twoColumns, [⟨twoColumns, List.replicate copies twoColumnRow⟩], .none⟩

def copiesCodec (copies : ℕ) : Codec :=
  batchedCodec (copiesFile twoColumns twoColumnRow twoColumnRow_conforms copies)

theorem copies_written (copies : ℕ) :
    serialiseRowGroup (copiesCodec copies) (copiesTable copies) 0 = .ok parquetMagic := by
  have encoded : (copiesCodec copies).encode twoColumns (copiesTable copies).batches = .ok parquetMagic :=
    if_pos ⟨rfl, rfl⟩
  show ((copiesCodec copies).encode twoColumns (copiesTable copies).batches).mapError _ >>= _ = _
  rw [encoded]
  rfl

def twoBatchTable : ColumnarTable :=
  ⟨twoColumns, [⟨twoColumns, [twoColumnRow]⟩, ⟨twoColumns, [intRow 3 4, intRow 5 6, intRow 7 8]⟩], .none⟩

def secondBatchCodec : Codec :=
  batchedCodec ⟨twoColumns, [.bare [intRow 3 4, intRow 5 6, intRow 7 8] fun row member => by
    simp only [List.mem_cons, List.not_mem_nil, or_false] at member
    rcases member with rfl | rfl | rfl <;> exact intRow_conforms _ _]⟩

theorem second_row_group_read_back :
    let first := (ColumnarRowGroupCache.new 4).loadRowGroup secondBatchCodec 0 1
      "f" 1 twoBatchTable
    let second := first.2.loadRowGroup secondBatchCodec 2 3 "g" 1 twoBatchTable
    first.1 = .ok parquetMagic ∧ second.1 = .ok parquetMagic ∧
      (second.2.getAsBatch secondBatchCodec 4 ⟨"f", 1⟩).1 =
        .ok (some ⟨twoColumns, [intRow 3 4, intRow 5 6, intRow 7 8]⟩) := by
  intro first second
  have loaded : first.1 = .ok parquetMagic := by decide +kernel
  refine ⟨loaded, by decide +kernel, (row_group_round_trip_iff (batched_roundTrips _) (batched_cutsAt _)
    (show twoBatchTable.batches[1]? = some ⟨twoColumns, [intRow 3 4, intRow 5 6, intRow 7 8]⟩ from rfl)
    (List.cons_ne_nil _ _) rfl (Prod.ext loaded rfl) (by decide +kernel) 4).mpr
      ⟨by decide, rfl⟩⟩

theorem long_row_group_cut : ∃ s', (ColumnarRowGroupCache.new 4).loadRowGroup (copiesCodec 1025)
      0 1 "f" 0 (copiesTable 1025) = (.ok parquetMagic, s') ∧
    (s'.getAsBatch (copiesCodec 1025) 2 ⟨"f", 0⟩).1 =
      .ok (some ⟨twoColumns, List.replicate 1024 twoColumnRow⟩) ∧
    (s'.getAsBatch (copiesCodec 1025) 2 ⟨"f", 0⟩).1 ≠
      .ok (some ⟨twoColumns, List.replicate 1025 twoColumnRow⟩) := by
  have fresh : (ColumnarRowGroupCache.new 4).inner.contains 0 ⟨"f", 0⟩ = false := rfl
  obtain ⟨s', loaded⟩ := loadRowGroup_of_written fresh (copies_written 1025) 1
  have nonempty : List.replicate 1025 twoColumnRow ≠ [] := fun none' => by
    have length := congrArg List.length none'
    rw [List.length_replicate] at length
    cases length
  have reads := getAsBatch_resident (batched_roundTrips _) (batched_cutsAt _)
    (show (copiesTable 1025).batches[0]? = some ⟨twoColumns, List.replicate 1025 twoColumnRow⟩ from rfl)
    nonempty (copies_written 1025) (loadRowGroup_fresh fresh loaded).2 2
  rw [List.take_replicate] at reads
  refine ⟨s', loaded, reads, fun same => ?_⟩
  have rows := congrArg RecordBatch.numRows (Option.some.inj (Except.ok.inj (reads.symm.trans same)))
  unfold RecordBatch.numRows at rows
  rw [List.length_replicate, List.length_replicate] at rows
  cases rows

end OxiStore.Caching
