/-
**`BlobCache`.**
-/

import OxiStore.Blob.Memory
import OxiStore.Cache.CacheableRaces

namespace OxiStore.Caching

open ByteString StepProg Fallible Race

/-! ### The store -/

structure BlobCacheStats where
  hits : UInt64
  misses : UInt64

namespace BlobCacheStats

def hit (stats : BlobCacheStats) : BlobCacheStats := { stats with hits := stats.hits + 1 }

def miss (stats : BlobCacheStats) : BlobCacheStats := { stats with misses := stats.misses + 1 }

end BlobCacheStats

structure BlobCache where
  cache : Clocked (LruCache String Bytes)
  stats : BlobCacheStats

def BlobCache.new (capacity : ℕ) (ticks : ℕ → Instant) : BlobCache := ⟨⟨LruCache.new capacity, ticks⟩, ⟨0, 0⟩⟩

variable {ι S α : Type}

def onCache (access : Clocked (LruCache String Bytes) → α × Clocked (LruCache String Bytes)) :
    BlobCall (S × BlobCache) α :=
  .atomic fun s => (.ok (access s.2.cache).1, s.1, { s.2 with cache := (access s.2.cache).2 })

def count (change : BlobCacheStats → BlobCacheStats) : BlobCall (S × BlobCache) Unit :=
  .atomic fun s => (.ok (), s.1, { s.2 with stats := change s.2.stats })

def blobCache (inner : BlobStore S) : BlobStore (S × BlobCache) where
  get key := do
    match ← onCache (Clocked.timed fun now => LruCache.get now key) with
    | some cached => do
        count .hit
        pure cached
    | none => do
        count .miss
        let data ← (inner.get key).onFst
        let _ ← onCache (Clocked.untimed (LruCache.put key data))
        pure data
  put key data := do
    let _ ← onCache (Clocked.untimed (LruCache.remove key))
    (inner.put key data).onFst
  delete key := do
    let _ ← onCache (Clocked.untimed (LruCache.remove key))
    (inner.delete key).onFst
  head key := (inner.head key).onFst
  list start := (inner.list start).onFst

/-! ### Calls on one key -/

section

variable (inner : BlobStore S) (key : String)

def blobCall : KeyOp → BlobCall (S × BlobCache) (Option Bytes)
  | .get => some <$> (blobCache inner).get key
  | .put data => (fun _ => none) <$> (blobCache inner).put key data
  | .delete => (fun _ => none) <$> (blobCache inner).delete key

def countHit (cached : Bytes) : BlobCall (S × BlobCache) (Option Bytes) := do
  count .hit
  pure (some cached)

def fillBlob (data : Bytes) : BlobCall (S × BlobCache) (Option Bytes) := do
  let _ ← onCache (Clocked.untimed (LruCache.put key data))
  pure (some data)

def fetchBlob : BlobCall (S × BlobCache) (Option Bytes) := do
  let data ← (inner.get key).onFst
  fillBlob key data

def countMiss : BlobCall (S × BlobCache) (Option Bytes) := do
  count .miss
  fetchBlob inner key

def writeBlob : KeyOp → BlobCall (S × BlobCache) (Option Bytes)
  | .get => pure none
  | .put data => (fun _ => none) <$> (inner.put key data).onFst
  | .delete => (fun _ => none) <$> (inner.delete key).onFst

abbrev BlobCallers (ι S : Type) : Type := Race ι (S × BlobCache) (Except BlobError (Option Bytes))

def blobCallers (ops : ι → KeyOp) (s : S × BlobCache) : BlobCallers ι S :=
  .start (fun i => (blobCall inner key (ops i)).prog) s

theorem prog_blobGet : ∃ next, (blobCall inner key .get).prog = .step next (fun s => (s.1,
      { s.2 with cache := (s.2.cache.timed fun now => LruCache.get now key).2 })) ∧
    (∀ s cached, (LruCache.get (s.2.cache.ticks 0) key s.2.cache.cache).1 = some cached →
      next s = (countHit cached).prog) ∧
    ∀ s, (LruCache.get (s.2.cache.ticks 0) key s.2.cache.cache).1 = none →
      next s = (countMiss inner key).prog := by
  obtain ⟨finish, text, hit, miss⟩ : ∃ finish : Option Bytes → BlobCall (S × BlobCache) (Option Bytes),
      blobCall inner key .get = onCache (Clocked.timed fun now => LruCache.get now key) >>= finish ∧
        (∀ cached, finish (some cached) = countHit cached) ∧ finish none = countMiss inner key := by
    refine ⟨_, map_bind _ _ _, fun cached => ?_, ?_⟩
    · exact (map_bind _ _ _).trans rfl
    · simp only [map_bind, map_pure]
      rfl
  rw [text]
  refine ⟨fun s => (finish (LruCache.get (s.2.cache.ticks 0) key s.2.cache.cache).1).prog, rfl,
    fun s cached found => ?_, fun s missing => ?_⟩
  · show (finish (LruCache.get (s.2.cache.ticks 0) key s.2.cache.cache).1).prog = _
    rw [found, hit]
  · show (finish (LruCache.get (s.2.cache.ticks 0) key s.2.cache.cache).1).prog = _
    rw [missing, miss]

theorem prog_countHit (cached : Bytes) : (countHit cached : BlobCall (S × BlobCache) (Option Bytes)).prog =
    .step (fun _ => .pure (.ok (some cached))) (fun s => (s.1, { s.2 with stats := s.2.stats.hit })) := rfl

theorem prog_countMiss : (countMiss inner key).prog = .step (fun _ => (fetchBlob inner key).prog)
    (fun s => (s.1, { s.2 with stats := s.2.stats.miss })) := rfl

theorem prog_fillBlob (data : Bytes) : (fillBlob key data : BlobCall (S × BlobCache) (Option Bytes)).prog =
    .step (fun _ => .pure (.ok (some data)))
      (fun s => (s.1, { s.2 with cache := (s.2.cache.untimed (LruCache.put key data)).2 })) := rfl

theorem prog_blobWrite {op : KeyOp} (writes : op ≠ .get) : (blobCall inner key op).prog =
    .step (fun _ => (writeBlob inner key op).prog)
      (fun s => (s.1, { s.2 with cache := (s.2.cache.untimed (LruCache.remove key)).2 })) := by
  cases op with
  | get => exact absurd rfl writes
  | put data | delete => exact congrArg prog (map_bind _ _ _)

variable {inner} {contents : S → Blobs} (like : inner.MapLike contents)

include like in
theorem prog_fetchBlob : ∃ next, (fetchBlob inner key).prog = .step next id ∧
    (∀ s data, (contents s.1)[key]? = some data → next s = (fillBlob key data).prog) ∧
    ∀ s, (contents s.1)[key]? = none → ∃ name, next s = .pure (.error (.notFound name)) := by
  obtain ⟨look, same, answers⟩ := like.get key
  have text : fetchBlob inner key =
      atomic (fun s : S × BlobCache => (look s.1, s)) >>= fillBlob key := by
    unfold fetchBlob
    rw [same]
    rfl
  rw [text, prog_atomic_bind]
  refine ⟨_, rfl, fun s data present => ?_, fun s absent => ?_⟩
  · simp only [(answers s.1).of_some present]
    rfl
  · obtain ⟨name, answer⟩ := (answers s.1).of_none absent
    simp only [answer]
    exact ⟨name, rfl⟩

include like in
theorem prog_writeBlob {op : KeyOp} (writes : op ≠ .get) :
    ∃ outcome : S → Except BlobError Unit × S, (writeBlob inner key op).prog =
      .step (fun s => .pure ((outcome s.1).1.map fun _ => none)) (fun s => ((outcome s.1).2, s.2)) := by
  cases op with
  | get => exact absurd rfl writes
  | put data =>
    obtain ⟨outcome, same, _⟩ := like.put key data
    refine ⟨outcome, ?_⟩
    rw [writeBlob, same, onFst_atomic, map_eq_pure_bind, prog_atomic_map]
  | delete =>
    obtain ⟨outcome, same, _⟩ := like.delete key
    refine ⟨outcome, ?_⟩
    rw [writeBlob, same, onFst_atomic, map_eq_pure_bind, prog_atomic_map]

end

/-! ### Turns -/

section

variable [DecidableEq ι] (inner : BlobStore S) (contents : S → Blobs) (key : String)

def heldOf (race : BlobCallers ι S) : Option (CacheEntry Bytes) := race.state.2.cache.cache.map.get key

def currentOf (race : BlobCallers ι S) : Option Bytes := (contents race.state.1)[key]?

inductive BlobPosition (op : KeyOp) (moved : Prop)
    (thread : Prog (S × BlobCache) (Except BlobError (Option Bytes))) : Prop where
  | waiting (fresh : ¬ moved) (program : thread = (blobCall inner key op).prog)
  | hitting (started : moved) {cached : Bytes} (program : thread = (countHit cached).prog)
  | missing (started : moved) (program : thread = (countMiss inner key).prog)
  | fetching (started : moved) (program : thread = (fetchBlob inner key).prog)
  | filling (started : moved) {data : Bytes} (program : thread = (fillBlob key data).prog)
  | writing (started : moved) (writes : op ≠ .get) (program : thread = (writeBlob inner key op).prog)
  | done (started : moved) {result : Except BlobError (Option Bytes)} (program : thread = .pure result)

/-- **A fill is of what the store has, and a change of the store finds the key not held.** -/
structure Prompt (race : BlobCallers ι S) (i : ι) : Prop where
  fills : ∀ data, race.thread i = (fillBlob key data).prog → currentOf contents key race = some data
  changes : currentOf contents key (race.step i).2 ≠ currentOf contents key race → heldOf key race = none

/-- **The calls on the way**: what the cache holds of the key is what the store has. -/
structure BlobsMirrored (ops : ι → KeyOp) (race : BlobCallers ι S) : Prop where
  positions : ∀ i, BlobPosition inner key (ops i) (i ∈ race.moved) (race.thread i)
  mirrored : ∀ held, heldOf key race = some held → currentOf contents key race = some held.value

inductive BlobTurn (race : BlobCallers ι S) (i : ι) : Prop where
  /-- The store is as it was, and the cache holds nothing new. -/
  | quiet (same : currentOf contents key (race.step i).2 = currentOf contents key race)
      (fewer : ∀ held, heldOf key (race.step i).2 = some held → heldOf key race = some held)
  /-- A `get` puts into the cache what it has read. -/
  | filled {data : Bytes} (program : race.thread i = (fillBlob key data).prog)
      (same : currentOf contents key (race.step i).2 = currentOf contents key race)
      (put : heldOf key (race.step i).2 = some (.new data))
  /-- A write reaches the store. -/
  | wrote (same : heldOf key (race.step i).2 = heldOf key race)

variable {inner contents key} {ops : ι → KeyOp} {race : BlobCallers ι S} {i : ι}

theorem BlobTurn.of_untouched (store : (race.step i).2.state.1 = race.state.1)
    (cache : (race.step i).2.state.2.cache = race.state.2.cache) : BlobTurn contents key race i := by
  refine .quiet ?_ fun held here => ?_
  · unfold currentOf
    rw [store]
  · unfold heldOf at here ⊢
    rwa [cache] at here

theorem blobGet_turn (contents : S → Blobs) (program : race.thread i = (blobCall inner key .get).prog) :
    BlobTurn contents key race i ∧
      ((∃ held, heldOf key race = some held ∧ (race.step i).2.thread i = (countHit held.value).prog) ∨
        (race.step i).2.thread i = (countMiss inner key).prog) := by
  obtain ⟨next, text, hit, miss⟩ := prog_blobGet inner key
  obtain ⟨goes, state⟩ := step_of_step (program.trans text)
  constructor
  · refine .quiet ?_ fun held here => ?_
    · unfold currentOf
      rw [state]
    · unfold heldOf at here ⊢
      rw [state] at here
      exact (lru_lawful.get race.state.2.cache.cache (race.state.2.cache.ticks 0) key trivial).2 key held here
  · cases looked : (LruCache.get (race.state.2.cache.ticks 0) key race.state.2.cache.cache).1 with
    | none => exact Or.inr (goes.trans (miss _ looked))
    | some cached =>
      obtain ⟨held, here, live⟩ := lru_lawful.reads _ _ _ _ trivial (Or.inl looked)
      obtain ⟨_, rfl⟩ := CacheEntry.live_eq_some.mp live
      exact Or.inl ⟨held, here, goes.trans (hit _ _ looked)⟩

theorem countHit_turn (contents : S → Blobs) (key : String) {cached : Bytes}
    (program : race.thread i = (countHit cached).prog) :
    BlobTurn contents key race i ∧ (race.step i).2.thread i = .pure (.ok (some cached)) := by
  obtain ⟨ends, state⟩ := step_of_step (program.trans (prog_countHit cached))
  exact ⟨.of_untouched (by rw [state]) (by rw [state]), ends⟩

theorem countMiss_turn (contents : S → Blobs) (program : race.thread i = (countMiss inner key).prog) :
    BlobTurn contents key race i ∧ (race.step i).2.thread i = (fetchBlob inner key).prog := by
  obtain ⟨goes, state⟩ := step_of_step (program.trans (prog_countMiss inner key))
  exact ⟨.of_untouched (by rw [state]) (by rw [state]), goes⟩

variable (like : inner.MapLike contents)

include like in
theorem fetchBlob_turn (program : race.thread i = (fetchBlob inner key).prog) :
    BlobTurn contents key race i ∧
      ((∃ data, currentOf contents key race = some data ∧
          (race.step i).2.thread i = (fillBlob key data).prog) ∨
        currentOf contents key race = none ∧
          ∃ name, (race.step i).2.thread i = .pure (.error (.notFound name))) := by
  obtain ⟨next, text, found, missing⟩ := prog_fetchBlob key like
  obtain ⟨goes, state⟩ := step_of_step (program.trans text)
  refine ⟨.of_untouched (by rw [state]; rfl) (by rw [state]; rfl), ?_⟩
  cases here : (contents race.state.1)[key]? with
  | none =>
    obtain ⟨name, ends⟩ := missing _ here
    exact Or.inr ⟨here, name, goes.trans ends⟩
  | some data => exact Or.inl ⟨data, here, goes.trans (found _ _ here)⟩

theorem fillBlob_turn (contents : S → Blobs) {data : Bytes}
    (program : race.thread i = (fillBlob key data).prog) :
    BlobTurn contents key race i ∧ (race.step i).2.thread i = .pure (.ok (some data)) := by
  obtain ⟨ends, state⟩ := step_of_step (program.trans (prog_fillBlob key data))
  refine ⟨.filled program ?_ ?_, ends⟩
  · unfold currentOf
    rw [state]
  · unfold heldOf
    rw [state]
    exact lru_insertEntry_self key (.new data) race.state.2.cache.cache

theorem dropBlob_turn {op : KeyOp} (writes : op ≠ .get)
    (program : race.thread i = (blobCall inner key op).prog) :
    BlobTurn contents key race i ∧ (race.step i).2.thread i = (writeBlob inner key op).prog := by
  obtain ⟨goes, state⟩ := step_of_step (program.trans (prog_blobWrite inner key writes))
  refine ⟨.quiet ?_ fun held here => ?_, goes⟩
  · unfold currentOf
    rw [state]
  · unfold heldOf at here
    rw [state] at here
    cases (LinkedMap.get_erase_self race.state.2.cache.cache.map key).symm.trans here

include like

theorem writeBlob_turn {op : KeyOp} (writes : op ≠ .get)
    (program : race.thread i = (writeBlob inner key op).prog) :
    BlobTurn contents key race i ∧ ∃ result, (race.step i).2.thread i = .pure result := by
  obtain ⟨outcome, text⟩ := prog_writeBlob key like writes
  obtain ⟨ends, state⟩ := step_of_step (program.trans text)
  refine ⟨.wrote ?_, _, ends⟩
  unfold heldOf
  rw [state]

theorem BlobsMirrored.turn (mirrored : BlobsMirrored inner contents key ops race) (i : ι) :
    BlobTurn contents key race i ∧
      BlobPosition inner key (ops i) (i ∈ (race.step i).2.moved) ((race.step i).2.thread i) := by
  have started : i ∈ (race.step i).2.moved := race.mem_moved_step.mpr (Or.inl rfl)
  cases mirrored.positions i with
  | waiting fresh program =>
    by_cases gets : ops i = .get
    · rw [gets] at program
      obtain ⟨turn, ⟨_, _, goes⟩ | goes⟩ := blobGet_turn contents program
      · exact ⟨turn, .hitting started goes⟩
      · exact ⟨turn, .missing started goes⟩
    · obtain ⟨turn, goes⟩ := dropBlob_turn gets program
      exact ⟨turn, .writing started gets goes⟩
  | hitting _ program =>
    obtain ⟨turn, ends⟩ := countHit_turn contents key program
    exact ⟨turn, .done started ends⟩
  | missing _ program =>
    obtain ⟨turn, goes⟩ := countMiss_turn contents program
    exact ⟨turn, .fetching started goes⟩
  | fetching _ program =>
    obtain ⟨turn, ⟨_, _, goes⟩ | ⟨_, _, ends⟩⟩ := fetchBlob_turn like program
    · exact ⟨turn, .filling started goes⟩
    · exact ⟨turn, .done started ends⟩
  | filling _ program =>
    obtain ⟨turn, ends⟩ := fillBlob_turn contents program
    exact ⟨turn, .done started ends⟩
  | writing _ writes program =>
    obtain ⟨turn, _, ends⟩ := writeBlob_turn like writes program
    exact ⟨turn, .done started ends⟩
  | done _ program =>
    obtain ⟨threads, state⟩ := step_of_pure program
    exact ⟨.of_untouched (by rw [state]) (by rw [state]), .done started ((threads i).trans program)⟩

theorem BlobsMirrored.step (mirrored : BlobsMirrored inner contents key ops race)
    (prompt : Prompt contents key race i) :
    BlobsMirrored inner contents key ops (race.step i).2 := by
  obtain ⟨turn, own⟩ := mirrored.turn like i
  constructor
  · intro j
    by_cases mine : j = i
    · subst mine
      exact own
    · rw [race.thread_step_other mine, race.mem_moved_step, or_iff_right mine]
      exact mirrored.positions j
  · intro held here
    cases turn with
    | quiet same fewer =>
      rw [same]
      exact mirrored.mirrored held (fewer held here)
    | filled program same put =>
      cases put.symm.trans here
      rw [same]
      exact prompt.fills _ program
    | wrote same =>
      rw [same] at here
      by_cases changes : currentOf contents key (race.step i).2 = currentOf contents key race
      · rw [changes]
        exact mirrored.mirrored held here
      · cases (prompt.changes changes).symm.trans here

end

/-! ### Readers -/

section

variable [DecidableEq ι] (inner : BlobStore S) (contents : S → Blobs) (key : String) (ops : ι → KeyOp)

def blobCallersAfter (s : S × BlobCache) (schedule : List ι) : BlobCallers ι S :=
  afterRun Race.step (blobCallers inner key ops s) schedule

inductive BlobReaderAt (current : Option Bytes) (turns : ℕ)
    (thread : Prog (S × BlobCache) (Except BlobError (Option Bytes))) : Prop where
  | waiting (program : thread = (blobCall inner key .get).prog) (few : turns = 0)
  | hitting {cached : Bytes} (program : thread = (countHit cached).prog) (found : current = some cached)
      (few : turns ≤ 1)
  | missing (program : thread = (countMiss inner key).prog) (few : turns ≤ 1)
  | fetching (program : thread = (fetchBlob inner key).prog) (few : turns ≤ 2)
  | filling {data : Bytes} (program : thread = (fillBlob key data).prog) (read : current = some data)
      (few : turns ≤ 3)
  | done {result : Except BlobError (Option Bytes)} (program : thread = .pure result)
      (answers : Answers some current result)

structure BlobReading (current : Option Bytes) (j : ι) (race : BlobCallers ι S) : Prop where
  mirrored : BlobsMirrored inner contents key ops race
  shows : currentOf contents key race = current
  reader : BlobReaderAt inner key current (race.moved.count j) (race.thread j)

variable {inner contents key ops} {race : BlobCallers ι S} {i j : ι} {current : Option Bytes}

omit [DecidableEq ι] in
theorem BlobsMirrored.thread_of_fresh (mirrored : BlobsMirrored inner contents key ops race)
    (fresh : i ∉ race.moved) : race.thread i = (blobCall inner key (ops i)).prog := by
  cases mirrored.positions i with
  | waiting _ program => exact program
  | hitting started | missing started | fetching started | filling started | writing started
  | done started => exact absurd started fresh

variable (reading : BlobReading inner contents key ops current j race)

include reading

theorem BlobReading.turn (like : inner.MapLike contents) :
    BlobReaderAt inner key current (race.moved.count j + 1) ((race.step j).2.thread j) := by
  have shows := reading.shows
  cases reading.reader with
  | waiting program few =>
    rcases (blobGet_turn contents program).2 with ⟨held, here, goes⟩ | goes
    · exact .hitting goes (shows.symm.trans (reading.mirrored.mirrored held here)) (by omega)
    · exact .missing goes (by omega)
  | hitting program found _ =>
    subst found
    exact .done (countHit_turn contents key program).2 (.found _)
  | missing program few => exact .fetching (countMiss_turn contents program).2 (by omega)
  | fetching program few =>
    rcases (fetchBlob_turn like program).2 with ⟨data, here, goes⟩ | ⟨absent, name, ends⟩
    · exact .filling goes (shows.symm.trans here) (by omega)
    · rw [shows] at absent
      subst absent
      exact .done ends (.missing name)
  | filling program read _ =>
    subst read
    exact .done (fillBlob_turn contents program).2 (.found _)
  | done program answers => exact .done (((step_of_pure program).1 j).trans program) answers

theorem BlobReading.step (like : inner.MapLike contents) (prompt : Prompt contents key race i)
    (same : currentOf contents key (race.step i).2 = currentOf contents key race) :
    BlobReading inner contents key ops current j (race.step i).2 := by
  refine ⟨reading.mirrored.step like prompt, same.trans reading.shows, ?_⟩
  by_cases mine : j = i
  · subst mine
    rw [show (race.step j).2.moved.count j = race.moved.count j + 1 from List.count_cons_self]
    exact reading.turn like
  · rw [race.thread_step_other mine,
      show (race.step i).2.moved.count j = race.moved.count j from List.count_cons_of_ne (Ne.symm mine)]
    exact reading.reader

theorem BlobReading.returns (like : inner.MapLike contents) :
    (∀ result, race.returned j = some result → Answers some current result) ∧
      (4 ≤ race.moved.count j → ∃ result, race.returned j = some result) := by
  have running : ∀ {next update}, race.thread j = .step next update → race.moved.count j ≤ 3 →
      (∀ result, race.returned j = some result → Answers some current result) ∧
        (4 ≤ race.moved.count j → ∃ result, race.returned j = some result) := by
    intro next update program few
    rw [returned_of_step program]
    exact ⟨nofun, by omega⟩
  cases reading.reader with
  | waiting program few =>
    obtain ⟨_, text, _⟩ := prog_blobGet inner key
    exact running (program.trans text) (by omega)
  | hitting program _ few => exact running (program.trans (prog_countHit _)) (by omega)
  | missing program few => exact running (program.trans (prog_countMiss inner key)) (by omega)
  | fetching program few =>
    obtain ⟨_, text, _⟩ := prog_fetchBlob key like
    exact running (program.trans text) (by omega)
  | filling program _ few => exact running (program.trans (prog_fillBlob key _)) few
  | done program answers =>
    rw [returned_of_pure program]
    refine ⟨fun result same => ?_, fun _ => ⟨_, rfl⟩⟩
    cases same
    exact answers

omit reading

omit [DecidableEq ι] in
theorem mirrored_blobCallers {s : S × BlobCache}
    (cached : ∀ held, s.2.cache.cache.map.get key = some held → (contents s.1)[key]? = some held.value) :
    BlobsMirrored inner contents key ops (blobCallers inner key ops s) where
  positions _ := .waiting List.not_mem_nil rfl
  mirrored := cached

/-- **A `get` returns what the store has**, if nobody has changed that since the `get` began, in every run
whose turns are prompt; and it does return, after four turns of its own. -/
theorem blobCache_get_reads_current (like : inner.MapLike contents) {s : S × BlobCache}
    (cached : ∀ held, s.2.cache.cache.map.get key = some held → (contents s.1)[key]? = some held.value)
    {before after : List ι}
    (prompt : AlongRun Race.step (Prompt contents key) (blobCallers inner key ops s) (before ++ after))
    (gets : ops j = .get) (later : j ∉ (blobCallersAfter inner key ops s before).moved)
    (last : AlongRun Race.step
      (fun race i => currentOf contents key (race.step i).2 = currentOf contents key race)
      (blobCallersAfter inner key ops s before) after) :
    (∀ result, (blobCallersAfter inner key ops s (before ++ after)).returned j = some result →
        Answers some (currentOf contents key (blobCallersAfter inner key ops s (before ++ after))) result) ∧
      (4 ≤ (blobCallersAfter inner key ops s (before ++ after)).moved.count j →
        ∃ result, (blobCallersAfter inner key ops s (before ++ after)).returned j = some result) := by
  obtain ⟨promptBefore, promptAfter⟩ := alongRun_append.mp prompt
  have mirrored : BlobsMirrored inner contents key ops (blobCallersAfter inner key ops s before) :=
    afterRun_invariant (fun _ _ mirrored prompt => mirrored.step like prompt) (mirrored_blobCallers cached)
      promptBefore
  have start : BlobReading inner contents key ops _ j (blobCallersAfter inner key ops s before) :=
    ⟨mirrored, rfl, .waiting (gets ▸ mirrored.thread_of_fresh later) (List.count_eq_zero_of_not_mem later)⟩
  have reading := afterRun_invariant (fun _ _ reading turn => reading.step like turn.1 turn.2) start
    (promptAfter.and last)
  have onwards : blobCallersAfter inner key ops s (before ++ after) =
      afterRun Race.step (blobCallersAfter inner key ops s before) after := afterRun_append _ _ before after
  rw [onwards, reading.shows]
  exact reading.returns like

end

theorem blobCache_get_reads_overlapping_put : ∃ after, after = blobCallersAfter Memory.store "k"
      ![.put [11], .get, .get] (Memory.stored Memory.new "k" [10], BlobCache.new 2 fun _ => 0) ∧
    (after ([0, 1, 1, 0] ++ [2, 1, 2, 1, 2, 2])).returned 1 = some (.ok (some [11])) ∧
    Answers some (currentOf MemoryState.map "k" (after ([0, 1, 1, 0] ++ [2, 1, 2, 1, 2, 2])))
      (.ok (some [11])) := by
  refine ⟨_, rfl, rfl, (blobCache_get_reads_current Memory.mapLike (fun held here => ?_) ?_ rfl ?_ ?_).1 _
    (show returned _ 2 = _ from rfl)⟩
  · cases here
  · -- A fill returns at its turn: here only the two that put what was read, after the write.
    refine ⟨⟨fun data same => ?_, ?_⟩, ⟨fun data same => ?_, ?_⟩, ⟨fun data same => ?_, ?_⟩,
      ⟨fun data same => ?_, ?_⟩, ⟨fun data same => ?_, ?_⟩, ⟨fun data same => ?_, ?_⟩,
      ⟨fun data same => ?_, ?_⟩, ⟨fun data same => ?_, ?_⟩, ⟨fun data same => ?_, ?_⟩,
      ⟨fun data same => ?_, ?_⟩, trivial⟩
    all_goals first
      | exact fun _ => rfl
      | exact fun changes => absurd rfl changes
      | cases returned_of_pure (fillBlob_turn MemoryState.map same).2
    all_goals rfl
  · decide
  · exact ⟨rfl, rfl, rfl, rfl, rfl, rfl, trivial⟩

theorem blobCache_get_reads_older : ∃ after, after = blobCallersAfter Memory.store "k"
      ![.put [11], .get, .get] (Memory.stored Memory.new "k" [10], BlobCache.new 2 fun _ => 0) ∧
    (after [0, 1, 1, 1, 1, 0]).returned 0 = some (.ok none) ∧ 2 ∉ (after [0, 1, 1, 1, 1, 0]).moved ∧
    currentOf MemoryState.map "k" (after [0, 1, 1, 1, 1, 0]) = some [11] ∧
    currentOf MemoryState.map "k" (after ([0, 1, 1, 1, 1, 0] ++ [2, 2])) = some [11] ∧
    (after ([0, 1, 1, 1, 1, 0] ++ [2, 2])).returned 2 = some (.ok (some [10])) :=
  ⟨_, rfl, rfl, by decide, rfl, rfl, rfl⟩

end OxiStore.Caching
