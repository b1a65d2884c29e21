/-
**Races on a `CacheableKvStore`.**
-/

import OxiStore.Lib.Race
import OxiStore.Cache.CacheableKv

namespace OxiStore.Caching

open ByteString StepProg Race

variable {S T N σ ι : Type}

/-! ### Calls on one key -/

/-- **A store whose calls are single steps**, on the map that it holds. -/
structure AtomicMap (kv : KvStore S T N) (contents : S → Contents) : Prop where
  get : ∀ key, kv.get key = Call.read fun s => (contents s)[key]?
  put : ∀ key value, ∃ update, kv.put key value = Call.write update ∧
    ∀ s, contents (update s) = (contents s).insert key value
  delete : ∀ key, ∃ update, kv.delete key = Call.write update ∧
    ∀ s, contents (update s) = (contents s).erase key

theorem plain_atomicMap : AtomicMap plainKv id :=
  ⟨fun _ => rfl, fun _ _ => ⟨_, rfl, fun _ => rfl⟩, fun _ => ⟨_, rfl, fun _ => rfl⟩⟩

inductive KeyOp where
  | get
  | put (value : Bytes)
  | delete

abbrev Callers (ι S σ : Type) : Type := Race ι (S × Clocked σ) (Except StoreError (Option Bytes))

def KeyOp.written : KeyOp → Option (Option Bytes)
  | .get => none
  | .put value => some (some value)
  | .delete => some none

section

variable (kv : KvStore S T N) (cache : Cache Bytes Bytes σ) (key : Bytes)

def KeyOp.call : KeyOp → Call (S × Clocked σ) (Option Bytes)
  | .get => (cacheableKv kv cache).get key
  | .put value => (fun _ => none) <$> (cacheableKv kv cache).put key value
  | .delete => (fun _ => none) <$> (cacheableKv kv cache).delete key

def fill (value : Bytes) : Call (S × Clocked σ) (Option Bytes) := do
  let _ ← Call.beside (Clocked.untimed (cache.put key value))
  pure (some value)

def fetch : Call (S × Clocked σ) (Option Bytes) := do
  match ← Call.onStore (kv.get key) with
  | some value => fill cache key value
  | none => pure none

def dropKey : Call (S × Clocked σ) (Option Bytes) := do
  let _ ← Call.beside (Clocked.untimed (cache.remove key))
  pure none

def callers (ops : ι → KeyOp) (s : S × Clocked σ) : Callers ι S σ :=
  .start (fun i => ((ops i).call kv cache key).prog) s

theorem prog_get : ∃ next, (KeyOp.get.call kv cache key).prog =
      .step next (fun s => (s.1, (s.2.timed fun now => cache.get now key).2)) ∧
    (∀ s value, (cache.get (s.2.ticks 0) key s.2.cache).1 = some value → next s = .pure (.ok (some value))) ∧
    ∀ s, (cache.get (s.2.ticks 0) key s.2.cache).1 = none → next s = (fetch kv cache key).prog := by
  obtain ⟨finish, text, hit, miss⟩ : ∃ finish : Option Bytes → Call (S × Clocked σ) (Option Bytes),
      KeyOp.get.call kv cache key = Call.beside (Clocked.timed fun now => cache.get now key) >>= finish ∧
        (∀ value, finish (some value) = pure (some value)) ∧ finish none = fetch kv cache key :=
    ⟨_, rfl, fun _ => rfl, rfl⟩
  rw [text]
  refine ⟨fun s => (finish (cache.get (s.2.ticks 0) key s.2.cache).1).prog, rfl, fun s value found => ?_,
    fun s missing => ?_⟩
  · show (finish (cache.get (s.2.ticks 0) key s.2.cache).1).prog = _
    rw [found, hit]
    rfl
  · show (finish (cache.get (s.2.ticks 0) key s.2.cache).1).prog = _
    rw [missing, miss]

variable {kv} {contents : S → Contents} (atomic : AtomicMap kv contents)

include atomic in
theorem prog_fetch : ∃ next, (fetch kv cache key).prog = .step next id ∧
    (∀ s value, (contents s.1)[key]? = some value → next s = (fill cache key value).prog) ∧
    ∀ s, (contents s.1)[key]? = none → next s = .pure (.ok none) := by
  obtain ⟨finish, text, found, missing⟩ : ∃ finish : Option Bytes → Call (S × Clocked σ) (Option Bytes),
      fetch kv cache key = Call.onStore (kv.get key) >>= finish ∧
        (∀ value, finish (some value) = fill cache key value) ∧ finish none = pure none :=
    ⟨_, rfl, fun _ => rfl, rfl⟩
  rw [text, atomic.get]
  refine ⟨fun s => (finish (contents s.1)[key]?).prog, rfl, fun s value here => ?_, fun s absent => ?_⟩
  · show (finish (contents s.1)[key]?).prog = _
    rw [here, found]
  · show (finish (contents s.1)[key]?).prog = _
    rw [absent, missing]
    rfl

theorem prog_fill (value : Bytes) : (fill cache key value : Call (S × Clocked σ) (Option Bytes)).prog =
    .step (fun _ => .pure (.ok (some value))) (fun s => (s.1, (s.2.untimed (cache.put key value)).2)) := rfl

theorem prog_dropKey : (dropKey cache key : Call (S × Clocked σ) (Option Bytes)).prog =
    .step (fun _ => .pure (.ok none)) (fun s => (s.1, (s.2.untimed (cache.remove key)).2)) := rfl

include atomic in
theorem prog_write {op : KeyOp} {written : Option Bytes} (writes : op.written = some written) :
    ∃ update : S → S, (op.call kv cache key).prog =
        .step (fun _ => (dropKey cache key).prog) (fun s => (update s.1, s.2)) ∧
      ∀ s, (contents (update s))[key]? = written := by
  cases op with
  | get => cases writes
  | put value =>
    cases writes
    obtain ⟨update, same, effect⟩ := atomic.put key value
    refine ⟨update, ?_, fun s => ?_⟩
    · show Call.prog ((fun _ => none) <$> (do
        Call.onStore (kv.put key value)
        let _ ← Call.beside (Clocked.untimed (cache.remove key)))) = _
      rw [same]
      rfl
    · rw [effect, OrdTable.get_insert, if_pos rfl]
  | delete =>
    cases writes
    obtain ⟨update, same, effect⟩ := atomic.delete key
    refine ⟨update, ?_, fun s => ?_⟩
    · show Call.prog ((fun _ => none) <$> (do
        Call.onStore (kv.delete key)
        let _ ← Call.beside (Clocked.untimed (cache.remove key)))) = _
      rw [same]
      rfl
    · rw [effect, OrdTable.get_erase, if_pos rfl]

end

/-! ### The last write -/

section

variable [DecidableEq ι] {ρ : Type} (ops : ι → KeyOp)

def lastWriter : List ι → Option ι
  | [] => none
  | i :: earlier => if i ∉ earlier ∧ (ops i).written.isSome then some i else lastWriter earlier

def StartsWrite (race : Race ι S ρ) (i : ι) : Prop := i ∉ race.moved ∧ (ops i).written.isSome

def Settled (race : Race ι S ρ) : Prop := ∃ w, lastWriter ops race.moved = some w ∧ race.returned w ≠ none

variable {ops} {race : Race ι S ρ} {i : ι}

theorem lastWriter_writes {moved : List ι} {w : ι} (last : lastWriter ops moved = some w) :
    (ops w).written.isSome := by
  induction moved with
  | nil => cases last
  | cons i earlier ih =>
    rw [lastWriter] at last
    split_ifs at last with starts
    · cases last
      exact starts.2
    · exact ih last

theorem lastWriter_step_self (starts : StartsWrite ops race i) :
    lastWriter ops (race.step i).2.moved = some i := if_pos starts

theorem lastWriter_step (goesOn : ¬ StartsWrite ops race i) :
    lastWriter ops (race.step i).2.moved = lastWriter ops race.moved := if_neg goesOn

theorem settled_of_step (goesOn : ¬ StartsWrite ops race i)
    (same : ∀ w, (ops w).written.isSome → (race.step i).2.returned w = race.returned w)
    (settled : Settled ops (race.step i).2) : Settled ops race := by
  obtain ⟨w, last, returned⟩ := settled
  rw [lastWriter_step goesOn] at last
  rw [same w (lastWriter_writes last)] at returned
  exact ⟨w, last, returned⟩

theorem settled_of_get (gets : ops i = .get) (settled : Settled ops (race.step i).2) : Settled ops race := by
  have reads : ¬ (ops i).written.isSome := by
    rw [gets]
    exact Bool.false_ne_true
  refine settled_of_step (fun starts => reads starts.2) (fun w writes => ?_) settled
  have other : w ≠ i := by
    rintro rfl
    exact reads writes
  exact returned_step_other race other

end

/-! ### Turns -/

section

variable [DecidableEq ι] (kv : KvStore S T N) (cache : Cache Bytes Bytes σ) (key : Bytes)

inductive Position (op : KeyOp) (moved : Prop)
    (thread : Prog (S × Clocked σ) (Except StoreError (Option Bytes))) : Prop where
  | waiting (fresh : ¬ moved) (program : thread = (op.call kv cache key).prog)
  | fetching (started : moved) (gets : op = .get) (program : thread = (fetch kv cache key).prog)
  | filling (started : moved) (gets : op = .get) {value : Bytes}
      (program : thread = (fill cache key value).prog)
  | dropping (started : moved) (program : thread = (dropKey cache key).prog)
  | done (started : moved) {result : Except StoreError (Option Bytes)} (program : thread = .pure result)

/-- **The store is as it was, and the cache holds nothing new.** -/
structure Fewer (valid : σ → Prop) (entry : σ → Ledger Bytes Bytes) (s s' : S × Clocked σ) : Prop where
  store : s'.1 = s.1
  valid : valid s'.2.cache
  below : Below (entry s'.2.cache) (entry s.2.cache)

variable (contents : S → Contents) (valid : σ → Prop) (entry : σ → Ledger Bytes Bytes) (ops : ι → KeyOp)

def Timely (race : Callers ι S σ) (i : ι) : Prop :=
  ∀ value, race.thread i = (fill cache key value).prog →
    (contents race.state.1)[key]? = some value ∨ ¬ Settled ops race

/-- **The calls on the way**: if the last write has returned, what the cache holds is current. -/
structure Kept (race : Callers ι S σ) : Prop where
  positions : ∀ i, Position kv cache key (ops i) (i ∈ race.moved) (race.thread i)
  valid : valid race.state.2.cache
  mirrored : Settled ops race → ∀ held, entry race.state.2.cache key = some held →
    (contents race.state.1)[key]? = some held.value

inductive CallerTurn (race : Callers ι S σ) (i : ι) : Prop where
  /-- A `get` looks into the cache, or reads the store. -/
  | looked (gets : ops i = .get) (fewer : Fewer valid entry race.state (race.step i).2.state)
  /-- A `get` puts into the cache what it has read. -/
  | filled (gets : ops i = .get) {value : Bytes} (program : race.thread i = (fill cache key value).prog)
      (store : (race.step i).2.state.1 = race.state.1) (valid : valid (race.step i).2.state.2.cache)
      (below : Below (entry (race.step i).2.state.2.cache)
        (Function.update (entry race.state.2.cache) key (some (.new value))))
  /-- A write reaches the store. -/
  | wrote (starts : StartsWrite ops race i) (running : (race.step i).2.returned i = none)
      (cache : (race.step i).2.state.2 = race.state.2)
  /-- A write drops the key from the cache. -/
  | dropped (moved : i ∈ race.moved) (store : (race.step i).2.state.1 = race.state.1)
      (valid : valid (race.step i).2.state.2.cache) (free : entry (race.step i).2.state.2.cache key = none)
  /-- The call has returned before. -/
  | idle (moved : i ∈ race.moved) (threads : ∀ j, (race.step i).2.thread j = race.thread j)
      (state : (race.step i).2.state = race.state)

variable {kv cache key contents valid entry ops} {race : Callers ι S σ} {i : ι}
  (atomic : AtomicMap kv contents) (sound : cache.Sound valid entry)

include sound in
theorem get_turn (held : valid race.state.2.cache)
    (program : race.thread i = (KeyOp.get.call kv cache key).prog) :
    Fewer valid entry race.state (race.step i).2.state ∧
      ((∃ hit, entry race.state.2.cache key = some hit ∧
          (race.step i).2.thread i = .pure (.ok (some hit.value))) ∨
        (race.step i).2.thread i = (fetch kv cache key).prog) := by
  obtain ⟨next, text, hit, miss⟩ := prog_get kv cache key
  obtain ⟨goes, state⟩ := step_of_step (program.trans text)
  rw [state]
  obtain ⟨still, below⟩ := sound.get race.state.2.cache (race.state.2.ticks 0) key held
  refine ⟨⟨rfl, still, below⟩, ?_⟩
  cases looked : (cache.get (race.state.2.ticks 0) key race.state.2.cache).1 with
  | none => exact Or.inr (goes.trans (miss _ looked))
  | some value =>
    obtain ⟨found, here, live⟩ := sound.reads _ _ _ _ held looked
    obtain ⟨_, rfl⟩ := CacheEntry.live_eq_some.mp live
    exact Or.inl ⟨found, here, goes.trans (hit _ _ looked)⟩

include atomic in
theorem fetch_turn (program : race.thread i = (fetch kv cache key).prog) :
    (race.step i).2.state = race.state ∧
      ((∃ value, (contents race.state.1)[key]? = some value ∧
          (race.step i).2.thread i = (fill cache key value).prog) ∨
        (contents race.state.1)[key]? = none ∧ (race.step i).2.thread i = .pure (.ok none)) := by
  obtain ⟨next, text, found, missing⟩ := prog_fetch cache key atomic
  obtain ⟨goes, state⟩ := step_of_step (program.trans text)
  refine ⟨state, ?_⟩
  cases here : (contents race.state.1)[key]? with
  | none => exact Or.inr ⟨rfl, goes.trans (missing _ here)⟩
  | some value => exact Or.inl ⟨value, rfl, goes.trans (found _ _ here)⟩

theorem fill_turn {value : Bytes} (program : race.thread i = (fill cache key value).prog) :
    (race.step i).2.thread i = .pure (.ok (some value)) :=
  (step_of_step (program.trans (prog_fill cache key value))).1

include atomic in
theorem write_turn {written : Option Bytes} (writes : (ops i).written = some written)
    (program : race.thread i = ((ops i).call kv cache key).prog) :
    (race.step i).2.thread i = (dropKey cache key).prog ∧ (race.step i).2.state.2 = race.state.2 ∧
      (contents (race.step i).2.state.1)[key]? = written := by
  obtain ⟨update, text, effect⟩ := prog_write cache key atomic writes
  obtain ⟨goes, state⟩ := step_of_step (program.trans text)
  rw [state]
  exact ⟨goes, rfl, effect race.state.1⟩

include sound in
theorem drop_turn (held : valid race.state.2.cache) (program : race.thread i = (dropKey cache key).prog) :
    (race.step i).2.thread i = .pure (.ok none) ∧ (race.step i).2.state.1 = race.state.1 ∧
      valid (race.step i).2.state.2.cache ∧ entry (race.step i).2.state.2.cache key = none := by
  obtain ⟨ends, state⟩ := step_of_step (program.trans (prog_dropKey cache key))
  obtain ⟨still, below⟩ := sound.remove race.state.2.cache key held
  rw [state]
  refine ⟨ends, rfl, still, Option.eq_none_iff_forall_ne_some.mpr fun found here => ?_⟩
  have gone := below key found here
  simp [Function.update_self] at gone

theorem get_of_written {op : KeyOp} (reads : op.written = none) : op = .get := by
  cases op with
  | get => rfl
  | put value | delete => cases reads

variable (kept : Kept kv cache key contents valid entry ops race)

include kept

include atomic sound in
theorem Kept.turn (i : ι) :
    Position kv cache key (ops i) (i ∈ (race.step i).2.moved) ((race.step i).2.thread i) ∧
      CallerTurn cache key valid entry ops race i := by
  have started : i ∈ (race.step i).2.moved := race.mem_moved_step.mpr (Or.inl rfl)
  cases kept.positions i with
  | waiting fresh program =>
    cases writes : (ops i).written with
    | none =>
      have gets := get_of_written writes
      rw [gets] at program
      obtain ⟨fewer, ⟨_, _, ends⟩ | goes⟩ := get_turn sound kept.valid program
      · exact ⟨.done started ends, .looked gets fewer⟩
      · exact ⟨.fetching started gets goes, .looked gets fewer⟩
    | some written =>
      obtain ⟨goes, same, _⟩ := write_turn atomic writes program
      refine ⟨.dropping started goes, .wrote ⟨fresh, ?_⟩ ?_ same⟩
      · rw [writes]
        rfl
      · exact returned_of_step (goes.trans (prog_dropKey cache key))
  | fetching moved gets program =>
    obtain ⟨state, stage⟩ := fetch_turn atomic program
    have fewer : Fewer valid entry race.state (race.step i).2.state := by
      rw [state]
      exact ⟨rfl, kept.valid, Below.refl _⟩
    rcases stage with ⟨_, _, goes⟩ | ⟨_, ends⟩
    · exact ⟨.filling started gets goes, .looked gets fewer⟩
    · exact ⟨.done started ends, .looked gets fewer⟩
  | @filling moved gets value program =>
    obtain ⟨ends, state⟩ := step_of_step (program.trans (prog_fill cache key value))
    obtain ⟨still, below⟩ := sound.put race.state.2.cache key value kept.valid
    refine ⟨.done started ends, .filled gets program ?_ ?_ ?_⟩
    · rw [state]
    · rw [state]
      exact still
    · rw [state]
      exact below
  | dropping moved program =>
    obtain ⟨ends, store, still, free⟩ := drop_turn sound kept.valid program
    exact ⟨.done started ends, .dropped moved store still free⟩
  | done moved program =>
    obtain ⟨threads, state⟩ := step_of_pure program
    exact ⟨.done started ((threads i).trans program), .idle moved threads state⟩

theorem Kept.positions_step
    (own : Position kv cache key (ops i) (i ∈ (race.step i).2.moved) ((race.step i).2.thread i)) (j : ι) :
    Position kv cache key (ops j) (j ∈ (race.step i).2.moved) ((race.step i).2.thread j) := by
  by_cases mine : j = i
  · subst mine
    exact own
  · rw [race.thread_step_other mine, race.mem_moved_step, or_iff_right mine]
    exact kept.positions j

include atomic sound

theorem Kept.step (timely : Timely cache key contents ops race i) :
    Kept kv cache key contents valid entry ops (race.step i).2 := by
  obtain ⟨own, turn⟩ := kept.turn atomic sound i
  have positions := kept.positions_step own
  cases turn with
  | looked gets fewer =>
    refine ⟨positions, fewer.valid, fun settled held here => ?_⟩
    rw [fewer.store]
    exact kept.mirrored (settled_of_get gets settled) held (fewer.below key held here)
  | filled gets program store still below =>
    refine ⟨positions, still, fun settled held here => ?_⟩
    have put := below key held here
    rw [Function.update_self] at put
    cases put
    rw [store]
    exact (timely _ program).resolve_right fun unsettled => unsettled (settled_of_get gets settled)
  | wrote starts running same =>
    refine ⟨positions, ?_, ?_⟩
    · rw [same]
      exact kept.valid
    · rintro ⟨w, last, returned⟩
      -- The last write is this one, and it has the key still to drop.
      rw [lastWriter_step_self starts] at last
      cases last
      exact absurd running returned
  | dropped _ _ still free =>
    refine ⟨positions, still, fun _ held here => ?_⟩
    rw [free] at here
    cases here
  | idle moved threads state =>
    refine ⟨positions, ?_, fun settled => ?_⟩
    · rw [state]
      exact kept.valid
    · rw [state]
      refine kept.mirrored (settled_of_step (fun starts => starts.1 moved) (fun w _ => ?_) settled)
      rw [returned, threads, returned]

theorem Kept.store_step (goesOn : ¬ StartsWrite ops race i) :
    (race.step i).2.state.1 = race.state.1 := by
  cases (kept.turn atomic sound i).2 with
  | looked _ fewer => exact fewer.store
  | filled _ _ store _ _ => exact store
  | wrote starts _ _ => exact absurd starts goesOn
  | dropped _ store _ _ => exact store
  | idle _ _ state => rw [state]

end

/-! ### After a write -/

section

variable [DecidableEq ι] (kv : KvStore S T N) (cache : Cache Bytes Bytes σ) (key : Bytes)
  (contents : S → Contents) (valid : σ → Prop) (entry : σ → Ledger Bytes Bytes) (ops : ι → KeyOp)

def callersAfter (s : S × Clocked σ) (schedule : List ι) : Callers ι S σ :=
  afterRun Race.step (callers kv cache key ops s) schedule

/-- **The store has what `w` has written**, and no write came after. -/
structure Stands (w : ι) (written : Option Bytes) (race : Callers ι S σ) : Prop where
  kept : Kept kv cache key contents valid entry ops race
  last : lastWriter ops race.moved = some w
  current : (contents race.state.1)[key]? = written

inductive ReaderAt (written : Option Bytes) (race : Callers ι S σ) (j : ι) : Prop where
  | waiting (fresh : j ∉ race.moved)
  | fetching (program : race.thread j = (fetch kv cache key).prog) (turns : race.moved.count j ≤ 1)
  | filling {value : Bytes} (program : race.thread j = (fill cache key value).prog)
      (read : written = some value) (turns : race.moved.count j ≤ 2)
  | done (program : race.thread j = .pure (.ok written))

variable {kv cache key contents valid entry ops} {w i j : ι} {written : Option Bytes}
  {race : Callers ι S σ}

theorem kept_callers {s : S × Clocked σ} (held : valid s.2.cache) :
    Kept kv cache key contents valid entry ops (callers kv cache key ops s) where
  positions _ := .waiting List.not_mem_nil rfl
  valid := held
  mirrored settled := by
    obtain ⟨w, last, _⟩ := settled
    cases last

variable (atomic : AtomicMap kv contents) (sound : cache.Sound valid entry)

section

variable (kept : Kept kv cache key contents valid entry ops race)

include kept

theorem Kept.thread_of_fresh (fresh : i ∉ race.moved) :
    race.thread i = ((ops i).call kv cache key).prog := by
  cases kept.positions i with
  | waiting _ program => exact program
  | fetching started | filling started | dropping started | done started => exact absurd started fresh

include atomic sound in
theorem Kept.stands (timely : Timely cache key contents ops race w) (fresh : w ∉ race.moved)
    (writes : (ops w).written = some written) :
    Stands kv cache key contents valid entry ops w written (race.step w).2 := by
  have starts : StartsWrite ops race w := by
    refine ⟨fresh, ?_⟩
    rw [writes]
    rfl
  exact ⟨kept.step atomic sound timely, lastWriter_step_self starts,
    (write_turn atomic writes (kept.thread_of_fresh fresh)).2.2⟩

end

namespace Stands

variable (stands : Stands kv cache key contents valid entry ops w written race)

include atomic sound stands

theorem step (goesOn : ¬ StartsWrite ops race i) (timely : Timely cache key contents ops race i) :
    Stands kv cache key contents valid entry ops w written (race.step i).2 := by
  refine ⟨stands.kept.step atomic sound timely, ?_, ?_⟩
  · rw [lastWriter_step goesOn]
    exact stands.last
  · rw [stands.kept.store_step atomic sound goesOn]
    exact stands.current

theorem reader_turn (returned : race.returned w ≠ none) (gets : ops j = .get)
    (reader : ReaderAt kv cache key written race j) :
    ReaderAt kv cache key written (race.step j).2 j := by
  have counts : (race.step j).2.moved.count j = race.moved.count j + 1 := List.count_cons_self
  cases reader with
  | waiting fresh =>
    have program := stands.kept.thread_of_fresh fresh
    rw [gets] at program
    rcases (get_turn sound stands.kept.valid program).2 with ⟨hit, here, ends⟩ | goes
    · -- The write has returned, so what the cache holds is what it wrote.
      have current := stands.kept.mirrored ⟨w, stands.last, returned⟩ hit here
      rw [stands.current] at current
      rw [← current] at ends
      exact .done ends
    · refine .fetching goes ?_
      rw [counts, List.count_eq_zero_of_not_mem fresh]
  | fetching program turns =>
    rcases (fetch_turn atomic program).2 with ⟨value, here, goes⟩ | ⟨absent, ends⟩
    · rw [stands.current] at here
      exact .filling goes here (by omega)
    · rw [stands.current] at absent
      rw [← absent] at ends
      exact .done ends
  | filling program read _ =>
    refine .done ?_
    rw [read]
    exact fill_turn program
  | done program => exact .done (((step_of_pure program).1 j).trans program)

theorem reader_step (returned : race.returned w ≠ none) (gets : ops j = .get)
    (reader : ReaderAt kv cache key written race j) :
    ReaderAt kv cache key written (race.step i).2 j := by
  by_cases mine : j = i
  · subst mine
    exact stands.reader_turn atomic sound returned gets reader
  · have threads := race.thread_step_other mine
    have counts : (race.step i).2.moved.count j = race.moved.count j :=
      List.count_cons_of_ne (Ne.symm mine)
    cases reader with
    | waiting fresh => exact .waiting fun started => (race.mem_moved_step.mp started).elim mine fresh
    | fetching program turns => exact .fetching (threads.trans program) (counts.trans_le turns)
    | filling program read turns => exact .filling (threads.trans program) read (counts.trans_le turns)
    | done program => exact .done (threads.trans program)

variable {schedule : List ι} (along : AlongRun Race.step
  (fun race i => ¬ StartsWrite ops race i ∧ Timely cache key contents ops race i) race schedule)

include along in
theorem run :
    Stands kv cache key contents valid entry ops w written (afterRun Race.step race schedule) := by
  refine afterRun_invariant (fun race i stands allowed => ?_) stands along
  exact stands.step atomic sound allowed.1 allowed.2

include along in
theorem reader_run (returned : race.returned w ≠ none) (gets : ops j = .get)
    (reader : ReaderAt kv cache key written race j) :
    ReaderAt kv cache key written (afterRun Race.step race schedule) j := by
  have keeps : ∀ (race : Callers ι S σ) (i : ι),
      (Stands kv cache key contents valid entry ops w written race ∧ race.returned w ≠ none ∧
        ReaderAt kv cache key written race j) →
      (¬ StartsWrite ops race i ∧ Timely cache key contents ops race i) →
      (Stands kv cache key contents valid entry ops w written (race.step i).2 ∧
        (race.step i).2.returned w ≠ none ∧ ReaderAt kv cache key written (race.step i).2 j) := by
    rintro race i ⟨stands, returned, reader⟩ ⟨goesOn, timely⟩
    refine ⟨stands.step atomic sound goesOn timely, ?_, stands.reader_step atomic sound returned gets reader⟩
    obtain ⟨result, ended⟩ := Option.ne_none_iff_exists'.mp returned
    rw [returned_step ended]
    exact Option.some_ne_none result
  exact (afterRun_invariant keeps ⟨stands, returned, reader⟩ along).2.2

omit sound in
theorem reader_returns (gets : ops j = .get) (reader : ReaderAt kv cache key written race j) :
    (∀ result, race.returned j = some result → result = .ok written) ∧
      (3 ≤ race.moved.count j → race.returned j = some (.ok written)) := by
  cases reader with
  | waiting fresh =>
    have program := stands.kept.thread_of_fresh fresh
    rw [gets] at program
    obtain ⟨_, text, _⟩ := prog_get kv cache key
    rw [returned_of_step (program.trans text), List.count_eq_zero_of_not_mem fresh]
    exact ⟨nofun, by omega⟩
  | fetching program turns =>
    obtain ⟨_, text, _⟩ := prog_fetch cache key atomic
    rw [returned_of_step (program.trans text)]
    exact ⟨nofun, by omega⟩
  | filling program _ turns =>
    rw [returned_of_step (program.trans (prog_fill cache key _))]
    exact ⟨nofun, by omega⟩
  | done program =>
    rw [returned_of_pure program]
    exact ⟨fun result same => (Option.some.inj same).symm, fun _ => rfl⟩

end Stands

/-- **A `get` that starts after a write has returned**, with no write after that one, returns what was
written, if every fill is timely; and it does return, after three turns of its own. -/
theorem cacheable_get_reads_written (atomic : AtomicMap kv contents) (sound : cache.Sound valid entry)
    {s : S × Clocked σ} (held : valid s.2.cache) {before between after : List ι}
    (fresh : w ∉ (callersAfter kv cache key ops s before).moved) (writes : (ops w).written = some written)
    (last : AlongRun Race.step (fun race i => ¬ StartsWrite ops race i)
      (callersAfter kv cache key ops s (before ++ [w])) (between ++ after))
    (returned : (callersAfter kv cache key ops s (before ++ w :: between)).returned w ≠ none)
    (gets : ops j = .get) (later : j ∉ (callersAfter kv cache key ops s (before ++ w :: between)).moved)
    (timely : AlongRun Race.step (Timely cache key contents ops) (callers kv cache key ops s)
      (before ++ w :: (between ++ after))) :
    (∀ result, (callersAfter kv cache key ops s (before ++ w :: (between ++ after))).returned j =
        some result → result = .ok written) ∧
      (3 ≤ (callersAfter kv cache key ops s (before ++ w :: (between ++ after))).moved.count j →
        (callersAfter kv cache key ops s (before ++ w :: (between ++ after))).returned j =
          some (.ok written)) := by
  have onwards : ∀ rest, callersAfter kv cache key ops s (before ++ w :: rest) =
      afterRun Race.step ((callersAfter kv cache key ops s before).step w).2 rest :=
    fun rest => afterRun_append _ _ before (w :: rest)
  rw [onwards] at last returned later ⊢
  rw [afterRun_append]
  obtain ⟨timelyBefore, timelyWrite, timelyOnwards⟩ := alongRun_append.mp timely
  obtain ⟨along, along'⟩ := alongRun_append.mp (last.and timelyOnwards)
  have kept : Kept kv cache key contents valid entry ops (callersAfter kv cache key ops s before) :=
    afterRun_invariant (fun _ _ kept timely => kept.step atomic sound timely) (kept_callers held) timelyBefore
  have stands := (kept.stands atomic sound timelyWrite fresh writes).run atomic sound along
  have reader := stands.reader_run atomic sound along' returned gets (.waiting later)
  exact (stands.run atomic sound along').reader_returns atomic gets reader

end

theorem cacheable_get_reads_overlapping_put :
    let race := callersAfter plainKv LruCache.cache [1] ![.put [11], .get, .get]
      ((∅ : Contents).insert [1] [10], ⟨LruCache.new 2, fun _ => 0⟩) ([1, 1] ++ 0 :: ([1, 0] ++ [2, 2, 2]))
    race.returned 1 = some (.ok (some [10])) ∧ race.returned 2 = some (.ok (some [11])) := by
  refine ⟨rfl, (cacheable_get_reads_written plain_atomicMap lru_sound trivial ?_ rfl ?_ ?_ rfl ?_ ?_).2 ?_⟩
  · decide
  · exact ⟨fun starts => Bool.false_ne_true starts.2, fun starts => starts.1 (by decide),
      fun starts => Bool.false_ne_true starts.2, fun starts => Bool.false_ne_true starts.2,
      fun starts => Bool.false_ne_true starts.2, trivial⟩
  · exact Option.some_ne_none (Except.ok none)
  · decide
  · refine ⟨fun _ _ => Or.inr nofun, fun _ _ => Or.inr nofun, fun _ _ => Or.inr nofun,
      fun _ _ => Or.inr ?_, fun _ _ => Or.inr ?_, fun value same => ?_, fun value same => ?_,
      fun value same => Or.inl ?_, trivial⟩
    · rintro ⟨w, last, returned⟩
      cases last
      exact returned rfl
    · rintro ⟨w, last, returned⟩
      cases last
      exact returned rfl
    -- A fill returns at its turn; the look and the read of the store do not.
    · cases congrArg (fun program => (program.advance
        (∅, ⟨LruCache.new 2, fun _ => 0⟩)).1.result) same
    · cases congrArg (fun program => (program.advance
        ((∅ : Contents).insert [1] [10], ⟨LruCache.new 2, fun _ => 0⟩)).1.result) same
    · cases congrArg (fun program => (program.advance
        (∅, ⟨LruCache.new 2, fun _ => 0⟩)).1.result) same
      rfl
  · decide

theorem cacheable_get_reads_older :
    let race := callersAfter plainKv LruCache.cache [1] ![.get, .put [11], .get]
      ((∅ : Contents).insert [1] [10], ⟨LruCache.new 2, fun _ => 0⟩)
    AlongRun Race.step (fun race i => ¬ StartsWrite ![.get, .put [11], .get] race i) (race ([0, 0] ++ [1]))
      ([1] ++ [0, 2]) ∧
    (race ([0, 0] ++ 1 :: [1])).returned 1 = some (.ok none) ∧ 2 ∉ (race ([0, 0] ++ 1 :: [1])).moved ∧
    (race ([0, 0] ++ 1 :: ([1] ++ [0, 2]))).returned 2 = some (.ok (some [10])) := by
  refine ⟨⟨fun starts => starts.1 (by decide), fun starts => starts.1 (by decide),
    fun starts => Bool.false_ne_true starts.2, trivial⟩, rfl, by decide, rfl⟩

end OxiStore.Caching
