/-
**What the user of a `WriteBackCache` sees.**
-/

import OxiStore.Cache.PutResults
import OxiStore.Cache.WriteBack

namespace OxiStore.Caching

open ByteString OrdTable StepProg Function LinkedMap

variable {S T N σ α : Type}

/-! ### The user's map -/

/-- **The user's map**: what the cache holds, over what is stored. An entry that is not dirty is stored. -/
structure Buffered (ledger : Ledger Bytes Bytes) (dirty : LinkedMap Bytes Unit) (stored logical : Contents) :
    Prop where
  overlaid : ∀ key : Bytes, logical[key]? = (valuesOf ledger key).or stored[key]?
  clean : ∀ key value, valuesOf ledger key = some value → dirty.contains key = false →
    stored[key]? = some value

section

variable {ledger ledger' : Ledger Bytes Bytes} {dirty : LinkedMap Bytes Unit}
  {stored stored' logical : Contents} {key : Bytes}

theorem buffered_empty (empty : ∀ key, ledger key = none) (dirty : LinkedMap Bytes Unit) (stored : Contents) :
    Buffered ledger dirty stored stored where
  overlaid key := by
    rw [valuesOf_eq_none.mpr (empty key)]
    rfl
  clean key value here := by
    rw [valuesOf_eq_none.mpr (empty key)] at here
    cases here

variable (buffered : Buffered ledger dirty stored logical)

include buffered

theorem Buffered.held {held : CacheEntry Bytes} (here : ledger key = some held) :
    logical[key]? = some held.value := by
  rw [buffered.overlaid, valuesOf_of_held here]
  rfl

theorem Buffered.shrink (below : Below ledger' ledger)
    (lossless : ∀ key held, ledger key = some held → ledger' key = none → stored[key]? = some held.value) :
    Buffered ledger' dirty stored logical where
  overlaid key := by
    cases here : ledger' key with
    | some held => rw [buffered.held (below key held here), valuesOf_of_held here, Option.some_or]
    | none =>
      rw [valuesOf_eq_none.mpr here, Option.none_or]
      cases was : ledger key with
      | none => rw [buffered.overlaid, valuesOf_eq_none.mpr was, Option.none_or]
      | some held => rw [buffered.held was, lossless key held was here]
  clean key value seen := by
    obtain ⟨held, here, rfl⟩ := Option.map_eq_some_iff.mp seen
    exact buffered.clean key held.value (valuesOf_of_held (below key held here))

theorem Buffered.write (written : Written (valuesOf ledger) stored stored') :
    Buffered ledger dirty stored' logical where
  overlaid key := by rw [written.or_eq, buffered.overlaid]
  clean key value seen unmarked := written.keeps seen (buffered.clean key value seen unmarked)

theorem Buffered.put (key value : Bytes) :
    Buffered (update ledger key (some (.new value))) (dirty.insert key ()) stored
      (logical.insert key value) where
  overlaid other := by
    unfold valuesOf
    rw [OrdTable.get_insert]
    by_cases own : other = key
    · rw [own, update_self, if_pos rfl]
      rfl
    · rw [update_of_ne own, if_neg (Ne.symm own)]
      exact buffered.overlaid other
  clean other value' seen unmarked := by
    have away : ¬ (other = key ∨ dirty.contains other = true) := by
      rw [← contains_insert key other (), unmarked]
      exact Bool.false_ne_true
    have own : other ≠ key := fun same => away (Or.inl same)
    unfold valuesOf at seen
    rw [update_of_ne own] at seen
    exact buffered.clean other value' seen ((Bool.not_eq_true _).mp fun marked => away (Or.inr marked))

theorem Buffered.remove (key : Bytes) :
    Buffered (update ledger key none) (dirty.erase key) (stored.erase key) (logical.erase key) where
  overlaid other := by
    unfold valuesOf
    rw [OrdTable.get_erase, OrdTable.get_erase]
    by_cases own : other = key
    · rw [own, update_self, if_pos rfl, if_pos rfl]
      rfl
    · rw [update_of_ne own, if_neg (Ne.symm own), if_neg (Ne.symm own)]
      exact buffered.overlaid other
  clean other value seen unmarked := by
    by_cases own : other = key
    · unfold valuesOf at seen
      rw [own, update_self] at seen
      cases seen
    · unfold valuesOf at seen
      rw [update_of_ne own] at seen
      rw [get_erase_other own]
      refine buffered.clean other value seen ((Bool.not_eq_true _).mp fun marked => ?_)
      rw [(contains_erase key other).mpr ⟨own, marked⟩] at unmarked
      cases unmarked

theorem Buffered.all_stored
    (written : ∀ key value, dirty.contains key = true → valuesOf ledger key = some value → stored[key]? = some value)
    {value : Bytes} (seen : valuesOf ledger key = some value) :
    stored[key]? = some value := by
  cases marked : dirty.contains key with
  | true => exact written key value marked seen
  | false => exact buffered.clean key value seen marked

theorem Buffered.stored_eq (all : ∀ key value, valuesOf ledger key = some value → stored[key]? = some value) :
    stored = logical := by
  apply table_ext
  intro key
  rw [buffered.overlaid]
  cases seen : valuesOf ledger key with
  | none => rw [Option.none_or]
  | some value => rw [all key value seen, Option.some_or]

end

/-! ### Caches that can be buffers -/

/-- **A cache that can be a buffer**: it shows what it holds, what was just put is there, and a put lets
nobody go if its key is there or there is room. -/
structure Cache.Buffering {κ V σ : Type} [DecidableEq κ] (cache : Cache κ V σ) (valid : σ → Prop)
    (entry : σ → Ledger κ V) : Prop extends cache.Sound valid entry where
  peek : ∀ s now key, valid s → cache.peek now key s = (entry s key).bind (·.live now)
  contains : ∀ s now key, valid s → cache.containsKey now key s = true → entry s key ≠ none
  finds : ∀ s now key, valid s → (cache.get now key s).1 = (entry s key).bind (·.live now)
  stays : ∀ s key value, valid s → entry (cache.put key value s).2 key = some (.new value)
  spares : ∀ s key value, valid s → entry s key ≠ none ∨ cache.len s < cache.cap s →
    entry (cache.put key value s).2 = Function.update (entry s) key (some (.new value))
  removed : ∀ s key, valid s → entry (cache.remove key s).2 = Function.update (entry s) key none

section

variable {κ V : Type} [DecidableEq κ]

theorem lru_buffering : (LruCache.cache : Cache κ V _).Buffering (fun _ => True) fun s => s.map.get where
  toSound := lru_sound
  peek _ _ _ _ := rfl
  contains s now key _ present := by
    obtain ⟨held, _, here, _⟩ := lru_lawful.contains s now key trivial present
    rw [here]
    exact Option.some_ne_none held
  finds s now key _ := by
    show (LruCache.get now key s).1 = _
    rcases lru_get_cases now key s with ⟨absent, done⟩ | ⟨held, here, gone, done⟩ |
      ⟨held, value, here, live, done⟩
    · rw [done, absent]
      rfl
    · rw [done, here]
      exact gone.symm
    · rw [done, here]
      exact live.symm
  stays s key value _ := lru_insertEntry_self key (.new value) s
  spares s key value _ room := by
    show (LruCache.insertEntry key (.new value) s).2.map.get = _
    unfold LruCache.insertEntry
    split_ifs with present full
    · exact get_insert_eq_update _ key _
    · rcases room with here | room
      · exact absurd (Option.isSome_iff_ne_none.mpr here) present
      · exact absurd full.2 (not_le.mpr room)
    · exact get_insert_eq_update _ key _
  removed s key _ := get_erase_eq_update _ key

theorem lfu_put_entries {s : LfuCache κ V} (working : s.Working) (key : κ) (new : CacheEntry V) :
    (LfuCache.insertEntry key new s).2.entry = update s.entry key (some new) ∨
      s.entry key = none ∧ s.cap ≤ s.keyToEntry.len ∧ ∃ gone, (LfuCache.insertEntry key new s).2.entry =
        update (update s.entry gone none) key (some new) := by
  obtain ⟨takes, t, books⟩ := working
  obtain ⟨s', done, _, _, inserts⟩ := books.insertEntry takes key new
  rw [done]
  generalize (LfuCache.insertEntry key new s).1 = evicted at inserts
  cases inserts with
  | replaced _ entries | added _ _ entries => exact Or.inl entries
  | evicted oldest _ absent full _ _ entries =>
    rw [contains_eq_entry, Option.isSome_eq_false_iff, Option.isNone_iff_eq_none] at absent
    exact Or.inr ⟨absent, full, oldest, entries⟩

theorem lfu_buffering : (LfuCache.cache : Cache κ V _).Buffering LfuCache.Working LfuCache.entry where
  toSound := lfu_sound
  peek s now key _ := lfu_peek_eq now key s
  contains s now key _ present := by
    obtain ⟨held, _, here, _⟩ := lfu_lawful.contains s now key trivial present
    rw [here]
    exact Option.some_ne_none held
  finds s now key _ := by
    show (LfuCache.get now key s).1 = _
    rcases lfu_get_cases now key s with ⟨absent, done⟩ | ⟨held, _, here, gone, done, _⟩ |
      ⟨held, value, _, here, live, done, _⟩
    · rw [done, absent]
      rfl
    · rw [done, here]
      exact gone.symm
    · rw [done, here]
      exact live.symm
  stays s key value working := by
    show (LfuCache.insertEntry key (.new value) s).2.entry key = _
    rcases lfu_put_entries working key (.new value) with entries | ⟨_, _, gone, entries⟩
    all_goals rw [entries, update_self]
  spares s key value working room := by
    rcases lfu_put_entries working key (.new value) with entries | ⟨absent, full, _⟩
    · exact entries
    · rcases room with here | room
      · exact absurd absent here
      · exact absurd full (not_le.mpr room)
  removed s key _ := lfu_remove_entry key s

theorem arc_buffering : (ArcCache.cache : Cache κ V _).Buffering (fun s => s.Apart ∧ 1 ≤ s.cap)
    ArcCache.entry where
  reads s now key value held := arc_sound.reads s now key value held.1
  get s now key held := by
    obtain ⟨shrinks, _⟩ := arc_get_shrinks held.1 now key
    exact ⟨⟨shrinks.apart, shrinks.cap ▸ held.2⟩, shrinks.below⟩
  put s key value held := by
    obtain ⟨apart, cap, below⟩ := insertEntry_law held.1 key (.new value)
    exact ⟨⟨apart, cap ▸ held.2⟩, below⟩
  remove s key held := by
    obtain ⟨apart, entries, cap, _⟩ := arc_remove_law held.1 key
    exact ⟨⟨apart, cap ▸ held.2⟩, entries ▸ Below.refl _⟩
  peek s now key held := arc_peek_eq held.1 now key
  contains s now key held present := by
    obtain ⟨held', _, here, _⟩ := arc_lawful.contains s now key held.1 present
    rw [here]
    exact Option.some_ne_none held'
  finds s now key held := by
    show (ArcCache.get now key s).1 = _
    rcases arc_get_cases held.1 now key with ⟨_, _, gone, evicts, done⟩ | ⟨_, _, _, here, live, _, done⟩ |
      ⟨remembers, done⟩ | ⟨unknown, done⟩
    · rw [done, evicts.held]
      exact gone.symm
    · rw [done, here]
      exact live.symm
    · rw [done, remembers.1]
      rfl
    · rw [done, unknown.1]
      rfl
  stays s key value held := by
    show (ArcCache.insertEntry key (.new value) s).2.entry key = _
    rcases arc_insertEntry_spec held.1 held.2 key (.new value) with ⟨_, _, _, entries⟩ | ⟨_, _, _, entries⟩ |
      ⟨_, _, _, _, _, _, entries⟩
    · rw [entries, update_self]
    · rw [entries, update_self]
    · rw [entries, update_self]
  spares s key value held room := by
    show (ArcCache.insertEntry key (.new value) s).2.entry = _
    rcases arc_insertEntry_spec held.1 held.2 key (.new value) with ⟨_, _, _, entries⟩ | ⟨_, _, _, entries⟩ |
      ⟨_, _, absent, _, full, _⟩
    · exact entries
    · exact entries
    · rcases room with here | room
      · exact absurd absent here
      · exact absurd (Or.inl room) full
  removed s key held := (arc_remove_law held.1 key).2.1

theorem lru_get_entries {s : LruCache κ V} (free : TtlFree s.map.get) (now : Instant) (key : κ) :
    (LruCache.get now key s).2.map.get = s.map.get := by
  rcases lru_get_cases now key s with ⟨_, done⟩ | ⟨held, here, gone, _⟩ | ⟨held, value, here, _, done⟩
  · rw [done]
  · rw [free.alive here] at gone
    cases gone
  · rw [done, get_insert_eq_update, ← here, update_eq_self]

theorem lfu_get_entries {s : LfuCache κ V} (free : TtlFree s.entry) (now : Instant) (key : κ) :
    (LfuCache.get now key s).2.entry = s.entry := by
  rcases lfu_get_cases now key s with ⟨_, done⟩ | ⟨held, _, here, gone, _⟩ | ⟨_, _, _, _, _, done, entries⟩
  · rw [done]
  · rw [free.alive here] at gone
    cases gone
  · rw [done, entries]

end

/-! ### One call -/

/-- **The adapter over a store that shows a map**, and the map that its user sees. -/
structure Buffers (view : MapView S T N) (valid : σ → Prop) (entry : σ → Ledger Bytes Bytes)
    (s : S × WriteBackCache σ) (stored logical : Contents) : Prop where
  shown : view.shows s.1 stored
  valid : valid s.2.clocked.cache
  free : TtlFree (entry s.2.clocked.cache)
  buffered : Buffered (entry s.2.clocked.cache) s.2.dirty stored logical

def WriteBackCache.Lossless (cache : Cache Bytes Bytes σ) (entry : σ → Ledger Bytes Bytes)
    (c : WriteBackCache σ) (stored : Contents) (key : Bytes) : Prop :=
  ∀ other held, entry c.clocked.cache other = some held →
    entry (c.afterGet cache key).clocked.cache other = none → stored[other]? = some held.value

def WriteBackCache.Calm (view : MapView S T N) (kv : KvStore S T N) (cache : Cache Bytes Bytes σ)
    (s : S × WriteBackCache σ) (op : WriteBackCache.Op) : Prop :=
  view.faults (WriteBackCache.step kv cache s op).2.1 ≤ view.faults s.1

section

variable {view : MapView S T N} {kv : KvStore S T N} {cache : Cache Bytes Bytes σ} {valid : σ → Prop}
  {entry : σ → Ledger Bytes Bytes} {s : S} {c : WriteBackCache σ} {stored logical : Contents}

variable (buffers : Buffers view valid entry (s, c) stored logical)

include buffers

theorem Buffers.sees (law : cache.Buffering valid entry) :
    Sees cache (valuesOf (entry c.clocked.cache)) c := by
  intro n key
  rw [law.peek _ _ key buffers.valid, buffers.free.live]

variable (like : KeyMap view kv)

include like

theorem Buffers.get (law : cache.Buffering valid entry) (key : Bytes) :
    ∃ result s', (WriteBackCache.get kv cache key).exec (s, c) = (result, s', c.afterGet cache key) ∧
      view.later s s' ∧ view.shows s' stored ∧
      (view.faults s' ≤ view.faults s → result = .ok logical[key]?) ∧
      (c.Lossless cache entry stored key →
        Buffers view valid entry (s', c.afterGet cache key) stored logical) := by
  obtain ⟨result, s', runs, later, shown, finds, faulted⟩ :=
    writeBack_get_spec buffers.shown like cache c key
  obtain ⟨still, below⟩ := law.get c.clocked.cache (c.clocked.ticks 0) key buffers.valid
  refine ⟨result, s', runs, later, shown, fun calm => ?_, fun lossless => ?_⟩
  · cases result with
    | error error => exact absurd (faulted error rfl) (not_lt.mpr calm)
    | ok found =>
      rw [finds found rfl, law.finds _ _ key buffers.valid, buffers.free.live, buffers.buffered.overlaid]
  · exact ⟨shown, still, buffers.free.below below, buffers.buffered.shrink below lossless⟩

theorem Buffers.put (law : cache.Buffering valid entry) (key value : Bytes) :
    ∃ result s' c', (WriteBackCache.put kv cache key value).exec (s, c) = (result, s', c') ∧
      view.later s s' ∧ (view.faults s' ≤ view.faults s → result = .ok () ∧
        ∃ stored', Buffers view valid entry (s', c') stored' (logical.insert key value)) := by
  obtain ⟨result, s', c', stored', writes, ⟨error, fails, runs⟩ | ⟨runs, room⟩⟩ :=
    writeBack_put_spec buffers.shown like (buffers.sees law) key value
  · exact ⟨_, _, _, runs, writes.later, fun calm => absurd (writes.faulted error fails) (not_lt.mpr calm)⟩
  · obtain ⟨filled, below⟩ := law.put c.clocked.cache key value buffers.valid
    have after : (c'.afterPut cache key value).clocked.cache = (cache.put key value c.clocked.cache).2 := by
      rw [← writes.ages.cache]
      rfl
    have marked : (c'.afterPut cache key value).dirty = c.dirty.insert key () := by
      rw [← writes.ages.dirty]
      rfl
    refine ⟨_, _, _, runs, writes.later, fun _ => ⟨rfl, stored', writes.shown, ?_, ?_, ?_⟩⟩
    · rw [after]
      exact filled
    · rw [after]
      exact (buffers.free.update key value).below below
    · have before := buffers.buffered.write writes.written
      rw [after, marked]
      refine (before.put key value).shrink below fun other held here gone => ?_
      have own : other ≠ key := by
        rintro rfl
        rw [law.stays _ _ _ buffers.valid] at gone
        cases gone
      -- somebody left, so the key was not there and there was no room
      have crowded : ¬ (entry c.clocked.cache key ≠ none ∨
          cache.len c.clocked.cache < cache.cap c.clocked.cache) := by
        intro spared
        rw [law.spares _ _ _ buffers.valid spared, here] at gone
        cases gone
      rw [update_of_ne own] at here
      refine before.all_stored ?_ (valuesOf_of_held here)
      rcases room with present | room | all
      · exact absurd (Or.inl (law.contains _ _ _ buffers.valid present)) crowded
      · exact absurd (Or.inr room) crowded
      · exact all

theorem Buffers.remove (law : cache.Buffering valid entry) (key : Bytes) :
    ∃ result s' c', (WriteBackCache.remove kv cache key).exec (s, c) = (result, s', c') ∧
      view.later s s' ∧ (view.faults s' ≤ view.faults s → result = .ok () ∧
        ∃ stored', Buffers view valid entry (s', c') stored' (logical.erase key)) := by
  obtain ⟨result, s', runs, later, shown, faulted⟩ :=
    writeBack_remove_spec buffers.shown like cache c key
  refine ⟨_, _, _, runs, later, fun calm => ?_⟩
  cases result with
  | error error => exact absurd (faulted error rfl).2 (not_lt.mpr calm)
  | ok _ =>
    have gone : entry (c.afterRemove cache key).clocked.cache =
        update (entry c.clocked.cache) key none := law.removed _ key buffers.valid
    refine ⟨rfl, stored.erase key, shown rfl, (law.remove _ key buffers.valid).1, ?_, ?_⟩
    · rw [gone]
      exact buffers.free.below (below_update_none _ key)
    · rw [gone]
      exact buffers.buffered.remove key

theorem Buffers.flush (law : cache.Buffering valid entry) :
    ∃ result s' c', (WriteBackCache.flush kv cache).exec (s, c) = (result, s', c') ∧
      view.later s s' ∧ (view.faults s' ≤ view.faults s → result = .ok () ∧
        Buffers view valid entry (s', c') logical logical) := by
  obtain ⟨result, s', c', stored', writes, ⟨error, fails, runs⟩ | ⟨runs, all⟩⟩ :=
    writeBack_flush_spec buffers.shown like (buffers.sees law)
  · exact ⟨_, _, _, runs, writes.later, fun calm => absurd (writes.faulted error fails) (not_lt.mpr calm)⟩
  · have before := buffers.buffered.write writes.written
    have stored_all : ∀ key value, valuesOf (entry c.clocked.cache) key = some value →
        stored'[key]? = some value := fun key value => before.all_stored all
    have same := before.stored_eq stored_all
    subst same
    refine ⟨_, _, _, runs, writes.later, fun _ => ⟨rfl, writes.shown, ?_, ?_, ?_⟩⟩
    · exact writes.ages.cache ▸ buffers.valid
    · exact writes.ages.cache ▸ buffers.free
    · show Buffered (entry c'.clocked.cache) ∅ stored' stored'
      rw [show c'.clocked.cache = c.clocked.cache from writes.ages.cache]
      exact ⟨before.overlaid, fun key value seen _ => stored_all key value seen⟩

omit buffers

theorem Buffers.step {s : S × WriteBackCache σ} (buffers : Buffers view valid entry s stored logical)
    (law : cache.Buffering valid entry) (op : WriteBackCache.Op)
    (lossless : ∀ key, op = .get key → s.2.Lossless cache entry stored key) :
    view.later s.1 (WriteBackCache.step kv cache s op).2.1 ∧
      (WriteBackCache.Calm view kv cache s op →
        (WriteBackCache.step kv cache s op).1 = .ok (op.onMap logical).1 ∧
          ∃ stored', Buffers view valid entry (WriteBackCache.step kv cache s op).2 stored'
            (op.onMap logical).2 ∧ (op = .flush → stored' = logical)) := by
  obtain ⟨s, c⟩ := s
  unfold WriteBackCache.Calm
  cases op with
  | get key =>
    obtain ⟨result, s', runs, later, _, finds, keeps⟩ := buffers.get like law key
    unfold WriteBackCache.step
    dsimp only
    rw [runs]
    exact ⟨later, fun calm => ⟨finds calm, stored, keeps (lossless key rfl), fun same => by cases same⟩⟩
  | put key value =>
    obtain ⟨result, s', c', runs, later, ends⟩ := buffers.put like law key value
    unfold WriteBackCache.step
    dsimp only
    rw [Call.exec_map, runs]
    refine ⟨later, fun calm => ?_⟩
    obtain ⟨rfl, stored', after⟩ := ends calm
    exact ⟨rfl, stored', after, fun same => by cases same⟩
  | remove key =>
    obtain ⟨result, s', c', runs, later, ends⟩ := buffers.remove like law key
    unfold WriteBackCache.step
    dsimp only
    rw [Call.exec_map, runs]
    refine ⟨later, fun calm => ?_⟩
    obtain ⟨rfl, stored', after⟩ := ends calm
    exact ⟨rfl, stored', after, fun same => by cases same⟩
  | flush =>
    obtain ⟨result, s', c', runs, later, ends⟩ := buffers.flush like law
    unfold WriteBackCache.step
    dsimp only
    rw [Call.exec_map, runs]
    refine ⟨later, fun calm => ?_⟩
    obtain ⟨rfl, after⟩ := ends calm
    exact ⟨rfl, logical, after, fun _ => rfl⟩

end

/-! ### Runs over an `LruCache` or an `LfuCache` -/

def WriteBackCache.Agrees (view : MapView S T N) (_ : S × WriteBackCache σ) (logical : Contents)
    (op : WriteBackCache.Op) (reply : Except StoreError (Option Bytes)) (s' : S × WriteBackCache σ)
    (logical' : Contents) : Prop :=
  reply = .ok (op.onMap logical).1 ∧ logical' = (op.onMap logical).2 ∧
    (op = .flush → view.shows s'.1 logical')

section

variable {view : MapView S T N} {kv : KvStore S T N} {cache : Cache Bytes Bytes σ} {valid : σ → Prop}
  {entry : σ → Ledger Bytes Bytes} {s : S} {contents : Contents}

theorem buffers_new (entry : σ → Ledger Bytes Bytes) (fresh : σ) (shown : view.shows s contents)
    (held : valid fresh) (empty : ∀ key, entry fresh key = none) (ticks : ℕ → Instant) (walks : ℕ → Walk) :
    Buffers view valid entry (s, WriteBackCache.new fresh ticks walks) contents contents :=
  ⟨shown, held, ttlFree_of_empty empty, buffered_empty empty ∅ contents⟩

theorem writeBack_lockstep (like : KeyMap view kv) (law : cache.Buffering valid entry)
    (keeps : ∀ s now key, TtlFree (entry s) → entry (cache.get now key s).2 = entry s)
    {start : S × WriteBackCache σ} {stored logical : Contents}
    (buffers : Buffers view valid entry start stored logical) {ops : List WriteBackCache.Op}
    (calm : AlongRun (WriteBackCache.step kv cache) (WriteBackCache.Calm view kv cache) start ops) :
    Lockstep (WriteBackCache.step kv cache) (WriteBackCache.Agrees view) start logical ops := by
  refine lockstep_of_simulation (fun s logical => ∃ stored, Buffers view valid entry s stored logical)
    (fun s logical op related calm => ?_) ⟨stored, buffers⟩ calm
  obtain ⟨stored, buffers⟩ := related
  have lossless : ∀ key, op = .get key → s.2.Lossless cache entry stored key := by
    intro key _ other held here gone
    have same : entry (s.2.afterGet cache key).clocked.cache = entry s.2.clocked.cache :=
      keeps _ _ key buffers.free
    rw [same, here] at gone
    cases gone
  obtain ⟨reply, stored', after, flushed⟩ := (buffers.step like law op lossless).2 calm
  refine ⟨(op.onMap logical).2, ⟨reply, rfl, fun same => ?_⟩, stored', after⟩
  have stored_eq := flushed same
  subst stored_eq same
  exact after.shown

/-- **A `WriteBackCache` over an `LruCache` or an `LfuCache` is the user's map**, in every run in which the
store does not fail, and after a `flush` the store is this map. -/
theorem writeBack_refines (like : KeyMap view kv) (shown : view.shows s contents) {cap : ℕ}
    (positive : 1 ≤ cap) (ticks : ℕ → Instant) (walks : ℕ → Walk) (ops : List WriteBackCache.Op) :
    (AlongRun (WriteBackCache.step kv LruCache.cache) (WriteBackCache.Calm view kv LruCache.cache)
        (s, .new (LruCache.new cap) ticks walks) ops →
      Lockstep (WriteBackCache.step kv LruCache.cache) (WriteBackCache.Agrees view)
        (s, .new (LruCache.new cap) ticks walks) contents ops) ∧
    (AlongRun (WriteBackCache.step kv LfuCache.cache) (WriteBackCache.Calm view kv LfuCache.cache)
        (s, .new (LfuCache.new cap) ticks walks) ops →
      Lockstep (WriteBackCache.step kv LfuCache.cache) (WriteBackCache.Agrees view)
        (s, .new (LfuCache.new cap) ticks walks) contents ops) := by
  constructor
  · have start : Buffers view (fun _ => True) (fun cache : LruCache Bytes Bytes => cache.map.get)
        (s, .new (LruCache.new cap) ticks walks) contents contents :=
      buffers_new _ (LruCache.new cap) shown trivial get_empty ticks walks
    exact writeBack_lockstep like lru_buffering (fun _ now key free => lru_get_entries free now key) start
  · have start : Buffers view LfuCache.Working LfuCache.entry (s, .new (LfuCache.new cap) ticks walks)
        contents contents := buffers_new _ _ shown (lfu_working_new positive) (fun _ => rfl) ticks walks
    exact writeBack_lockstep like lfu_buffering (fun _ now key free => lfu_get_entries free now key) start

theorem writeBack_finds_evicted :
    let buffers := .new (LruCache.new 1) (fun _ => 0) fun _ => .asListed
    Lockstep (WriteBackCache.step redb.kv LfuCache.cache) (WriteBackCache.Agrees redb.mapView)
        (⟨.empty, .last⟩, .new (LfuCache.new 1) (fun _ => 0) fun _ => .asListed)
        ∅ [.put [1] [10], .put [2] [20], .get [1], .remove [1], .flush] ∧
      Lockstep (WriteBackCache.step plainKv LruCache.cache) (WriteBackCache.Agrees plainView)
        (∅, buffers) ∅ [.put [1] [10], .put [2] [20], .get [1], .flush] ∧
      answers (WriteBackCache.step plainKv LruCache.cache) (∅, buffers)
        [.put [1] [10], .put [2] [20], .get [1]] = [.ok none, .ok none, .ok (some [10])] :=
  ⟨(writeBack_refines redb.keyMap (redb.shows_empty .last) (by decide) _ _ _).2
      (alongRun_of_forall (fun _ _ => le_rfl) _ _),
    (writeBack_refines plain_keyMap rfl (by decide) _ _ _).1
      (alongRun_of_forall (fun _ _ => le_rfl) _ _), rfl⟩

end

/-! ### Runs over an `ArcCache` -/

namespace WriteBackCache

def track (kv : KvStore S T N) (cache : Cache Bytes Bytes σ) (p : (S × WriteBackCache σ) × Contents)
    (op : Op) : Except StoreError (Option Bytes) × ((S × WriteBackCache σ) × Contents) :=
  ((step kv cache p.1 op).1, (step kv cache p.1 op).2, (op.onMap p.2).2)

/-- **Nothing is lost**: a `get` of any key finds what the user's map has, and a `flush` makes the store this
map. -/
def Obtainable (view : MapView S T N) (kv : KvStore S T N) (cache : Cache Bytes Bytes σ)
    (p : (S × WriteBackCache σ) × Contents) : Prop :=
  (∀ key, ((get kv cache key).exec p.1).1 = .ok p.2[key]?) ∧
    ((flush kv cache).exec p.1).1 = .ok () ∧ view.shows ((flush kv cache).exec p.1).2.1 p.2

/-- **A `get` of a remembered key whose victim is not stored.** -/
def Loses (kv : KvStore S T N) (s : S × WriteBackCache (ArcCache Bytes Bytes)) (op : Op) : Prop :=
  ∃ key other held, op = .get key ∧ s.2.clocked.cache.Remembers key ∧
    (s.2.clocked.cache.adapted key).victim = some (other, held) ∧
    ((kv.get other).exec s.1).1 ≠ .ok (some held.value)

end WriteBackCache

open WriteBackCache

section

variable {view : MapView S T N} {kv : KvStore S T N} {s : S} {contents : Contents}
  {cache : Cache Bytes Bytes σ} {entry : σ → Ledger Bytes Bytes}

theorem Buffers.obtainable {valid : σ → Prop} {p : (S × WriteBackCache σ) × Contents} {stored : Contents}
    (buffers : Buffers view valid entry p.1 stored p.2) (like : KeyMap view kv)
    (law : cache.Buffering valid entry) (reliable : view.ReliableFrom p.1.1) :
    WriteBackCache.Obtainable view kv cache p := by
  obtain ⟨⟨s, c⟩, logical⟩ := p
  constructor
  · intro key
    obtain ⟨result, s', runs, later, _, finds, _⟩ := buffers.get like law key
    rw [runs]
    exact finds (reliable s' later).le
  · obtain ⟨result, s', c', runs, later, ends⟩ := buffers.flush like law
    obtain ⟨rfl, after⟩ := ends (reliable s' later).le
    rw [runs]
    exact ⟨rfl, after.shown⟩

variable {c : WriteBackCache (ArcCache Bytes Bytes)}

theorem arc_get_gone {cache : ArcCache Bytes Bytes} (apart : cache.Apart) (free : TtlFree cache.entry)
    {now : Instant} {key other : Bytes} {held : CacheEntry Bytes} (here : cache.entry other = some held)
    (gone : (ArcCache.get now key cache).2.entry other = none) :
    cache.Remembers key ∧ (cache.adapted key).victim = some (other, held) := by
  by_contra spared
  have different : other ≠ key := by
    rintro rfl
    rcases arc_get_cases apart now other with ⟨_, _, expired, evicts, _⟩ |
      ⟨_, _, _, _, _, ⟨entries, _⟩, done⟩ | ⟨remembers, _⟩ | ⟨_, done⟩
    · rw [free.alive evicts.held] at expired
      cases expired
    · rw [done, entries, here] at gone
      cases gone
    · rw [remembers.1] at here
      cases here
    · rw [done, here] at gone
      cases gone
  rw [arc_get_others apart now different, here] at gone
  · cases gone
  · intro remembers held' victim
    have same := (adapted_evicts apart victim).1
    rw [here] at same
    cases same
    exact spared ⟨remembers, victim⟩

theorem lossless_of_not_loses (like : KeyMap view kv) (reliable : view.ReliableFrom s)
    (shown : view.shows s contents) (apart : c.clocked.cache.Apart) (free : TtlFree c.clocked.cache.entry)
    {op : WriteBackCache.Op} (loses : ¬ WriteBackCache.Loses kv (s, c) op)
    (key : Bytes) (same : op = .get key) :
    c.Lossless ArcCache.cache ArcCache.entry contents key := by
  intro other held here gone
  by_contra missing
  obtain ⟨remembers, victim⟩ := arc_get_gone apart free here gone
  refine loses ⟨key, other, held, same, remembers, victim, ?_⟩
  rw [reliable_get like reliable shown]
  exact fun found => missing (Except.ok.inj found)

theorem get_of_absent {valid : σ → Prop} {c : WriteBackCache σ} {key : Bytes} {found : Option Bytes}
    (like : KeyMap view kv) (law : cache.Buffering valid entry) (shown : view.shows s contents)
    (held : valid c.clocked.cache) (absent : entry c.clocked.cache key = none)
    (answers : ((get kv cache key).exec (s, c)).1 = .ok found) : found = contents[key]? := by
  obtain ⟨result, s', runs, _, _, finds, _⟩ := writeBack_get_spec shown like cache c key
  rw [runs] at answers
  rw [finds found answers, law.finds _ _ key held, absent]
  rfl

theorem not_obtainable_of_loses {stored logical : Contents}
    (buffers : Buffers view (fun cache => cache.Apart ∧ 1 ≤ cache.cap) ArcCache.entry (s, c) stored logical)
    (like : KeyMap view kv) (reliable : view.ReliableFrom s) {op : WriteBackCache.Op}
    (loses : WriteBackCache.Loses kv (s, c) op) :
    ¬ WriteBackCache.Obtainable view kv ArcCache.cache
      (track kv ArcCache.cache ((s, c), logical) op).2 := by
  obtain ⟨key, other, held, rfl, remembers, victim, missing⟩ := loses
  obtain ⟨here, evicted⟩ := adapted_evicts buffers.valid.1 victim
  have gone : (c.afterGet ArcCache.cache key).clocked.cache.entry other = none := by
    show (ArcCache.get _ key c.clocked.cache).2.entry other = none
    rw [arc_get_remembered _ remembers, evicted, update_self]
  obtain ⟨result, s', runs, _, shown, _, _⟩ := buffers.get like arc_buffering key
  have after : (track kv ArcCache.cache ((s, c), logical) (.get key)).2 =
      ((s', c.afterGet ArcCache.cache key), logical) :=
    congrArg (fun done => (done.2, logical)) runs
  have still := (arc_buffering.get c.clocked.cache (c.clocked.ticks 0) key buffers.valid).1
  rw [after]
  rintro ⟨finds, _⟩
  have stored' := get_of_absent like arc_buffering shown still gone (finds other)
  refine missing ?_
  rw [reliable_get like reliable buffers.shown, ← stored']
  exact congrArg Except.ok (buffers.buffered.held here)

/-- **Over an `ArcCache` nothing is lost exactly along the runs without a `get` that lets an entry go which is
not stored.** -/
theorem writeBack_arc_obtainable_iff (like : KeyMap view kv) (shown : view.shows s contents)
    (reliable : view.ReliableFrom s) (cap : ℕ) (ticks : ℕ → Instant) (walks : ℕ → Walk)
    (ops : List WriteBackCache.Op) :
    AlongRun (WriteBackCache.track kv ArcCache.cache)
        (fun p op => WriteBackCache.Obtainable view kv ArcCache.cache
          (WriteBackCache.track kv ArcCache.cache p op).2)
        ((s, .new (ArcCache.new cap) ticks walks), contents) ops ↔
      AlongRun (WriteBackCache.track kv ArcCache.cache) (fun p op => ¬ WriteBackCache.Loses kv p.1 op)
        ((s, .new (ArcCache.new cap) ticks walks), contents) ops := by
  refine alongRun_congr (fun p => view.ReliableFrom p.1.1 ∧ ∃ stored,
    Buffers view (fun cache : ArcCache Bytes Bytes => cache.Apart ∧ 1 ≤ cache.cap) ArcCache.entry p.1 stored
      p.2) (fun p op holds => ?_) ⟨reliable, contents, ?_⟩ ops
  · obtain ⟨⟨s, c⟩, logical⟩ := p
    obtain ⟨reliable, stored, buffers⟩ := holds
    have next : ¬ WriteBackCache.Loses kv (s, c) op →
        view.ReliableFrom (step kv ArcCache.cache (s, c) op).2.1 ∧ ∃ stored,
          Buffers view (fun cache : ArcCache Bytes Bytes => cache.Apart ∧ 1 ≤ cache.cap) ArcCache.entry
            (step kv ArcCache.cache (s, c) op).2 stored (op.onMap logical).2 := by
      intro loses
      obtain ⟨later, ends⟩ := buffers.step like arc_buffering op
        (lossless_of_not_loses like reliable buffers.shown buffers.valid.1 buffers.free loses)
      obtain ⟨_, stored', after, _⟩ := ends (reliable _ later).le
      exact ⟨reliable.later later, stored', after⟩
    have keeps : WriteBackCache.Obtainable view kv ArcCache.cache
          (track kv ArcCache.cache ((s, c), logical) op).2 →
        ¬ WriteBackCache.Loses kv (s, c) op :=
      fun obtainable loses => not_obtainable_of_loses buffers like reliable loses obtainable
    refine ⟨⟨keeps, fun loses => ?_⟩, fun obtainable => next (keeps obtainable)⟩
    obtain ⟨reliable', stored', after⟩ := next loses
    exact after.obtainable like arc_buffering reliable'
  · exact buffers_new _ (ArcCache.new cap) shown ⟨arc_empty_apart 0 _, le_max_right cap 1⟩
      (arc_empty_entry 0 _) ticks walks

theorem writeBack_arc_obtainable_of_puts :
    AlongRun (WriteBackCache.track plainKv ArcCache.cache)
      (fun p op => WriteBackCache.Obtainable plainView plainKv ArcCache.cache
        (WriteBackCache.track plainKv ArcCache.cache p op).2)
      ((∅, .new (ArcCache.new 2) (fun _ => 0) fun _ => .asListed), ∅)
      [.put [1] [10], .put [2] [20], .put [3] [30], .flush, .get [1]] := by
  refine (writeBack_arc_obtainable_iff plain_keyMap rfl (plain_reliableFrom ∅) 2 _ _ _).mpr
    ⟨nofun, nofun, nofun, nofun, ?_, trivial⟩
  rintro ⟨_, other, held, same, _, victim, missing⟩
  cases same
  cases (show some (([2] : Bytes), CacheEntry.new ([20] : Bytes)) = some (other, held) from victim)
  exact missing rfl

theorem writeBack_arc_loses :
    let p := afterRun (WriteBackCache.track plainKv ArcCache.cache)
      ((∅, .new (ArcCache.new 2) (fun _ => 0) fun _ => .asListed), ∅)
      [.put [1] [10], .put [2] [20], .put [3] [30], .get [1], .get [1]]
    p.2[([3] : Bytes)]? = some [30] ∧ ((WriteBackCache.get plainKv ArcCache.cache [3]).exec p.1).1 = .ok none ∧
      ((WriteBackCache.flush plainKv ArcCache.cache).exec p.1).2.1[([3] : Bytes)]? = none :=
  ⟨rfl, rfl, rfl⟩

end

end OxiStore.Caching
