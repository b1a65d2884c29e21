/-
**`WriteThroughCache`, and what the adapters have in common.**
-/

import OxiStore.Kv.PlainStore
import OxiStore.Cache.Lru
import OxiStore.Cache.Arc
import OxiStore.Cache.LfuBooks
import OxiStore.Cache.TinyLfu

namespace OxiStore.Caching

open ByteString StepProg Function Call

/-! ### A cache and a clock -/

structure Clocked (σ : Type) where
  cache : σ
  ticks : ℕ → Instant

namespace Clocked

variable {σ α : Type}

def timed (access : Instant → σ → α × σ) (c : Clocked σ) : α × Clocked σ :=
  ((access (c.ticks 0) c.cache).1, ⟨(access (c.ticks 0) c.cache).2, fun n => c.ticks (n + 1)⟩)

def untimed (access : σ → α × σ) (c : Clocked σ) : α × Clocked σ :=
  ((access c.cache).1, { c with cache := (access c.cache).2 })

end Clocked

/-! ### What is asked of a cache -/

/-- **A cache that reports only what it holds**, and holds only what was put and not taken back. -/
structure Cache.Sound {κ V σ : Type} [DecidableEq κ] (cache : Cache κ V σ) (valid : σ → Prop)
    (entry : σ → Ledger κ V) : Prop where
  reads : ∀ s now key value, valid s → (cache.get now key s).1 = some value →
    ∃ held, entry s key = some held ∧ held.live now = some value
  get : ∀ s now key, valid s →
    valid (cache.get now key s).2 ∧ Below (entry (cache.get now key s).2) (entry s)
  put : ∀ s key value, valid s → valid (cache.put key value s).2 ∧
    Below (entry (cache.put key value s).2) (Function.update (entry s) key (some (.new value)))
  remove : ∀ s key, valid s →
    valid (cache.remove key s).2 ∧ Below (entry (cache.remove key s).2) (Function.update (entry s) key none)

section

variable {κ V σ : Type} [DecidableEq κ]

theorem Cache.Lawful.sound {cache : Cache κ V σ} {insertEntry : κ → CacheEntry V → σ → Option V × σ}
    {valid : σ → Prop} {entry : σ → Ledger κ V}
    (lawful : cache.Lawful insertEntry valid entry fun _ _ => True) : cache.Sound valid entry where
  reads s now key value held found := lawful.reads s now key value held (Or.inl found)
  get := lawful.get
  put s key value held := by
    rw [lawful.put]
    obtain ⟨still, below⟩ := lawful.insert s key (.new value) held
    exact ⟨still, below trivial⟩
  remove := lawful.remove

theorem lru_sound : (LruCache.cache : Cache κ V _).Sound (fun _ => True) fun s => s.map.get :=
  lru_lawful.sound

theorem arc_sound : (ArcCache.cache : Cache κ V _).Sound ArcCache.Apart ArcCache.entry := arc_lawful.sound

def LfuCache.Working (s : LfuCache κ V) : Prop := s.cap ≠ 0 ∧ ∃ t, s.Books t

theorem lfu_working_new {cap : ℕ} (positive : 1 ≤ cap) : (LfuCache.new cap : LfuCache κ V).Working :=
  ⟨Nat.one_le_iff_ne_zero.mp positive, Tally.start, books_empty cap 0 Tally.start⟩

theorem LfuCache.Working.leaves {s s' : LfuCache κ V} (working : s.Working)
    (leaves : ∀ t, s.Books t → ∃ t', s.Leaves s' t') : s'.Working := by
  obtain ⟨takes, t, books⟩ := working
  obtain ⟨t', left⟩ := leaves t books
  refine ⟨?_, t', left.books⟩
  rw [left.cap]
  exact takes

theorem lfu_sound : (LfuCache.cache : Cache κ V _).Sound LfuCache.Working LfuCache.entry where
  reads s now key value _ found := lfu_lawful.reads s now key value trivial (Or.inl found)
  get _ now key working :=
    ⟨working.leaves fun _ books => ⟨_, books.leaves_get now key⟩, (lfu_lawful.get _ now key trivial).2⟩
  put _ key value working :=
    ⟨working.leaves fun _ books => ⟨_, books.leaves_insertEntry key (.new value)⟩,
      lfu_insertEntry_below (Or.inl working.1) (.new value)⟩
  remove _ key working :=
    ⟨working.leaves fun _ books => ⟨_, books.leaves_remove key⟩, (lfu_lawful.remove _ key trivial).2⟩

end

/-! ### Mirrors -/

def Mirrored (ledger : Ledger Bytes Bytes) (contents : Contents) : Prop :=
  ∀ key held, ledger key = some held → contents[key]? = some held.value

section

variable {ledger ledger' : Ledger Bytes Bytes} {contents : Contents} {key : Bytes}

theorem mirrored_empty (empty : ∀ key, ledger key = none) (contents : Contents) :
    Mirrored ledger contents := by
  intro key held here
  simp [empty] at here

variable (mirrored : Mirrored ledger contents)

include mirrored

theorem Mirrored.below (below : Below ledger' ledger) :
    Mirrored ledger' contents := fun key held here => mirrored key held (below key held here)

theorem Mirrored.change {contents' : Contents} {new : Option (CacheEntry Bytes)}
    (others : ∀ other, other ≠ key → contents'[other]? = contents[other]?)
    (own : ∀ held, new = some held → contents'[key]? = some held.value) :
    Mirrored (update ledger key new) contents' := by
  intro other held here
  by_cases same : other = key
  · rw [same, update_self] at here
    rw [same]
    exact own held here
  · rw [update_of_ne same] at here
    rw [others other same]
    exact mirrored other held here

omit mirrored

theorem get_insert_other {other : Bytes} (apart : other ≠ key) (contents : Contents) (value : Bytes) :
    (contents.insert key value)[other]? = contents[other]? := by
  rw [OrdTable.get_insert, if_neg apart.symm]

theorem get_erase_other {other : Bytes} (apart : other ≠ key) (contents : Contents) :
    (contents.erase key)[other]? = contents[other]? := by
  rw [OrdTable.get_erase, if_neg apart.symm]

include mirrored

theorem Mirrored.fill {value : Bytes} (there : contents[key]? = some value) :
    Mirrored (update ledger key (some (.new value))) contents := by
  refine mirrored.change (fun _ _ => rfl) fun held same => ?_
  cases same
  exact there

theorem Mirrored.insert (key value : Bytes) :
    Mirrored (update ledger key (some (.new value))) (contents.insert key value) := by
  refine mirrored.change (fun other apart => get_insert_other apart contents value) fun held same => ?_
  cases same
  rw [OrdTable.get_insert, if_pos rfl]
  rfl

theorem Mirrored.forget {contents' : Contents}
    (others : ∀ other, other ≠ key → contents'[other]? = contents[other]?) :
    Mirrored (update ledger key none) contents' := by
  refine mirrored.change others fun held same => ?_
  cases same

end

section

variable {S T N σ : Type}

/-- **A store that shows a map, and a cache of the map.** -/
structure Mirrors (view : MapView S T N) (valid : σ → Prop) (entry : σ → Ledger Bytes Bytes)
    (s : S × Clocked σ) (contents : Contents) : Prop where
  shown : view.shows s.1 contents
  valid : valid s.2.cache
  mirrored : Mirrored (entry s.2.cache) contents

def readThrough (kv : KvStore S T N) (cache : Cache Bytes Bytes σ) (key : Bytes) :
    Call (S × Clocked σ) (Option Bytes) := do
  match ← Call.beside (Clocked.timed fun now => cache.get now key) with
  | some value => pure (some value)
  | none =>
      match ← Call.onStore (kv.get key) with
      | some value =>
          let _ ← Call.beside (Clocked.untimed (cache.put key value))
          pure (some value)
      | none => pure none

theorem readThrough_cases (kv : KvStore S T N) (cache : Cache Bytes Bytes σ) (key : Bytes)
    (s : S × Clocked σ) :
    (∃ value, (cache.get (s.2.ticks 0) key s.2.cache).1 = some value ∧
      (readThrough kv cache key).exec s =
        (.ok (some value), s.1, (s.2.timed fun now => cache.get now key).2)) ∨
    (cache.get (s.2.ticks 0) key s.2.cache).1 = none ∧
      ((∃ error s', (kv.get key).exec s.1 = (.error error, s') ∧ (readThrough kv cache key).exec s =
        (.error error, s', (s.2.timed fun now => cache.get now key).2)) ∨
      (∃ s', (kv.get key).exec s.1 = (.ok none, s') ∧ (readThrough kv cache key).exec s =
        (.ok none, s', (s.2.timed fun now => cache.get now key).2)) ∨
      ∃ value s', (kv.get key).exec s.1 = (.ok (some value), s') ∧ (readThrough kv cache key).exec s =
        (.ok (some value), s',
          ((s.2.timed fun now => cache.get now key).2.untimed (cache.put key value)).2)) := by
  have looked : (beside (Clocked.timed fun now => cache.get now key) :
      Call (S × Clocked σ) (Option Bytes)).exec s =
      (.ok (cache.get (s.2.ticks 0) key s.2.cache).1, s.1, (s.2.timed fun now => cache.get now key).2) := rfl
  unfold readThrough
  cases hit : (cache.get (s.2.ticks 0) key s.2.cache).1 with
  | some value =>
    rw [hit] at looked
    exact Or.inl ⟨value, rfl, exec_bind_ok looked⟩
  | none =>
    rw [hit] at looked
    refine Or.inr ⟨rfl, ?_⟩
    rw [exec_bind_ok looked]
    dsimp only
    rw [exec_bind, exec_onStore]
    rcases (kv.get key).exec s.1 with ⟨error | found, s'⟩
    · exact Or.inl ⟨error, s', rfl, rfl⟩
    · cases found with
      | none => exact Or.inr (Or.inl ⟨s', rfl, rfl⟩)
      | some value => exact Or.inr (Or.inr ⟨value, s', rfl, rfl⟩)

variable {view : MapView S T N} {kv : KvStore S T N} {cache : Cache Bytes Bytes σ} {valid : σ → Prop}
  {entry : σ → Ledger Bytes Bytes} {s : S × Clocked σ} {contents : Contents}

variable (mirrors : Mirrors view valid entry s contents)

include mirrors

theorem Mirrors.access {s' : S} (shown : view.shows s' contents) {c : Clocked σ} (held : valid c.cache)
    (below : Below (entry c.cache) (entry s.2.cache)) :
    Mirrors view valid entry (s', c) contents := ⟨shown, held, mirrors.mirrored.below below⟩

variable (like : KeyMap view kv)

include like

variable (sound : cache.Sound valid entry)

include sound in
theorem readThrough_mirrors (key : Bytes) :
    view.later s.1 ((readThrough kv cache key).exec s).2.1 ∧
      Mirrors view valid entry ((readThrough kv cache key).exec s).2 contents ∧
      (∀ found, ((readThrough kv cache key).exec s).1 = .ok found → found = contents[key]?) ∧
      ∀ error, ((readThrough kv cache key).exec s).1 = .error error →
        view.faults s.1 < view.faults ((readThrough kv cache key).exec s).2.1 := by
  have fetch := like.get mirrors.shown key
  obtain ⟨looked, below⟩ := sound.get s.2.cache (s.2.ticks 0) key mirrors.valid
  rcases readThrough_cases kv cache key s with ⟨value, hit, done⟩ | ⟨_, ⟨error, s', runs, done⟩ |
    ⟨s', runs, done⟩ | ⟨value, s', runs, done⟩⟩
  · obtain ⟨held, here, live⟩ := sound.reads s.2.cache _ key value mirrors.valid hit
    rw [done]
    refine ⟨view.later_refl s.1, mirrors.access mirrors.shown looked below, fun found same => ?_,
      fun error fails => ?_⟩
    · cases same
      rw [mirrors.mirrored key held here, (CacheEntry.live_eq_some.mp live).2]
    · cases fails
  · obtain ⟨later, faulted, shown⟩ := fetch.of_error runs
    rw [done]
    refine ⟨later, mirrors.access shown looked below, fun found same => ?_, fun _ _ => faulted⟩
    cases same
  · obtain ⟨later, found', shown⟩ := fetch.of_ok runs
    rw [done]
    refine ⟨later, mirrors.access shown looked below, fun found same => ?_, fun error fails => ?_⟩
    · cases same
      exact found'
    · cases fails
  · obtain ⟨later, found', shown⟩ := fetch.of_ok runs
    obtain ⟨filled, below'⟩ := sound.put _ key value looked
    rw [done]
    refine ⟨later, ⟨shown, filled, ?_⟩, fun found same => ?_, fun error fails => ?_⟩
    · exact ((mirrors.mirrored.below below).fill found'.symm).below below'
    · cases same
      exact found'
    · cases fails

omit mirrors

theorem reliable_get {s : S} (reliable : view.ReliableFrom s) (shown : view.shows s contents) (key : Bytes) :
    ((kv.get key).exec s).1 = .ok contents[key]? := by
  obtain ⟨found, s', runs, _, same, _⟩ := (like.get shown key).exec_ok reliable
  rw [runs, same]

omit like

/-! ### `WriteThroughCache` -/

namespace WriteThroughCache

variable (kv : KvStore S T N) (cache : Cache Bytes Bytes σ)

def get (key : Bytes) : Call (S × Clocked σ) (Option Bytes) := readThrough kv cache key

def put (key value : Bytes) : Call (S × Clocked σ) Unit := do
  Call.onStore (kv.put key value)
  let _ ← Call.beside (Clocked.untimed (cache.put key value))

def remove (key : Bytes) : Call (S × Clocked σ) Unit := do
  let _ ← Call.beside (Clocked.untimed (cache.remove key))
  Call.onStore (kv.delete key)

inductive Op where
  | get (key : Bytes)
  | put (key value : Bytes)
  | remove (key : Bytes)

def step (s : S × Clocked σ) : Op → Except StoreError (Option Bytes) × (S × Clocked σ)
  | .get key => (get kv cache key).exec s
  | .put key value => ((fun _ => none) <$> put kv cache key value).exec s
  | .remove key => ((fun _ => none) <$> remove kv cache key).exec s

end WriteThroughCache

def StoreHolds (view : MapView S T N) (kv : KvStore S T N) (s : S) (key : Bytes) (found : Option Bytes) :
    Prop :=
  (∃ contents, view.shows s contents ∧ found = contents[key]?) ∧
    ∀ own, ((kv.get key).exec s).1 = .ok own → own = found

include like

theorem storeHolds {s : S} (shown : view.shows s contents) (key : Bytes) :
    StoreHolds view kv s key contents[key]? := by
  refine ⟨⟨contents, shown, rfl⟩, fun own answers => ?_⟩
  rcases runs : (kv.get key).exec s with ⟨error | found, s'⟩
  · simp [runs] at answers
  · rw [runs] at answers
    cases answers
    exact ((like.get shown key).of_ok runs).2.1

include mirrors

include sound

theorem writeThrough_put_mirrors (key value : Bytes) : ∃ contents',
      Mirrors view valid entry ((WriteThroughCache.put kv cache key value).exec s).2 contents' := by
  unfold WriteThroughCache.put
  rw [exec_bind, exec_onStore]
  rcases runs : (kv.put key value).exec s.1 with ⟨error | _, s'⟩
  · exact ⟨contents, ((like.put mirrors.shown key value).of_error runs).2.2, mirrors.valid, mirrors.mirrored⟩
  · obtain ⟨filled, below⟩ := sound.put s.2.cache key value mirrors.valid
    exact ⟨contents.insert key value, ((like.put mirrors.shown key value).of_ok runs).2, filled,
      (mirrors.mirrored.insert key value).below below⟩

theorem writeThrough_remove_mirrors (key : Bytes) :
    ∃ contents', Mirrors view valid entry ((WriteThroughCache.remove kv cache key).exec s).2 contents' := by
  obtain ⟨dropped, below⟩ := sound.remove s.2.cache key mirrors.valid
  have gone : (beside (Clocked.untimed (cache.remove key)) :
      Call (S × Clocked σ) (Option Bytes)).exec s =
      (.ok (cache.remove key s.2.cache).1, s.1, (s.2.untimed (cache.remove key)).2) := rfl
  unfold WriteThroughCache.remove
  rw [exec_bind_ok gone, exec_onStore]
  rcases runs : (kv.delete key).exec s.1 with ⟨error | _, s'⟩
  · exact ⟨contents, ((like.delete mirrors.shown key).of_error runs).2.2, dropped,
      (mirrors.mirrored.forget fun _ _ => rfl).below below⟩
  · exact ⟨contents.erase key, ((like.delete mirrors.shown key).of_ok runs).2, dropped,
      (mirrors.mirrored.forget fun other apart => get_erase_other apart contents).below below⟩

def WriteThroughCache.ReadsStore (view : MapView S T N) (kv : KvStore S T N) (cache : Cache Bytes Bytes σ)
    (s : S × Clocked σ) (op : WriteThroughCache.Op) : Prop :=
  ∀ key, op = .get key → ∀ found, (WriteThroughCache.step kv cache s op).1 = .ok found →
    StoreHolds view kv (WriteThroughCache.step kv cache s op).2.1 key found

theorem writeThrough_step (op : WriteThroughCache.Op) :
    WriteThroughCache.ReadsStore view kv cache s op ∧
      ∃ contents', Mirrors view valid entry (WriteThroughCache.step kv cache s op).2 contents' := by
  cases op with
  | get key =>
    obtain ⟨_, still, finds, _⟩ := readThrough_mirrors mirrors like sound key
    refine ⟨fun key' same found answers => ?_, contents, still⟩
    cases same
    rw [finds found answers]
    exact storeHolds like still.shown key
  | put key value =>
    refine ⟨fun key' same => (by cases same), ?_⟩
    show ∃ contents', Mirrors view valid entry (exec _ s).2 contents'
    rw [exec_map]
    exact writeThrough_put_mirrors mirrors like sound key value
  | remove key =>
    refine ⟨fun key' same => (by cases same), ?_⟩
    show ∃ contents', Mirrors view valid entry (exec _ s).2 contents'
    rw [exec_map]
    exact writeThrough_remove_mirrors mirrors like sound key

omit mirrors

theorem readsStore_alongRun {s : S} (shown : view.shows s contents) {fresh : σ} (held : valid fresh)
    (empty : ∀ key, entry fresh key = none) (ticks : ℕ → Instant) (ops : List WriteThroughCache.Op) :
    AlongRun (WriteThroughCache.step kv cache) (WriteThroughCache.ReadsStore view kv cache)
      (s, ⟨fresh, ticks⟩) ops := by
  have keeps : ∀ s op, (∃ contents, Mirrors view valid entry s contents) → True →
      WriteThroughCache.ReadsStore view kv cache s op ∧
        ∃ contents, Mirrors view valid entry (WriteThroughCache.step kv cache s op).2 contents := by
    rintro s op ⟨contents, mirrors⟩ _
    exact writeThrough_step mirrors like sound op
  exact alongRun_of_invariant keeps ⟨contents, shown, held, mirrored_empty empty contents⟩
    (alongRun_of_forall (fun _ _ => trivial) _ ops)

omit sound

omit like

/-- **A `WriteThroughCache` reads what its store holds**, along every run and with whatever failures of the
store. -/
theorem writeThrough_reads_store (like : KeyMap view kv) {s : S} (shown : view.shows s contents) {cap : ℕ}
    (positive : 1 ≤ cap) (ticks : ℕ → Instant) (ops : List WriteThroughCache.Op) :
    AlongRun (WriteThroughCache.step kv LruCache.cache)
        (WriteThroughCache.ReadsStore view kv LruCache.cache) (s, ⟨LruCache.new cap, ticks⟩) ops ∧
      AlongRun (WriteThroughCache.step kv ArcCache.cache)
        (WriteThroughCache.ReadsStore view kv ArcCache.cache) (s, ⟨ArcCache.new cap, ticks⟩) ops ∧
      AlongRun (WriteThroughCache.step kv LfuCache.cache)
        (WriteThroughCache.ReadsStore view kv LfuCache.cache) (s, ⟨LfuCache.new cap, ticks⟩) ops := by
  refine ⟨?_, ?_, ?_⟩
  · exact readsStore_alongRun like lru_sound shown trivial LinkedMap.get_empty ticks ops
  · exact readsStore_alongRun like arc_sound shown (arc_empty_apart 0 _) (arc_empty_entry 0 _) ticks ops
  · exact readsStore_alongRun like lfu_sound shown (lfu_working_new positive) (fun _ => rfl) ticks ops

theorem writeThrough_reads_after_failure :
    let s := ((∅, ⟨[false, true], 0⟩), ⟨LruCache.new 2, fun _ => 0⟩)
    let ops := [.put [1] [10], .remove [1], .get [1]]
    AlongRun (WriteThroughCache.step (flaky plainKv) LruCache.cache)
        (WriteThroughCache.ReadsStore plainView.flaky (flaky plainKv) LruCache.cache) s ops ∧
      (afterRun (WriteThroughCache.step (flaky plainKv) LruCache.cache) s ops).1.2.failures = 1 :=
  ⟨(writeThrough_reads_store (flaky_keyMap plain_keyMap) rfl (by decide) _ _).1, rfl⟩

end

end OxiStore.Caching
