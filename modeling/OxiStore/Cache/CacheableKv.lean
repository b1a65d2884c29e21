/-
**`CacheableKvStore`.**
-/

import OxiStore.Kv.Beside
import OxiStore.Cache.WriteThrough

namespace OxiStore.Caching

open ByteString StepProg Call

/-! ### The wrapper -/

variable {S T N σ α : Type}

def cacheableKv (kv : KvStore S T N) (cache : Cache Bytes Bytes σ) : KvStore (S × Clocked σ) T N where
  get key := readThrough kv cache key
  put key value := do
    Call.onStore (kv.put key value)
    let _ ← Call.beside (Clocked.untimed (cache.remove key))
  delete key := do
    Call.onStore (kv.delete key)
    let _ ← Call.beside (Clocked.untimed (cache.remove key))
  range low high := Call.onStore (kv.range low high)
  iter := Call.onStore kv.iter
  transaction := Call.onStore kv.transaction
  txn := kv.txn.beside (Clocked σ)
  snapshot := Call.onStore kv.snapshot
  snap := kv.snap.beside (Clocked σ)
  flush := Call.onStore kv.flush

def CallsCache : SessionOp → Prop
  | .store (.get _) => True
  | .store (.getRef _) => True
  | .store (.getMany _) => True
  | .store (.contains _) => True
  | .store (.put _ _) => True
  | .store (.delete _) => True
  | _ => False

def Bypasses : SessionOp → Prop
  | .store (.batchWrite _) => True
  | .store (.batchDelete _) => True
  | .store (.compareAndSwap _ _ _) => True
  | .commit _ => True
  | _ => False

variable {op : SessionOp}

theorem cacheable_step_eq (kv : KvStore S T N) (cache : Cache Bytes Bytes σ)
    (session : Session (S × Clocked σ) T N) (direct : ¬ CallsCache op) :
    session.step (cacheableKv kv cache) op = session.step (kv.beside (Clocked σ)) op := by
  cases op with
  | store op =>
    cases op with
    | get key | getRef key | getMany listed | contains key | put key value | delete key =>
      exact absurd trivial direct
    | _ => rfl
  | _ => rfl

theorem plain_step_quiet (p : PlainSession) (direct : ¬ CallsCache op) (reads : ¬ Bypasses op) :
    (p.step op).2.state = p.state := by
  cases op with
  | store op =>
    cases op with
    | put key value | delete key => exact absurd trivial direct
    | batchWrite pairs | batchDelete listed | compareAndSwap key expected newValue =>
      exact absurd trivial reads
    | _ => rfl
  | commit handle => exact absurd trivial reads
  | begin | snapshot => rfl
  | txn handle act | rollback handle | snap handle look =>
    unfold PlainSession.step
    dsimp only
    split
    all_goals rfl

theorem direct_of_bypasses (bypasses : Bypasses op) : ¬ CallsCache op := by
  cases op with
  | store op =>
    cases op with
    | batchWrite pairs | batchDelete listed | compareAndSwap key expected newValue => exact id
    | _ => exact False.elim bypasses
  | commit handle => exact id
  | _ => exact False.elim bypasses

/-! ### Look-ups -/

structure Caches (view : MapView S T N) (valid : σ → Prop) (entry : σ → Ledger Bytes Bytes)
    (s : S × Clocked σ) (contents : Contents) : Prop extends Mirrors view valid entry s contents where
  free : TtlFree (entry s.2.cache)

def Looks (view : MapView S T N) (valid : σ → Prop) (entry : σ → Ledger Bytes Bytes)
    (call : Call (S × Clocked σ) α) : Prop :=
  ∀ s contents, Caches view valid entry s contents →
    view.later s.1 (call.exec s).2.1 ∧ Caches view valid entry (call.exec s).2 contents

section

variable {β : Type} {view : MapView S T N} {kv : KvStore S T N} {cache : Cache Bytes Bytes σ}
  {valid : σ → Prop} {entry : σ → Ledger Bytes Bytes}

theorem looks_pure (value : α) : Looks view valid entry (pure value : Call (S × Clocked σ) α) :=
  fun s _ caches => ⟨view.later_refl s.1, caches⟩

variable {call : Call (S × Clocked σ) α}

theorem Looks.bind {rest : α → Call (S × Clocked σ) β} (first : Looks view valid entry call)
    (second : ∀ value, Looks view valid entry (rest value)) :
    Looks view valid entry (call >>= rest) := by
  intro s contents caches
  obtain ⟨later, caches'⟩ := first s contents caches
  rw [exec_bind]
  rcases runs : call.exec s with ⟨error | value, s'⟩
  · rw [runs] at later caches'
    exact ⟨later, caches'⟩
  · rw [runs] at later caches'
    obtain ⟨later', caches''⟩ := second value s' contents caches'
    exact ⟨view.later_trans later later', caches''⟩

theorem Looks.map (looks : Looks view valid entry call) (f : α → β) :
    Looks view valid entry (f <$> call) := by
  rw [map_eq_pure_bind]
  exact looks.bind fun value => looks_pure (f value)

theorem Looks.mapM {call : β → Call (S × Clocked σ) α} (looks : ∀ item, Looks view valid entry (call item))
    (items : List β) : Looks view valid entry (items.mapM call) := by
  induction items with
  | nil =>
    rw [List.mapM_nil]
    exact looks_pure []
  | cons item items ih =>
    rw [List.mapM_cons]
    exact (looks item).bind fun value => ih.bind fun values => looks_pure (value :: values)

theorem readThrough_free (sound : cache.Sound valid entry) {s : S × Clocked σ} (held : valid s.2.cache)
    (free : TtlFree (entry s.2.cache)) (key : Bytes) :
    TtlFree (entry ((readThrough kv cache key).exec s).2.2.cache) := by
  obtain ⟨looked, below⟩ := sound.get s.2.cache (s.2.ticks 0) key held
  rcases readThrough_cases kv cache key s with ⟨value, _, done⟩ | ⟨_, ⟨error, s', _, done⟩ |
    ⟨s', _, done⟩ | ⟨value, s', _, done⟩⟩
  · rw [done]
    exact free.below below
  · rw [done]
    exact free.below below
  · rw [done]
    exact free.below below
  · rw [done]
    exact ((free.below below).update key value).below (sound.put _ key value looked).2

theorem looks_readThrough (like : MapLike view kv) (sound : cache.Sound valid entry) (key : Bytes) :
    Looks view valid entry (readThrough kv cache key) := by
  intro s contents caches
  obtain ⟨later, mirrors, _, _⟩ := readThrough_mirrors caches.toMirrors like.toKeyMap sound key
  exact ⟨later, mirrors, readThrough_free sound caches.valid caches.free key⟩

end

/-! ### Sessions -/

/-- **A session of the wrapper**: nothing fails, the session of the store shows the plain one, and the cache
is a cache of its map. -/
structure Covered (view : MapView S T N) (valid : σ → Prop) (entry : σ → Ledger Bytes Bytes)
    (session : Session (S × Clocked σ) T N) (p : PlainSession) : Prop where
  reliable : view.ReliableFrom session.state.1
  shows : SessionShows view ⟨session.state.1, session.handles⟩ p
  caches : Caches view valid entry session.state p.state

def Coherent (kv : KvStore S T N) (cache : Cache Bytes Bytes σ) (session : Session (S × Clocked σ) T N) :
    Prop :=
  ∀ key, (((cacheableKv kv cache).get key).exec session.state).1 = ((kv.get key).exec session.state.1).1

def stepBeside (kv : KvStore S T N) (cache : Cache Bytes Bytes σ)
    (both : Session (S × Clocked σ) T N × PlainSession) (op : SessionOp) :
    Reply × Session (S × Clocked σ) T N × PlainSession :=
  ((both.1.step (cacheableKv kv cache) op).1, (both.1.step (cacheableKv kv cache) op).2, (both.2.step op).2)

/-- **A call that passes the cache by and gives a key that the cache holds another value**, on the plain
map. -/
def MakesStale (entry : σ → Ledger Bytes Bytes) (both : Session (S × Clocked σ) T N × PlainSession)
    (op : SessionOp) : Prop :=
  Bypasses op ∧ ∃ key held, entry both.1.state.2.cache key = some held ∧
    (both.2.step op).2.state[key]? ≠ both.2.state[key]?

section

variable {view : MapView S T N} {kv : KvStore S T N} {cache : Cache Bytes Bytes σ} {valid : σ → Prop}
  {entry : σ → Ledger Bytes Bytes} {session : Session (S × Clocked σ) T N} {p : PlainSession}

theorem step_store {S' : Type} (kv : KvStore S' T N) (session : Session S' T N) (op : StoreOp) :
    (session.step kv (.store op)).2 = ⟨((kv.reply op).exec session.state).2, session.handles⟩ := by
  unfold Session.step Session.perform KvStore.serve
  rw [exec_map]
  rcases (kv.reply op).exec session.state with ⟨error | reply, s'⟩
  all_goals rfl

variable (covered : Covered view valid entry session p)

include covered

theorem Covered.look {op : StoreOp} (looks : Looks view valid entry ((cacheableKv kv cache).reply op)) :
    Covered view valid entry (session.step (cacheableKv kv cache) (.store op)).2 p := by
  obtain ⟨later, caches⟩ := looks _ _ covered.caches
  rw [step_store]
  exact ⟨covered.reliable.later later, ⟨caches.shown, covered.shows.handles.later later⟩, caches⟩

theorem Covered.write (sound : cache.Sound valid entry) {write : Call S Unit} {key : Bytes}
    {contents : Contents}
    (serves : view.Serves write session.state.1 p.state fun _ s' => view.shows s' contents)
    (others : ∀ other, other ≠ key → contents[other]? = p.state[other]?) :
    Covered view valid entry
      ⟨(exec (do
          onStore write
          let _ ← beside (Clocked.untimed (cache.remove key))) session.state).2, session.handles⟩
      ⟨contents, p.handles⟩ := by
  obtain ⟨_, s', runs, later, shown⟩ := serves.exec_ok covered.reliable
  have stored : (onStore write).exec session.state = (.ok (), s', session.state.2) := by
    rw [exec_onStore, runs]
  obtain ⟨dropped, below⟩ := sound.remove session.state.2.cache key covered.caches.valid
  rw [exec_bind_ok stored]
  refine ⟨covered.reliable.later later, ⟨shown, covered.shows.handles.later later⟩, ⟨shown, dropped, ?_⟩, ?_⟩
  · exact (covered.caches.mirrored.forget others).below below
  · exact (covered.caches.free.below (below_update_none _ key)).below below

variable {op : SessionOp}

variable (like : MapLike view kv)

include like

theorem Covered.direct (cache : Cache Bytes Bytes σ) (direct : ¬ CallsCache op) :
    view.ReliableFrom (session.step (cacheableKv kv cache) op).2.state.1 ∧
      SessionShows view ⟨(session.step (cacheableKv kv cache) op).2.state.1,
        (session.step (cacheableKv kv cache) op).2.handles⟩ (p.step op).2 ∧
      (session.step (cacheableKv kv cache) op).2.state.2 = session.state.2 := by
  rw [cacheable_step_eq kv cache session direct]
  obtain ⟨p', agrees, shows, later, same⟩ := (beside_mapLike (Clocked σ) like).session_step
    (beside_inherits (Clocked σ) kv) (sessionShows_beside.mpr covered.shows) op
  rcases agrees with ⟨rfl, _⟩ | ⟨faulted, _⟩
  · exact ⟨covered.reliable.later later, sessionShows_beside.mp shows, same⟩
  · exact absurd faulted (covered.reliable _ later).not_gt

theorem Covered.step_through (sound : cache.Sound valid entry) (through : ¬ Bypasses op) :
    Covered view valid entry (session.step (cacheableKv kv cache) op).2 (p.step op).2 := by
  have read := looks_readThrough like sound
  by_cases direct : CallsCache op
  · cases op with
    | store op =>
      cases op with
      | get key | getRef key => exact covered.look ((read key).map _)
      | getMany listed => exact covered.look ((Looks.mapM read listed).map _)
      | contains key => exact covered.look (((read key).bind fun value => looks_pure value.isSome).map _)
      | put key value =>
        rw [step_store, KvStore.reply, exec_map]
        exact covered.write sound (like.put covered.shows.contents key value)
          fun other apart => get_insert_other apart p.state value
      | delete key =>
        rw [step_store, KvStore.reply, exec_map]
        exact covered.write sound (like.delete covered.shows.contents key)
          fun other apart => get_erase_other apart p.state
      | _ => exact False.elim direct
    | _ => exact False.elim direct
  · obtain ⟨reliable, shows, same⟩ := covered.direct like cache direct
    refine ⟨reliable, shows, ⟨shows.contents, ?_, ?_⟩, ?_⟩
    · rw [same]
      exact covered.caches.valid
    · rw [same, plain_step_quiet p direct through]
      exact covered.caches.mirrored
    · rw [same]
      exact covered.caches.free

theorem Covered.step_bypass (bypasses : Bypasses op) (fresh : ¬ MakesStale entry (session, p) op) :
    Covered view valid entry (session.step (cacheableKv kv cache) op).2 (p.step op).2 := by
  obtain ⟨reliable, shows, same⟩ := covered.direct like cache (direct_of_bypasses bypasses)
  refine ⟨reliable, shows, ⟨shows.contents, ?_, ?_⟩, ?_⟩
  · rw [same]
    exact covered.caches.valid
  · rw [same]
    intro key held here
    have unchanged : (p.step op).2.state[key]? = p.state[key]? := by
      by_contra changed
      exact fresh ⟨bypasses, key, held, here, changed⟩
    rw [unchanged, covered.caches.mirrored key held here]
  · rw [same]
    exact covered.caches.free

theorem Covered.coherent (sound : cache.Sound valid entry) :
    Coherent kv cache session := by
  intro key
  obtain ⟨later, _, finds, faulted⟩ := readThrough_mirrors covered.caches.toMirrors like.toKeyMap sound key
  show ((readThrough kv cache key).exec session.state).1 = _
  rw [reliable_get like.toKeyMap covered.reliable covered.shows.contents]
  cases answer : ((readThrough kv cache key).exec session.state).1 with
  | error error => exact absurd (faulted error answer) (covered.reliable _ later).not_gt
  | ok found => rw [finds found answer]

theorem Covered.incoherent
    (finds : ∀ s now key, valid s → (cache.get now key s).1 = (entry s key).bind (·.live now))
    (stale : MakesStale entry (session, p) op) :
    ¬ Coherent kv cache (session.step (cacheableKv kv cache) op).2 := by
  obtain ⟨bypasses, key, held, here, changed⟩ := stale
  obtain ⟨reliable, shows, same⟩ := covered.direct like cache (direct_of_bypasses bypasses)
  intro coherent
  have own := reliable_get like.toKeyMap reliable shows.contents key
  refine changed (Except.ok.inj (own.symm.trans ((coherent key).symm.trans ?_)))
  rw [covered.caches.mirrored key held here]
  generalize (session.step (cacheableKv kv cache) op).2.state = s at same
  have hit : (cache.get (s.2.ticks 0) key s.2.cache).1 = some held.value := by
    rw [same, finds _ _ key covered.caches.valid, here]
    exact covered.caches.free.alive here _
  show ((readThrough kv cache key).exec s).1 = _
  rcases readThrough_cases kv cache key s with ⟨value, hit', done⟩ | ⟨miss, _⟩
  · rw [hit] at hit'
    cases hit'
    rw [done]
  · simp [hit] at miss

end

section

variable {view : MapView S T N} {kv : KvStore S T N} {cache : Cache Bytes Bytes σ} {valid : σ → Prop}
  {entry : σ → Ledger Bytes Bytes} {contents : Contents}

theorem Covered.step {session : Session (S × Clocked σ) T N} {p : PlainSession}
    (covered : Covered view valid entry session p) (like : MapLike view kv) (sound : cache.Sound valid entry)
    {op : SessionOp} (fresh : ¬ MakesStale entry (session, p) op) :
    Covered view valid entry (session.step (cacheableKv kv cache) op).2 (p.step op).2 := by
  by_cases bypasses : Bypasses op
  · exact covered.step_bypass like bypasses fresh
  · exact covered.step_through like sound bypasses

/-- **A `get` of the wrapper is the store's own `get`, in every state that a run reaches, if no call that
passes the cache by changes a key that the cache holds**; and only then, for a cache that finds what it
holds. -/
theorem cacheable_coherent (like : MapLike view kv) (sound : cache.Sound valid entry) {s : S}
    (shown : view.shows s contents) (reliable : view.ReliableFrom s) {empty : σ} (held : valid empty)
    (nothing : ∀ key, entry empty key = none) (ticks : ℕ → Instant) (ops : List SessionOp) :
    (AlongRun (stepBeside kv cache) (fun both op => ¬ MakesStale entry both op)
        (⟨(s, ⟨empty, ticks⟩), .none⟩, ⟨contents, .none⟩) ops →
      AlongRun (stepBeside kv cache) (fun both op => Coherent kv cache (stepBeside kv cache both op).2.1)
        (⟨(s, ⟨empty, ticks⟩), .none⟩, ⟨contents, .none⟩) ops) ∧
    ((∀ s now key, valid s → (cache.get now key s).1 = (entry s key).bind (·.live now)) →
      AlongRun (stepBeside kv cache) (fun both op => Coherent kv cache (stepBeside kv cache both op).2.1)
        (⟨(s, ⟨empty, ticks⟩), .none⟩, ⟨contents, .none⟩) ops →
      AlongRun (stepBeside kv cache) (fun both op => ¬ MakesStale entry both op)
        (⟨(s, ⟨empty, ticks⟩), .none⟩, ⟨contents, .none⟩) ops) := by
  have start : Covered view valid entry ⟨(s, ⟨empty, ticks⟩), .none⟩ ⟨contents, .none⟩ :=
    ⟨reliable, ⟨shown, .none⟩, ⟨shown, held, mirrored_empty nothing contents⟩, ttlFree_of_empty nothing⟩
  constructor
  · have next : ∀ both op, Covered view valid entry both.1 both.2 → ¬ MakesStale entry both op →
        Coherent kv cache (stepBeside kv cache both op).2.1 ∧
          Covered view valid entry (stepBeside kv cache both op).2.1 (stepBeside kv cache both op).2.2 := by
      intro both op covered fresh
      have covered' := covered.step like sound fresh
      exact ⟨covered'.coherent like sound, covered'⟩
    exact fun fresh => alongRun_of_invariant next start fresh
  · intro finds
    have back : ∀ both op, Covered view valid entry both.1 both.2 →
        Coherent kv cache (stepBeside kv cache both op).2.1 → ¬ MakesStale entry both op ∧
          Covered view valid entry (stepBeside kv cache both op).2.1 (stepBeside kv cache both op).2.2 := by
      intro both op covered coherent
      have fresh : ¬ MakesStale entry both op := fun stale => covered.incoherent like finds stale coherent
      exact ⟨fresh, covered.step like sound fresh⟩
    exact fun coherent => alongRun_of_invariant back start coherent

theorem cacheable_coherent_of_dropped :
    AlongRun (stepBeside sled.kv LruCache.cache)
      (fun both op => Coherent sled.kv LruCache.cache (stepBeside sled.kv LruCache.cache both op).2.1)
      (⟨(⟨.empty, .last⟩, ⟨LruCache.new 2, fun _ => 0⟩), .none⟩, ⟨∅, .none⟩)
      [.store (.put [1] [10]), .store (.batchWrite [([1], [11])]), .store (.get [1])] := by
  refine (cacheable_coherent (Backend.mapLike sled_live) lru_sound (sled.shows_empty .last)
    (sled.reliableFrom _) trivial LinkedMap.get_empty _ _).1 ⟨?_, ?_, ?_, trivial⟩
  · rintro ⟨bypasses, _⟩
    exact bypasses
  · rintro ⟨_, key, held, here, _⟩
    cases here
  · rintro ⟨bypasses, _⟩
    exact bypasses

theorem cacheable_stale_after_batch :
    let s := (afterRun (Session.step (cacheableKv sled.kv LruCache.cache))
      ⟨(⟨.empty, .last⟩, ⟨LruCache.new 2, fun _ => 0⟩), .none⟩
      [.store (.put [1] [10]), .store (.get [1]), .store (.batchWrite [([1], [11])])]).state
    (((cacheableKv sled.kv LruCache.cache).get [1]).exec s).1 = .ok (some [10]) ∧
      ((sled.kv.get [1]).exec s.1).1 = .ok (some [11]) :=
  ⟨by decide +kernel, by decide +kernel⟩

end

end OxiStore.Caching
