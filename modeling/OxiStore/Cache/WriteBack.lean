/-
**`WriteBackCache`.**
-/

import OxiStore.Cache.WriteThrough

namespace OxiStore.Caching

open ByteString Call

/-! ### The adapter -/

structure Walk where
  order : List Bytes → List Bytes
  lists : ∀ keys, (order keys).Perm keys

def Walk.asListed : Walk := ⟨id, fun keys => .refl keys⟩

structure WriteBackCache (σ : Type) where
  clocked : Clocked σ
  dirty : LinkedMap Bytes Unit
  walks : ℕ → Walk

variable {S T N σ α : Type}

namespace WriteBackCache

def new (cache : σ) (ticks : ℕ → Instant) (walks : ℕ → Walk) : WriteBackCache σ := ⟨⟨cache, ticks⟩, ∅, walks⟩

def onCache (access : Clocked σ → α × Clocked σ) (c : WriteBackCache σ) : α × WriteBackCache σ :=
  ((access c.clocked).1, { c with clocked := (access c.clocked).2 })

def look (seen : Instant → σ → α) : WriteBackCache σ → α × WriteBackCache σ :=
  onCache (Clocked.timed fun now s => (seen now s, s))

def dirtyKeys (c : WriteBackCache σ) : List Bytes × WriteBackCache σ :=
  ((c.walks 0).order c.dirty.keys, { c with walks := fun n => c.walks (n + 1) })

def hasRoom (cache : Cache Bytes Bytes σ) (c : WriteBackCache σ) : Bool × WriteBackCache σ :=
  (cache.len c.clocked.cache < cache.cap c.clocked.cache, c)

variable (kv : KvStore S T N) (cache : Cache Bytes Bytes σ)

def get (key : Bytes) : Call (S × WriteBackCache σ) (Option Bytes) := do
  match ← Call.beside (onCache (Clocked.timed fun now => cache.get now key)) with
  | some value => pure (some value)
  | none => Call.onStore (kv.get key)

def flushKeys : List Bytes → Call (S × WriteBackCache σ) Unit
  | [] => pure ()
  | key :: keys => do
      match ← Call.beside (look fun now => cache.peek now key) with
      | some value => Call.onStore (kv.put key value)
      | none => pure ()
      flushKeys keys

def flushDirty : Call (S × WriteBackCache σ) Unit := do
  let keys ← Call.beside dirtyKeys
  flushKeys kv cache keys

def flush : Call (S × WriteBackCache σ) Unit := do
  flushDirty kv cache
  Call.beside fun c => ((), { c with dirty := ∅ })

def flushIfEvictionImminent (incomingKey : Bytes) : Call (S × WriteBackCache σ) Unit := do
  if ← Call.beside (look fun now => cache.containsKey now incomingKey) then pure ()
  else if ← Call.beside (hasRoom cache) then pure ()
  else flushDirty kv cache

def put (key value : Bytes) : Call (S × WriteBackCache σ) Unit := do
  flushIfEvictionImminent kv cache key
  Call.beside fun c => ((), { c with dirty := c.dirty.insert key () })
  let _ ← Call.beside (onCache (Clocked.untimed (cache.put key value)))

def remove (key : Bytes) : Call (S × WriteBackCache σ) Unit := do
  let _ ← Call.beside (onCache (Clocked.untimed (cache.remove key)))
  Call.beside fun c => ((), { c with dirty := c.dirty.erase key })
  Call.onStore (kv.delete key)

inductive Op where
  | get (key : Bytes)
  | put (key value : Bytes)
  | remove (key : Bytes)
  | flush

def step (s : S × WriteBackCache σ) : Op → Except StoreError (Option Bytes) × (S × WriteBackCache σ)
  | .get key => (get kv cache key).exec s
  | .put key value => ((fun _ => none) <$> put kv cache key value).exec s
  | .remove key => ((fun _ => none) <$> remove kv cache key).exec s
  | .flush => ((fun _ => none) <$> flush kv cache).exec s

def Op.onMap (logical : Contents) : Op → Option Bytes × Contents
  | .get key => (logical[key]?, logical)
  | .put key value => (none, logical.insert key value)
  | .remove key => (none, logical.erase key)
  | .flush => (none, logical)

structure Ages (c c' : WriteBackCache σ) : Prop where
  cache : c'.clocked.cache = c.clocked.cache
  dirty : c'.dirty = c.dirty
  ticks : ∀ m, ∃ n, c'.clocked.ticks m = c.clocked.ticks n

theorem Ages.refl (c : WriteBackCache σ) : c.Ages c := ⟨rfl, rfl, fun m => ⟨m, rfl⟩⟩

theorem Ages.trans {c c' c'' : WriteBackCache σ} (first : c.Ages c') (second : c'.Ages c'') : c.Ages c'' where
  cache := second.cache.trans first.cache
  dirty := second.dirty.trans first.dirty
  ticks m := by
    obtain ⟨n, later⟩ := second.ticks m
    obtain ⟨n', earlier⟩ := first.ticks n
    exact ⟨n', later.trans earlier⟩

theorem look_ages (seen : Instant → σ → α) (c : WriteBackCache σ) : c.Ages (look seen c).2 :=
  ⟨rfl, rfl, fun m => ⟨m + 1, rfl⟩⟩

theorem dirtyKeys_ages (c : WriteBackCache σ) : c.Ages c.dirtyKeys.2 := ⟨rfl, rfl, fun m => ⟨m, rfl⟩⟩

theorem mem_dirtyKeys {c : WriteBackCache σ} {key : Bytes} (marked : c.dirty.contains key = true) :
    key ∈ c.dirtyKeys.1 := ((c.walks 0).lists c.dirty.keys).mem_iff.mpr (c.dirty.mem_keys_iff.mpr marked)

end WriteBackCache

open WriteBackCache

/-! ### The loop -/

def Written (seen : Bytes → Option Bytes) (stored stored' : Contents) : Prop :=
  ∀ key : Bytes, stored'[key]? = stored[key]? ∨ ∃ value, seen key = some value ∧ stored'[key]? = some value

section

variable {seen : Bytes → Option Bytes} {stored stored' stored'' : Contents} {key value : Bytes}

theorem Written.refl (seen : Bytes → Option Bytes) (stored : Contents) : Written seen stored stored :=
  fun _ => Or.inl rfl

theorem Written.trans (first : Written seen stored stored') (second : Written seen stored' stored'') :
    Written seen stored stored'' := by
  intro key
  rcases second key with same | newer
  · rw [same]
    exact first key
  · exact Or.inr newer

theorem written_insert (shows : seen key = some value) (stored : Contents) :
    Written seen stored (stored.insert key value) := by
  intro other
  by_cases own : other = key
  · refine Or.inr ⟨value, by rw [own, shows], ?_⟩
    rw [own, OrdTable.get_insert, if_pos rfl]
  · exact Or.inl (get_insert_other own stored value)

theorem Written.keeps (written : Written seen stored stored') (shows : seen key = some value)
    (there : stored[key]? = some value) : stored'[key]? = some value := by
  rcases written key with same | ⟨value', shows', there'⟩
  · rw [same, there]
  · rw [there', ← shows', shows]

theorem Written.or_eq (written : Written seen stored stored') (key : Bytes) :
    (seen key).or stored'[key]? = (seen key).or stored[key]? := by
  rcases written key with same | ⟨value, shows, _⟩
  · rw [same]
  · rw [shows]
    rfl

end

/-- **Entries were written to the store**, all of them or some of them and then a failure. -/
structure WritesBack (view : MapView S T N) (seen : Bytes → Option Bytes) (s : S) (c : WriteBackCache σ)
    (stored : Contents) (done : Except StoreError Unit × (S × WriteBackCache σ)) (stored' : Contents) :
    Prop where
  later : view.later s done.2.1
  shown : view.shows done.2.1 stored'
  ages : c.Ages done.2.2
  written : Written seen stored stored'
  faulted : ∀ error, done.1 = .error error → view.faults s < view.faults done.2.1

section

variable {view : MapView S T N} {kv : KvStore S T N} {cache : Cache Bytes Bytes σ}
  {seen : Bytes → Option Bytes} {s s' : S} {c c' : WriteBackCache σ} {stored stored' stored'' : Contents}

variable (shown : view.shows s stored)

include shown in
theorem WritesBack.refl (seen : Bytes → Option Bytes) (c : WriteBackCache σ) :
    WritesBack view seen s c stored (.ok (), s, c) stored where
  later := view.later_refl s
  shown := shown
  ages := .refl c
  written := .refl seen stored
  faulted error fails := by cases fails

variable {done : Except StoreError Unit × (S × WriteBackCache σ)}

theorem WritesBack.after (rest : WritesBack view seen s' c' stored' done stored'') (later : view.later s s')
    (ages : c.Ages c') (written : Written seen stored stored') :
    WritesBack view seen s c stored done stored'' where
  later := view.later_trans later rest.later
  shown := rest.shown
  ages := ages.trans rest.ages
  written := written.trans rest.written
  faulted error fails := lt_of_le_of_lt (view.faults_later later) (rest.faulted error fails)

theorem WritesBack.aged (rest : WritesBack view seen s c' stored done stored') (ages : c.Ages c') :
    WritesBack view seen s c stored done stored' :=
  rest.after (view.later_refl s) ages (.refl seen stored)

def Sees (cache : Cache Bytes Bytes σ) (seen : Bytes → Option Bytes) (c : WriteBackCache σ) : Prop :=
  ∀ n key, cache.peek (c.clocked.ticks n) key c.clocked.cache = seen key

theorem Sees.ages (sees : Sees cache seen c) (ages : c.Ages c') : Sees cache seen c' := by
  intro m key
  obtain ⟨n, time⟩ := ages.ticks m
  rw [ages.cache, time]
  exact sees n key

include shown

variable (like : KeyMap view kv)

include like

theorem flushKeys_spec (sees : Sees cache seen c) (keys : List Bytes) :
    ∃ stored', WritesBack view seen s c stored
        ((flushKeys kv cache keys).exec (s, c)) stored' ∧
      (((flushKeys kv cache keys).exec (s, c)).1 = .ok () →
        ∀ key ∈ keys, ∀ value, seen key = some value → stored'[key]? = some value) := by
  induction keys generalizing s c stored with
  | nil => exact ⟨stored, .refl shown seen c, fun _ key member => by cases member⟩
  | cons key keys ih =>
    have ages := look_ages (fun now => cache.peek now key) c
    have peeked : (beside (look fun now => cache.peek now key) :
        Call (S × WriteBackCache σ) (Option Bytes)).exec (s, c) =
        (.ok (seen key), s, (look (fun now => cache.peek now key) c).2) := by
      rw [exec_beside, ← sees 0 key]
      rfl
    unfold flushKeys
    rw [exec_bind_ok peeked]
    cases shows : seen key with
    | none =>
      obtain ⟨stored', rest, all⟩ := ih shown (sees.ages ages)
      refine ⟨stored', rest.aged ages, fun ends other member value shows' => ?_⟩
      rcases List.mem_cons.mp member with rfl | member
      · simp [shows] at shows'
      · exact all ends other member value shows'
    | some value =>
      dsimp only
      rw [exec_bind, exec_onStore]
      rcases runs : (kv.put key value).exec s with ⟨error | _, s'⟩
      · obtain ⟨later, faulted, shown'⟩ := (like.put shown key value).of_error runs
        refine ⟨stored, ⟨later, shown', ages, .refl seen stored, fun _ _ => faulted⟩, fun ends => ?_⟩
        cases ends
      · obtain ⟨later, shown'⟩ := (like.put shown key value).of_ok runs
        obtain ⟨stored', rest, all⟩ := ih shown' (sees.ages ages)
        refine ⟨stored', rest.after later ages (written_insert shows stored), fun ends => ?_⟩
        intro other member value' shows'
        rcases List.mem_cons.mp member with rfl | member
        · refine rest.written.keeps shows' ?_
          rw [OrdTable.get_insert, if_pos rfl, ← shows', shows]
        · exact all ends other member value' shows'

theorem flushDirty_spec (sees : Sees cache seen c) :
    ∃ stored', WritesBack view seen s c stored ((flushDirty kv cache).exec (s, c)) stored' ∧
      (((flushDirty kv cache).exec (s, c)).1 = .ok () → ∀ key value,
        c.dirty.contains key = true → seen key = some value → stored'[key]? = some value) := by
  have ages := dirtyKeys_ages c
  unfold flushDirty
  rw [exec_bind_ok (exec_beside dirtyKeys (s, c))]
  obtain ⟨stored', rest, all⟩ := flushKeys_spec shown like (sees.ages ages) c.dirtyKeys.1
  exact ⟨stored', rest.aged ages,
    fun ends key value marked => all ends key (mem_dirtyKeys marked) value⟩

theorem flushIfEvictionImminent_spec (sees : Sees cache seen c) (key : Bytes) :
    ∃ stored', WritesBack view seen s c stored
        ((flushIfEvictionImminent kv cache key).exec (s, c)) stored' ∧
      (((flushIfEvictionImminent kv cache key).exec (s, c)).1 = .ok () →
        cache.containsKey (c.clocked.ticks 0) key c.clocked.cache = true ∨
          cache.len c.clocked.cache < cache.cap c.clocked.cache ∨
          ∀ other value, c.dirty.contains other = true → seen other = some value →
            stored'[other]? = some value) := by
  have ages := look_ages (fun now => cache.containsKey now key) c
  unfold flushIfEvictionImminent
  rw [exec_bind_ok (exec_beside _ (s, c))]
  split_ifs with present
  · exact ⟨stored, (WritesBack.refl shown seen _).aged ages, fun _ => Or.inl present⟩
  · rw [exec_bind_ok (exec_beside _ _)]
    split_ifs with room
    · exact ⟨stored, (WritesBack.refl shown seen _).aged ages,
        fun _ => Or.inr (Or.inl (of_decide_eq_true room))⟩
    · obtain ⟨stored', rest, all⟩ := flushDirty_spec shown like (sees.ages ages)
      exact ⟨stored', rest.aged ages, fun ends => Or.inr (Or.inr (all ends))⟩

/-! ### The calls -/

def WriteBackCache.afterGet (cache : Cache Bytes Bytes σ) (key : Bytes) (c : WriteBackCache σ) :
    WriteBackCache σ := (c.onCache (Clocked.timed fun now => cache.get now key)).2

def WriteBackCache.afterPut (cache : Cache Bytes Bytes σ) (key value : Bytes) (c : WriteBackCache σ) :
    WriteBackCache σ :=
  (WriteBackCache.onCache (Clocked.untimed (cache.put key value))
    { c with dirty := c.dirty.insert key () }).2

def WriteBackCache.afterRemove (cache : Cache Bytes Bytes σ) (key : Bytes) (c : WriteBackCache σ) :
    WriteBackCache σ :=
  { (c.onCache (Clocked.untimed (cache.remove key))).2 with dirty := c.dirty.erase key }

theorem writeBack_get_spec (cache : Cache Bytes Bytes σ) (c : WriteBackCache σ) (key : Bytes) :
    ∃ result s', (WriteBackCache.get kv cache key).exec (s, c) = (result, s', c.afterGet cache key) ∧
      view.later s s' ∧ view.shows s' stored ∧
      (∀ found, result = .ok found →
        found = (cache.get (c.clocked.ticks 0) key c.clocked.cache).1.or stored[key]?) ∧
      ∀ error, result = .error error → view.faults s < view.faults s' := by
  have looked : (beside (onCache (Clocked.timed fun now => cache.get now key)) :
      Call (S × WriteBackCache σ) (Option Bytes)).exec (s, c) =
      (.ok (cache.get (c.clocked.ticks 0) key c.clocked.cache).1, s, c.afterGet cache key) := rfl
  unfold WriteBackCache.get
  rw [exec_bind_ok looked]
  cases (cache.get (c.clocked.ticks 0) key c.clocked.cache).1 with
  | some value =>
    refine ⟨.ok (some value), s, rfl, view.later_refl s, shown, fun found same => ?_, fun error fails => ?_⟩
    · cases same
      rfl
    · cases fails
  | none =>
    dsimp only
    rw [exec_onStore]
    rcases runs : (kv.get key).exec s with ⟨error | found, s'⟩
    · obtain ⟨later, faulted, shown'⟩ := (like.get shown key).of_error runs
      refine ⟨.error error, s', rfl, later, shown', fun found same => ?_, fun _ _ => faulted⟩
      cases same
    · obtain ⟨later, same, shown'⟩ := (like.get shown key).of_ok runs
      refine ⟨.ok found, s', rfl, later, shown', fun found' same' => ?_, fun error fails => ?_⟩
      · cases same'
        exact same
      · cases fails

theorem writeBack_put_spec (sees : Sees cache seen c) (key value : Bytes) :
    ∃ result s' c' stored', WritesBack view seen s c stored (result, s', c') stored' ∧
      ((∃ error, result = .error error ∧
          (WriteBackCache.put kv cache key value).exec (s, c) = (.error error, s', c')) ∨
        (WriteBackCache.put kv cache key value).exec (s, c) = (.ok (), s', c'.afterPut cache key value) ∧
          (cache.containsKey (c.clocked.ticks 0) key c.clocked.cache = true ∨
            cache.len c.clocked.cache < cache.cap c.clocked.cache ∨
            ∀ other value, c.dirty.contains other = true → seen other = some value →
              stored'[other]? = some value)) := by
  obtain ⟨stored', writes, room⟩ := flushIfEvictionImminent_spec shown like sees key
  unfold WriteBackCache.put
  rcases runs : (flushIfEvictionImminent kv cache key).exec (s, c) with ⟨error | _, s', c'⟩
  · rw [runs] at writes
    refine ⟨.error error, s', c', stored', writes, Or.inl ⟨error, rfl, ?_⟩⟩
    rw [exec_bind, runs]
  · rw [runs] at writes room
    refine ⟨.ok (), s', c', stored', writes, Or.inr ⟨?_, room rfl⟩⟩
    rw [exec_bind_ok runs]
    rfl

theorem writeBack_remove_spec (cache : Cache Bytes Bytes σ) (c : WriteBackCache σ) (key : Bytes) :
    ∃ result s', (remove kv cache key).exec (s, c) = (result, s', c.afterRemove cache key) ∧
      view.later s s' ∧ (result = .ok () → view.shows s' (stored.erase key)) ∧
      ∀ error, result = .error error → view.shows s' stored ∧ view.faults s < view.faults s' := by
  have removed : (remove kv cache key).exec (s, c) =
      (onStore (kv.delete key)).exec (s, c.afterRemove cache key) := rfl
  rw [removed, exec_onStore]
  rcases runs : (kv.delete key).exec s with ⟨error | _, s'⟩
  · obtain ⟨later, faulted, shown'⟩ := (like.delete shown key).of_error runs
    exact ⟨.error error, s', rfl, later, fun ends => (by cases ends), fun _ _ => ⟨shown', faulted⟩⟩
  · obtain ⟨later, shown'⟩ := (like.delete shown key).of_ok runs
    exact ⟨.ok (), s', rfl, later, fun _ => shown', fun error fails => by cases fails⟩

theorem writeBack_flush_spec (sees : Sees cache seen c) :
    ∃ result s' c' stored', WritesBack view seen s c stored (result, s', c') stored' ∧
      ((∃ error, result = .error error ∧
          (flush kv cache).exec (s, c) = (.error error, s', c')) ∨
        (flush kv cache).exec (s, c) = (.ok (), s', { c' with dirty := ∅ }) ∧
          ∀ key value, c.dirty.contains key = true → seen key = some value →
            stored'[key]? = some value) := by
  obtain ⟨stored', writes, all⟩ := flushDirty_spec shown like sees
  unfold flush
  rcases runs : (flushDirty kv cache).exec (s, c) with ⟨error | _, s', c'⟩
  · rw [runs] at writes
    refine ⟨.error error, s', c', stored', writes, Or.inl ⟨error, rfl, ?_⟩⟩
    rw [exec_bind, runs]
  · rw [runs] at writes all
    refine ⟨.ok (), s', c', stored', writes, Or.inr ⟨?_, all rfl⟩⟩
    rw [exec_bind_ok runs]
    rfl

end

end OxiStore.Caching
