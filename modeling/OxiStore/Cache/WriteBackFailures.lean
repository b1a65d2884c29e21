/-
**A `WriteBackCache` whose store fails.**
-/

import OxiStore.Cache.WriteBackRuns

namespace OxiStore.Caching

open ByteString StepProg

variable {S T N : Type}

def WriteBackCache.seen (c : WriteBackCache (LruCache Bytes Bytes)) (key : Bytes) : Option Bytes :=
  (c.clocked.cache.map.get key).bind (·.live (c.clocked.ticks 0))

/-- **No entry expires from now on**, as when there are no times to live, or the clock stands still. -/
def WriteBackCache.Steady (c : WriteBackCache (LruCache Bytes Bytes)) : Prop :=
  ∀ key held n, c.clocked.cache.map.get key = some held →
    held.live (c.clocked.ticks n) = held.live (c.clocked.ticks 0)

def WriteBackCache.Drops (view : MapView S T N) (s : S × WriteBackCache (LruCache Bytes Bytes))
    (op : WriteBackCache.Op) (key : Bytes) : Prop :=
  op = .remove key ∧ ∃ value contents, s.2.seen key = some value ∧ view.shows s.1 contents ∧
    contents[key]? ≠ some value

section

variable {view : MapView S T N} {kv : KvStore S T N} {s : S} {c c' : WriteBackCache (LruCache Bytes Bytes)}
  {stored : Contents} {key : Bytes}

theorem steady_of_ttlFree (free : TtlFree c.clocked.cache.map.get) : c.Steady := by
  intro key held n here
  rw [free.alive here, free.alive here]

theorem WriteBackCache.Steady.seen_at (steady : c.Steady) (n : ℕ) (key : Bytes) :
    (c.clocked.cache.map.get key).bind (·.live (c.clocked.ticks n)) = c.seen key := by
  unfold WriteBackCache.seen
  cases here : c.clocked.cache.map.get key with
  | none => rfl
  | some held => exact steady key held n here

theorem WriteBackCache.Steady.sees (steady : c.Steady) : Sees LruCache.cache c.seen c := steady.seen_at

theorem WriteBackCache.Steady.seen_ages (steady : c.Steady) (ages : c.Ages c') (key : Bytes) :
    c'.seen key = c.seen key := by
  obtain ⟨n, time⟩ := ages.ticks 0
  unfold WriteBackCache.seen
  rw [ages.cache, time]
  exact steady.seen_at n key

theorem WriteBackCache.Steady.seen_afterGet (steady : c.Steady) (key other : Bytes) :
    (c.afterGet LruCache.cache key).seen other = c.seen other := by
  rw [← steady.seen_at 1 other]
  show ((LruCache.get (c.clocked.ticks 0) key c.clocked.cache).2.map.get other).bind _ = _
  by_cases own : other = key
  · subst own
    rcases lru_get_cases (c.clocked.ticks 0) other c.clocked.cache with ⟨_, done⟩ | ⟨held, here, gone, done⟩ |
      ⟨held, value, here, _, done⟩
    · rw [done]
      rfl
    · rw [done, LinkedMap.get_erase_self, here]
      exact ((steady other held 1 here).trans gone).symm
    · rw [done, LinkedMap.get_insert_self, here]
      rfl
  · rw [lru_get_others _ own]
    rfl

theorem seen_afterRemove (c : WriteBackCache (LruCache Bytes Bytes)) (key other : Bytes) :
    (c.afterRemove LruCache.cache key).seen other = if other = key then none else c.seen other := by
  show ((c.clocked.cache.map.erase key).get other).bind _ = _
  rw [LinkedMap.get_erase]
  split_ifs
  all_goals rfl

theorem get_eq_seen (like : KeyMap view kv) (shown : view.shows s stored) {found : Option Bytes}
    (answers : ((WriteBackCache.get kv LruCache.cache key).exec (s, c)).1 = .ok found) :
    found = (c.seen key).or stored[key]? := by
  obtain ⟨result, s', runs, _, _, finds, _⟩ := writeBack_get_spec shown like LruCache.cache c key
  rw [runs] at answers
  rw [finds found answers, lru_buffering.finds _ _ key trivial]
  rfl

theorem failed_remove_iff (like : KeyMap view kv) (shown : view.shows s stored) {error : StoreError}
    (fails : ((WriteBackCache.remove kv LruCache.cache key).exec (s, c)).1 = .error error)
    {before after : Option Bytes} (was : before = (c.seen key).or stored[key]?)
    (answers : ((WriteBackCache.get kv LruCache.cache key).exec
      ((WriteBackCache.remove kv LruCache.cache key).exec (s, c)).2).1 = .ok after) :
    after = before ↔ ¬ WriteBackCache.Drops view (s, c) (.remove key) key := by
  have found : ∀ contents, view.shows s contents → after = contents[key]? := by
    intro contents shown
    obtain ⟨result, s', runs, _, _, faulted⟩ := writeBack_remove_spec shown like LruCache.cache c key
    rw [runs] at fails answers
    have finds := get_eq_seen like (faulted error fails).1 answers
    rwa [seen_afterRemove, if_pos rfl, Option.none_or] at finds
  rw [was]
  constructor
  · rintro same ⟨_, value, contents, seen, shown', differs⟩
    rw [found contents shown', seen] at same
    exact differs same
  · intro keeps
    rw [found stored shown]
    cases seen : c.seen key with
    | none => rfl
    | some value =>
      by_contra differs
      exact keeps ⟨rfl, value, stored, seen, shown, differs⟩

/-- **A call that fails changes nothing that the user sees**, unless it is a `remove` of a key whose entry is
not what is stored. -/
theorem writeBack_failure_keeps_iff (like : KeyMap view kv) {s : S × WriteBackCache (LruCache Bytes Bytes)}
    (shown : view.shows s.1 stored) (steady : s.2.Steady) {op : WriteBackCache.Op} {error : StoreError}
    (fails : (WriteBackCache.step kv LruCache.cache s op).1 = .error error) (key : Bytes)
    {before after : Option Bytes} (was : ((WriteBackCache.get kv LruCache.cache key).exec s).1 = .ok before)
    (is : ((WriteBackCache.get kv LruCache.cache key).exec
      (WriteBackCache.step kv LruCache.cache s op).2).1 = .ok after) :
    after = before ↔ ¬ WriteBackCache.Drops view s op key := by
  obtain ⟨s, c⟩ := s
  have was' := get_eq_seen like shown was
  -- a call that is no `remove` of the key: what is seen and what is stored make the same
  have same : ∀ {s' c' stored'}, view.shows s' stored' → (c'.seen key).or stored'[key]? = before →
      ((WriteBackCache.get kv LruCache.cache key).exec (s', c')).1 = .ok after → op ≠ .remove key →
      (after = before ↔ ¬ WriteBackCache.Drops view (s, c) op key) := by
    intro s' c' stored' shown' equal answers other
    refine iff_of_true ((get_eq_seen like shown' answers).trans equal) fun drops => other drops.1
  have kept : ∀ {result s' c' stored'}, WritesBack view c.seen s c stored (result, s', c') stored' →
      (c'.seen key).or stored'[key]? = before := by
    intro result s' c' stored' writes
    rw [steady.seen_ages writes.ages, writes.written.or_eq, was']
  unfold WriteBackCache.step at fails is
  cases op with
  | get key' =>
    obtain ⟨result, s', runs, _, shown', _, _⟩ := writeBack_get_spec shown like LruCache.cache c key'
    dsimp only at is
    rw [runs] at is
    refine same shown' ?_ is nofun
    rw [steady.seen_afterGet, was']
  | put key' value =>
    dsimp only at fails is
    rw [Call.exec_map] at fails is
    obtain ⟨result, s', c', stored', writes, ⟨error', _, runs⟩ | ⟨runs, _⟩⟩ :=
      writeBack_put_spec shown like steady.sees key' value
    · rw [runs] at is
      exact same writes.shown (kept writes) is nofun
    · rw [runs] at fails
      cases fails
  | remove key' =>
    dsimp only at fails is
    rw [Call.exec_map] at fails is
    obtain ⟨result, s', runs, _, _, faulted⟩ := writeBack_remove_spec shown like LruCache.cache c key'
    cases result with
    | ok _ =>
      rw [runs] at fails
      cases fails
    | error error' =>
      by_cases own : key' = key
      · subst own
        exact failed_remove_iff like shown (congrArg Prod.fst runs) was' is
      · rw [runs] at is
        refine same (faulted error' rfl).1 ?_ is fun equal => own (WriteBackCache.Op.remove.inj equal)
        rw [seen_afterRemove, if_neg (Ne.symm own), was']
  | flush =>
    dsimp only at fails is
    rw [Call.exec_map] at fails is
    obtain ⟨result, s', c', stored', writes, ⟨error', _, runs⟩ | ⟨runs, _⟩⟩ :=
      writeBack_flush_spec shown like steady.sees
    · rw [runs] at is
      exact same writes.shown (kept writes) is nofun
    · rw [runs] at fails
      cases fails

theorem writeBack_failure_keeps_of_flush :
    let s := ((∅, ⟨[true], 0⟩), ⟨⟨(LruCache.put [1] [10] (LruCache.new 2)).2, fun _ => 0⟩,
      LinkedMap.insert ∅ [1] (), fun _ => .asListed⟩)
    (WriteBackCache.step (flaky plainKv) LruCache.cache s .flush).1 = .error (.other "the store is down") ∧
    (some [10] = (some [10] : Option Bytes) ↔ ¬ WriteBackCache.Drops plainView.flaky s .flush [1]) :=
  ⟨rfl, writeBack_failure_keeps_iff (flaky_keyMap plain_keyMap) rfl
    (steady_of_ttlFree (((ttlFree_of_empty LinkedMap.get_empty).update [1] [10]).below
      (lru_insertEntry_below [1] (.new [10]) _))) rfl [1] rfl rfl⟩

theorem writeBack_failed_remove_drops :
    let after := afterRun (WriteBackCache.step (flaky plainKv) LruCache.cache)
      ((∅, ⟨[true], 0⟩), .new (LruCache.new 2) (fun _ => 0) fun _ => .asListed)
    let get := WriteBackCache.get (flaky plainKv) LruCache.cache [1]
    (get.exec (after [.put [1] [10]])).1 = .ok (some [10]) ∧
    (WriteBackCache.step (flaky plainKv) LruCache.cache (after [.put [1] [10]]) (.remove [1])).1 =
      .error (.other "the store is down") ∧
    (get.exec (after [.put [1] [10], .remove [1]])).1 = .ok none :=
  ⟨rfl, rfl, rfl⟩

end

end OxiStore.Caching
