/-
**`BoundedCache`.**
-/

import OxiStore.Cache.WriteThrough

namespace OxiStore.Caching

open ByteString StepProg LinkedMap LruCache

/-! ### The cache -/

structure BoundedCache (σ : Type) where
  inner : Clocked σ
  maxBytes : ℕ
  currentBytes : ℕ
  order : List Bytes

def entrySize (key value : Bytes) : ℕ := key.length + value.length

namespace BoundedCache

variable {σ : Type} (cache : Cache Bytes Bytes σ)

def new (inner : Clocked σ) (maxBytes : ℕ) : BoundedCache σ := ⟨inner, maxBytes, 0, []⟩

def evictLoop (needed maxBytes : ℕ) : List Bytes → ℕ → Clocked σ → BoundedCache σ
  | [], currentBytes, inner => ⟨inner, maxBytes, currentBytes, []⟩
  | oldest :: order, currentBytes, inner =>
      if maxBytes < currentBytes + needed then
        match inner.untimed (cache.remove oldest) with
        | (some oldVal, inner) =>
            evictLoop needed maxBytes order (currentBytes - entrySize oldest oldVal) inner
        | (none, inner) => evictLoop needed maxBytes order currentBytes inner
      else ⟨inner, maxBytes, currentBytes, oldest :: order⟩

def evictUntilFits (needed : ℕ) (s : BoundedCache σ) : BoundedCache σ :=
  evictLoop cache needed s.maxBytes s.order s.currentBytes s.inner

def account (key value : Bytes) (s : BoundedCache σ) : BoundedCache σ :=
  let s := evictUntilFits cache (entrySize key value) s
  match s.inner.timed fun now c => (cache.peek now key c, c) with
  | (some existing, inner) =>
      ⟨inner, s.maxBytes, s.currentBytes - entrySize key existing + entrySize key value,
        s.order.filter (· ≠ key) ++ [key]⟩
  | (none, inner) => ⟨inner, s.maxBytes, s.currentBytes + entrySize key value, s.order ++ [key]⟩

def put (key value : Bytes) (s : BoundedCache σ) : Option Bytes × BoundedCache σ :=
  let s := account cache key value s
  ((s.inner.untimed (cache.put key value)).1, { s with inner := (s.inner.untimed (cache.put key value)).2 })

def innerPutWithTtl (key value : Bytes) (ttl : Duration) (now : Instant) (c : σ) :
    Option (Option Bytes) × σ :=
  match cache.putWithTtl now key value ttl c with
  | some (evicted, c) => (some evicted, c)
  | none => (none, c)

def putWithTtl (key value : Bytes) (ttl : Duration) (s : BoundedCache σ) :
    Option (Option Bytes) × BoundedCache σ :=
  let s := account cache key value s
  ((s.inner.timed (innerPutWithTtl cache key value ttl)).1,
    { s with inner := (s.inner.timed (innerPutWithTtl cache key value ttl)).2 })

def get (key : Bytes) (s : BoundedCache σ) : Option Bytes × BoundedCache σ :=
  ((s.inner.timed fun now => cache.get now key).1,
    { s with inner := (s.inner.timed fun now => cache.get now key).2 })

def remove (key : Bytes) (s : BoundedCache σ) : Option Bytes × BoundedCache σ :=
  match s.inner.untimed (cache.remove key) with
  | (some val, inner) =>
      (some val, ⟨inner, s.maxBytes, s.currentBytes - entrySize key val, s.order.filter (· ≠ key)⟩)
  | (none, inner) => (none, { s with inner })

def clear (s : BoundedCache σ) : BoundedCache σ :=
  ⟨{ s.inner with cache := cache.clear s.inner.cache }, s.maxBytes, 0, []⟩

end BoundedCache

inductive BoundedOp where
  | put (key value : Bytes)
  | putWithTtl (key value : Bytes) (ttl : Duration)
  | get (key : Bytes)
  | remove (key : Bytes)
  | clear

def BoundedCache.step {σ : Type} (cache : Cache Bytes Bytes σ) (s : BoundedCache σ) :
    BoundedOp → Answer Bytes × BoundedCache σ
  | .put key value => (.value (s.put cache key value).1, (s.put cache key value).2)
  | .putWithTtl key value ttl =>
      ((s.putWithTtl cache key value ttl).1.elim .panicked .value, (s.putWithTtl cache key value ttl).2)
  | .get key => (.value (s.get cache key).1, (s.get cache key).2)
  | .remove key => (.value (s.remove cache key).1, (s.remove cache key).2)
  | .clear => (.done, s.clear cache)

/-! ### The balance -/

def bytesOf (key : Bytes) (held : CacheEntry Bytes) : ℕ := entrySize key held.value

abbrev BoundedLru := BoundedCache (LruCache Bytes Bytes)

def BoundedCache.Balanced (s : BoundedLru) : Prop :=
  s.currentBytes = s.inner.cache.map.total bytesOf ∧ s.currentBytes ≤ s.maxBytes

def liveBytes (now : Instant) (key : Bytes) (c : LruCache Bytes Bytes) : ℕ :=
  (c.peek now key).elim 0 (entrySize key)

def expiredBytes (now : Instant) (key : Bytes) (c : LruCache Bytes Bytes) : ℕ :=
  (c.map.get key).elim 0 fun held => if held.isExpired now then bytesOf key held else 0

def displacedBytes (now : Instant) (key : Bytes) (c : LruCache Bytes Bytes) : ℕ :=
  if c.map.contains key then expiredBytes now key c
  else if 0 < c.cap ∧ c.cap ≤ c.map.len then c.map.front.elim 0 fun oldest => bytesOf oldest.1 oldest.2
  else 0

def roomFor (needed maxBytes : ℕ) :
    List Bytes → LinkedMap Bytes (CacheEntry Bytes) → LinkedMap Bytes (CacheEntry Bytes)
  | [], map => map
  | oldest :: order, map =>
      if maxBytes < map.total bytesOf + needed then roomFor needed maxBytes order (map.erase oldest) else map

def remaining (needed : ℕ) (s : BoundedLru) : LruCache Bytes Bytes :=
  { s.inner.cache with map := roomFor needed s.maxBytes s.order s.inner.cache.map }

def KeepsBalance (s : BoundedLru) : BoundedOp → Prop
  | .put key value => entrySize key value ≤ s.maxBytes ∧
      displacedBytes (s.inner.ticks 0) key (remaining (entrySize key value) s) = 0
  | .putWithTtl key value ttl =>
      if (s.inner.ticks 1).checkedAdd ttl = none then
        -- The call panics when the bytes are counted already.
        entrySize key value = liveBytes (s.inner.ticks 0) key (remaining (entrySize key value) s)
      else entrySize key value ≤ s.maxBytes ∧
        displacedBytes (s.inner.ticks 0) key (remaining (entrySize key value) s) = 0
  | .get key => expiredBytes (s.inner.ticks 0) key s.inner.cache = 0
  | .remove _ => True
  | .clear => True

/-! ### What the inner cache holds -/

section

variable {c : LruCache Bytes Bytes} {key : Bytes} (now : Instant)

theorem live_add_expired {held : CacheEntry Bytes} (here : c.map.get key = some held) :
    liveBytes now key c + expiredBytes now key c = bytesOf key held := by
  unfold liveBytes expiredBytes peek
  rw [here, Option.bind_some, Option.elim_some, CacheEntry.live]
  cases held.isExpired now with
  | true => exact Nat.zero_add _
  | false => rfl

theorem liveBytes_of_absent (absent : c.map.get key = none) : liveBytes now key c = 0 := by
  unfold liveBytes peek
  rw [absent]
  rfl

theorem expiredBytes_of_absent (absent : c.map.get key = none) : expiredBytes now key c = 0 := by
  unfold expiredBytes
  rw [absent]
  rfl

theorem total_insertEntry (key : Bytes) (new : CacheEntry Bytes) (c : LruCache Bytes Bytes) :
    (insertEntry key new c).2.map.total bytesOf + (liveBytes now key c + displacedBytes now key c) =
      c.map.total bytesOf + bytesOf key new := by
  unfold insertEntry displacedBytes
  cases here : c.map.get key with
  | some held =>
    have present := contains_of_get here
    have taken := total_erase bytesOf here
    rw [if_pos present, if_pos present, live_add_expired now here, total_insert]
    omega
  | none =>
    have absent : ¬ c.map.contains key = true := by
      rw [contains_of_get_none here]
      exact Bool.false_ne_true
    rw [if_neg absent, if_neg absent, liveBytes_of_absent now here]
    by_cases full : 0 < c.cap ∧ c.cap ≤ c.map.len
    · rw [if_pos full, if_pos full]
      rcases c.map.popFront_cases with ⟨_, _, empty⟩ | ⟨oldest, held, front, found, popped⟩
      · omega
      · have gone : (c.map.erase oldest).get key = none := by
          rw [get_erase, here, ite_self]
        have taken := total_erase bytesOf found
        rw [popped, front, total_insert, total_erase_of_absent bytesOf gone,
          Option.elim_some]
        dsimp only
        omega
    · rw [if_neg full, if_neg full, total_insert, total_erase_of_absent bytesOf here]
      omega

theorem total_get (key : Bytes) (c : LruCache Bytes Bytes) :
    (LruCache.get now key c).2.map.total bytesOf + expiredBytes now key c = c.map.total bytesOf := by
  rcases lru_get_cases now key c with ⟨absent, done⟩ | ⟨held, here, expired, done⟩ |
    ⟨held, value, here, live, done⟩
  · rw [done, expiredBytes_of_absent now absent]
    rfl
  · have all := live_add_expired now here
    have taken := total_erase bytesOf here
    have none : liveBytes now key c = 0 := by
      unfold liveBytes peek
      rw [here, Option.bind_some, expired]
      rfl
    rw [done]
    dsimp only
    omega
  · have all := live_add_expired now here
    have taken := total_erase bytesOf here
    have whole : liveBytes now key c = bytesOf key held := by
      unfold liveBytes peek
      rw [here, Option.bind_some, live, (CacheEntry.live_eq_some.mp live).2.symm]
      rfl
    rw [done, total_insert]
    omega

theorem liveBytes_le (key : Bytes) (c : LruCache Bytes Bytes) :
    liveBytes now key c ≤ c.map.total bytesOf := by
  cases here : c.map.get key with
  | none =>
    rw [liveBytes_of_absent now here]
    exact Nat.zero_le _
  | some held =>
    have all := live_add_expired now here
    have taken := total_erase bytesOf here
    omega

theorem total_of_nothing {map : LinkedMap Bytes (CacheEntry Bytes)} (nothing : ∀ key, map.get key = none) :
    map.total bytesOf = 0 := by
  rcases map.popFront_cases with ⟨_, _, empty⟩ | ⟨oldest, held, _, found, _⟩
  · rw [eq_empty_of_len empty]
    rfl
  · simp [nothing] at found

end

/-! ### The order of the puts -/

namespace BoundedCache

def Ordered (s : BoundedLru) : Prop := ∀ key held, s.inner.cache.map.get key = some held → key ∈ s.order

structure Evicted (needed : ℕ) (before after : BoundedLru) : Prop where
  cache : after.inner.cache = remaining needed before
  sum : after.currentBytes = after.inner.cache.map.total bytesOf
  fewer : after.currentBytes ≤ before.currentBytes
  ordered : after.Ordered
  budget : after.maxBytes = before.maxBytes
  clock : after.inner.ticks = before.inner.ticks
  enough : after.maxBytes < after.currentBytes + needed → after.order = []

theorem untimed_remove (key : Bytes) (inner : Clocked (LruCache Bytes Bytes)) :
    inner.untimed (cache.remove key) = ((inner.cache.map.get key).map CacheEntry.value,
      ⟨⟨inner.cache.map.erase key, inner.cache.cap⟩, inner.ticks⟩) := rfl

variable {inner : Clocked (LruCache Bytes Bytes)} {key : Bytes}

theorem ordered_erase {order order' : List Bytes}
    (ordered : ∀ other held, inner.cache.map.get other = some held → other ∈ order)
    (kept : ∀ other, other ≠ key → other ∈ order → other ∈ order') (maxBytes currentBytes : ℕ) :
    Ordered ⟨⟨⟨inner.cache.map.erase key, inner.cache.cap⟩, inner.ticks⟩, maxBytes, currentBytes,
      order'⟩ := by
  intro other held here
  have found : (inner.cache.map.erase key).get other = some held := here
  rw [get_erase] at found
  split_ifs at found with same
  exact kept other same (ordered other held found)

theorem evictUntilFits_spec (needed : ℕ) (s : BoundedLru)
    (sum : s.currentBytes = s.inner.cache.map.total bytesOf) (ordered : s.Ordered) :
    Evicted needed s (s.evictUntilFits cache needed) := by
  obtain ⟨inner, maxBytes, currentBytes, order⟩ := s
  unfold evictUntilFits
  dsimp only at *
  induction order generalizing currentBytes inner with
  | nil => exact ⟨rfl, sum, le_rfl, ordered, rfl, rfl, fun _ => rfl⟩
  | cons oldest order ih =>
    unfold evictLoop
    by_cases tight : maxBytes < currentBytes + needed
    · rw [if_pos tight]
      have next (n : ℕ) : remaining needed ⟨inner, maxBytes, currentBytes, oldest :: order⟩ =
          remaining needed ⟨⟨⟨inner.cache.map.erase oldest, inner.cache.cap⟩, inner.ticks⟩, maxBytes, n,
            order⟩ := by
        unfold remaining
        dsimp only
        rw [roomFor, if_pos (sum ▸ tight)]
      have kept : ∀ other, other ≠ oldest → other ∈ oldest :: order → other ∈ order :=
        fun other apart member => (List.mem_cons.mp member).resolve_left apart
      cases here : inner.cache.map.get oldest with
      | none =>
        have same : currentBytes = (inner.cache.map.erase oldest).total bytesOf := by
          rw [total_erase_of_absent bytesOf here]
          exact sum
        rw [untimed_remove, here, Option.map_none]
        obtain ⟨cache, sum', fewer, ordered', budget, clock, enough⟩ :=
          ih _ _ same (ordered_erase ordered kept maxBytes currentBytes)
        exact ⟨cache.trans (next _).symm, sum', fewer, ordered', budget, clock, enough⟩
      | some held =>
        have same : currentBytes - entrySize oldest held.value =
            (inner.cache.map.erase oldest).total bytesOf := by
          have taken := total_erase bytesOf here
          unfold bytesOf at taken sum ⊢
          omega
        rw [untimed_remove, here, Option.map_some]
        obtain ⟨cache, sum', fewer, ordered', budget, clock, enough⟩ :=
          ih _ _ same (ordered_erase ordered kept maxBytes _)
        exact ⟨cache.trans (next _).symm, sum', fewer.trans (Nat.sub_le _ _), ordered', budget, clock,
          enough⟩
    · rw [if_neg tight]
      refine ⟨?_, sum, le_rfl, ordered, rfl, rfl, fun still => absurd still tight⟩
      unfold remaining
      dsimp only
      rw [roomFor, if_neg (sum ▸ tight)]

variable {s : BoundedLru} {needed : ℕ} {evicted : BoundedLru}

theorem Evicted.nothing (left : Evicted needed s evicted)
    (tight : s.maxBytes < evicted.currentBytes + needed) : evicted.currentBytes = 0 := by
  have gone := left.enough (by rw [left.budget]; exact tight)
  rw [left.sum]
  refine total_of_nothing fun key => Option.eq_none_iff_forall_ne_some.mpr fun held here => ?_
  have member := left.ordered key held here
  simp [gone] at member

/-- **What is counted before the inner cache is called.** -/
structure Counted (key value : Bytes) (evicted after : BoundedLru) : Prop where
  cache : after.inner.cache = evicted.inner.cache
  clock : ∀ n, after.inner.ticks n = evicted.inner.ticks (n + 1)
  budget : after.maxBytes = evicted.maxBytes
  count : after.currentBytes = evicted.currentBytes -
    liveBytes (evicted.inner.ticks 0) key evicted.inner.cache + entrySize key value
  last : key ∈ after.order
  others : ∀ other, other ≠ key → other ∈ evicted.order → other ∈ after.order

theorem account_spec (key value : Bytes) (s : BoundedLru) :
    Counted key value (s.evictUntilFits cache (entrySize key value))
      (s.account cache key value) := by
  unfold account
  generalize s.evictUntilFits cache (entrySize key value) = evicted
  obtain ⟨inner, maxBytes, currentBytes, order⟩ := evicted
  have peeked : inner.timed (fun now c => (cache.peek now key c, c)) =
      (inner.cache.peek (inner.ticks 0) key, ⟨inner.cache, fun n => inner.ticks (n + 1)⟩) := rfl
  dsimp only
  rw [peeked]
  cases found : inner.cache.peek (inner.ticks 0) key with
  | none =>
    refine ⟨rfl, fun _ => rfl, rfl, ?_, ?_, fun other _ member => ?_⟩
    · unfold liveBytes
      dsimp only
      rw [found]
      rfl
    · exact List.mem_append_right order (List.mem_singleton_self key)
    · exact List.mem_append_left [key] member
  | some existing =>
    refine ⟨rfl, fun _ => rfl, rfl, ?_, ?_, fun other apart member => ?_⟩
    · unfold liveBytes
      dsimp only
      rw [found]
      rfl
    · exact List.mem_append_right _ (List.mem_singleton_self key)
    · exact List.mem_append_left [key] (List.mem_filter.mpr ⟨member, decide_eq_true apart⟩)

variable {value : Bytes} {counted : BoundedLru}

variable (count : Counted key value evicted counted)

include count

theorem Counted.ordered_insert {new : CacheEntry Bytes} (ordered : evicted.Ordered)
    (inserted : inner.cache = (insertEntry key new evicted.inner.cache).2) :
    Ordered { counted with inner } := by
  intro other held here
  dsimp only at here
  rw [inserted] at here
  by_cases own : other = key
  · rw [own]
    exact count.last
  · have found := lru_insertEntry_below key new evicted.inner.cache other held here
    rw [Function.update_of_ne own] at found
    exact count.others other own (ordered other held found)

theorem Counted.balanced_iff (new : CacheEntry Bytes) (left : Evicted (entrySize key value) s evicted)
    (same : new.value = value) (inner : Clocked (LruCache Bytes Bytes))
    (inserted : inner.cache = (insertEntry key new counted.inner.cache).2) :
    (Balanced { counted with inner } ↔ entrySize key value ≤ s.maxBytes ∧
      displacedBytes (s.inner.ticks 0) key (remaining (entrySize key value) s) = 0) ∧
    Ordered { counted with inner } := by
  rw [← left.cache]
  have total := total_insertEntry (s.inner.ticks 0) key new evicted.inner.cache
  have live := liveBytes_le (s.inner.ticks 0) key evicted.inner.cache
  have sum := left.sum
  have size : bytesOf key new = entrySize key value := by rw [bytesOf, same]
  have counts := count.count
  have room := left.nothing
  rw [count.cache] at inserted
  rw [left.clock] at counts
  refine ⟨?_, count.ordered_insert left.ordered inserted⟩
  unfold Balanced
  dsimp only
  rw [count.budget, left.budget, inserted]
  by_cases tight : s.maxBytes < evicted.currentBytes + entrySize key value
  · have := room tight
    omega
  · omega

omit count

section

variable (balanced : s.Balanced) (ordered : s.Ordered)

include balanced ordered

theorem evicted_of_balanced (needed : ℕ) : Evicted needed s (s.evictUntilFits cache needed) :=
  evictUntilFits_spec needed s balanced.1 ordered

variable (key value : Bytes)

theorem put_balanced_iff :
    ((s.put cache key value).2.Balanced ↔ KeepsBalance s (.put key value)) ∧
      (s.put cache key value).2.Ordered :=
  (account_spec key value s).balanced_iff (.new value)
    (evicted_of_balanced balanced ordered (entrySize key value)) rfl _ rfl

theorem panic_balanced_iff (inner : Clocked (LruCache Bytes Bytes))
    (untouched : inner.cache = (s.account cache key value).inner.cache) :
    (Balanced { s.account cache key value with inner } ↔ entrySize key value =
      liveBytes (s.inner.ticks 0) key (remaining (entrySize key value) s)) ∧
    Ordered { s.account cache key value with inner } := by
  have left := evicted_of_balanced balanced ordered (entrySize key value)
  have count := account_spec key value s
  generalize s.evictUntilFits cache (entrySize key value) = evicted at left count
  generalize s.account cache key value = counted at count untouched
  rw [← left.cache]
  have live := liveBytes_le (s.inner.ticks 0) key evicted.inner.cache
  have sum := left.sum
  have fewer := left.fewer
  have bounded := balanced.2
  have counts := count.count
  rw [left.clock] at counts
  rw [count.cache] at untouched
  constructor
  · unfold Balanced
    dsimp only
    rw [count.budget, left.budget, untouched]
    constructor
    · rintro ⟨same, _⟩
      omega
    · intro same
      omega
  · intro other held here
    dsimp only at here
    rw [untouched] at here
    by_cases own : other = key
    · rw [own]
      exact count.last
    · exact count.others other own (left.ordered other held here)

omit balanced ordered in
theorem lru_putWithTtl_eq (now : Instant) (key value : Bytes) (ttl : Duration) (c : LruCache Bytes Bytes) :
    cache.putWithTtl now key value ttl c =
      (now.checkedAdd ttl).map fun deadline => insertEntry key ⟨value, some deadline⟩ c :=
  Option.map_map _ _ _

theorem putWithTtl_balanced_iff (ttl : Duration) :
    ((s.putWithTtl cache key value ttl).2.Balanced ↔ KeepsBalance s (.putWithTtl key value ttl)) ∧
      (s.putWithTtl cache key value ttl).2.Ordered := by
  have left := evicted_of_balanced balanced ordered (entrySize key value)
  have count := account_spec key value s
  have now : (s.account cache key value).inner.ticks 0 = s.inner.ticks 1 := by
    rw [count.clock, left.clock]
  unfold KeepsBalance putWithTtl Clocked.timed innerPutWithTtl
  dsimp only
  rw [now]
  cases deadline : (s.inner.ticks 1).checkedAdd ttl with
  | none =>
    rw [lru_putWithTtl_eq, deadline, if_pos rfl]
    exact panic_balanced_iff balanced ordered key value _ rfl
  | some at_last =>
    rw [lru_putWithTtl_eq, deadline, if_neg (Option.some_ne_none at_last)]
    exact count.balanced_iff ⟨value, some at_last⟩ left rfl _ rfl

theorem get_balanced_iff (key : Bytes) :
    ((s.get cache key).2.Balanced ↔ KeepsBalance s (.get key)) ∧
      (s.get cache key).2.Ordered := by
  have total := total_get (s.inner.ticks 0) key s.inner.cache
  have fewer := (lru_lawful.get s.inner.cache (s.inner.ticks 0) key trivial).2
  refine ⟨?_, fun other held here => ordered other held (fewer other held here)⟩
  show (s.currentBytes = (LruCache.get (s.inner.ticks 0) key s.inner.cache).2.map.total bytesOf ∧
    s.currentBytes ≤ s.maxBytes) ↔ expiredBytes (s.inner.ticks 0) key s.inner.cache = 0
  have sum := balanced.1
  have bounded := balanced.2
  omega

theorem remove_balanced (key : Bytes) :
    (s.remove cache key).2.Balanced ∧ (s.remove cache key).2.Ordered := by
  obtain ⟨inner, maxBytes, currentBytes, order⟩ := s
  obtain ⟨sum, bounded⟩ := balanced
  dsimp only at sum bounded
  unfold remove Balanced
  dsimp only
  cases here : inner.cache.map.get key with
  | none =>
    rw [untimed_remove, here, Option.map_none]
    refine ⟨⟨?_, bounded⟩, ordered_erase ordered (fun other _ member => member) maxBytes currentBytes⟩
    exact sum.trans (total_erase_of_absent bytesOf here).symm
  | some held =>
    have taken := total_erase bytesOf here
    have size : bytesOf key held = entrySize key held.value := rfl
    rw [untimed_remove, here, Option.map_some]
    refine ⟨?_, ordered_erase ordered (fun other apart member => ?_) maxBytes _⟩
    · show currentBytes - entrySize key held.value = (inner.cache.map.erase key).total bytesOf ∧
        currentBytes - entrySize key held.value ≤ maxBytes
      omega
    · exact List.mem_filter.mpr ⟨member, decide_eq_true apart⟩

theorem step_balanced_iff (op : BoundedOp) :
    ((s.step cache op).2.Balanced ↔ KeepsBalance s op) ∧ (s.step cache op).2.Ordered := by
  cases op with
  | put key value => exact put_balanced_iff balanced ordered key value
  | putWithTtl key value ttl => exact putWithTtl_balanced_iff balanced ordered key value ttl
  | get key => exact get_balanced_iff balanced ordered key
  | remove key =>
    have kept := remove_balanced balanced ordered key
    exact ⟨iff_of_true kept.1 trivial, kept.2⟩
  | clear =>
    refine ⟨iff_of_true ⟨(total_empty bytesOf).symm, Nat.zero_le _⟩ trivial, ?_⟩
    intro key held here
    exact absurd here (Option.not_mem_none held)

end

/-! ### Runs -/

/-- **The budget of bytes**: with an `LruCache` inside, of whatever capacity and on whatever clock, the count
is that of the entries in it and within the budget after every call of a run exactly if every call of the
run keeps the balance. -/
theorem bounded_balanced_iff (cap maxBytes : ℕ) (ticks : ℕ → Instant) (ops : List BoundedOp) :
    AlongRun (BoundedCache.step LruCache.cache) (fun s op => (s.step LruCache.cache op).2.Balanced)
      (BoundedCache.new ⟨LruCache.new cap, ticks⟩ maxBytes) ops ↔
    AlongRun (BoundedCache.step LruCache.cache) KeepsBalance
      (BoundedCache.new ⟨LruCache.new cap, ticks⟩ maxBytes) ops := by
  refine alongRun_congr (fun s => s.Balanced ∧ s.Ordered) (fun s op holds => ?_) ?_ ops
  · have here := step_balanced_iff holds.1 holds.2 op
    exact ⟨here.1, fun kept => ⟨kept, here.2⟩⟩
  · refine ⟨⟨(total_empty bytesOf).symm, Nat.zero_le _⟩, fun key held here => ?_⟩
    exact absurd here (Option.not_mem_none held)

theorem bounded_counts_displaced :
    let s := afterRun (BoundedCache.step LruCache.cache)
      (BoundedCache.new ⟨LruCache.new 1, fun _ => 0⟩ 100) [.put [1] [10], .put [2] [20]]
    s.currentBytes = 4 ∧ s.inner.cache.map.total bytesOf = 2 :=
  ⟨rfl, rfl⟩

/-! ### The budget -/

def residentBytes (s : BoundedLru) : ℕ := s.inner.cache.map.total bytesOf

/-- **The entries in the inner cache are within the budget**, each is in the order of evictions, and no more
bytes are in it than are counted, so that what is subtracted for an entry was counted. -/
structure Safe (s : BoundedLru) : Prop where
  within : residentBytes s ≤ s.maxBytes
  ordered : s.Ordered
  counted : residentBytes s ≤ s.currentBytes
  unclipped : ∀ key held, s.inner.cache.map.get key = some held → bytesOf key held ≤ s.currentBytes

def FitsBudget (maxBytes : ℕ) : BoundedOp → Prop
  | .put key value | .putWithTtl key value _ => entrySize key value ≤ maxBytes
  | _ => True

theorem Safe.of_counted (within : residentBytes s ≤ s.maxBytes) (ordered : s.Ordered)
    (counted : residentBytes s ≤ s.currentBytes) : s.Safe := by
  refine ⟨within, ordered, counted, fun key held here => ?_⟩
  have taken := total_erase bytesOf here
  unfold residentBytes at counted
  omega

structure Loosened (needed maxBytes spare : ℕ) (after : BoundedLru) : Prop where
  counted : after.currentBytes = residentBytes after + spare
  ordered : after.Ordered
  budget : after.maxBytes = maxBytes
  enough : maxBytes < after.currentBytes + needed → after.order = []

theorem evictUntilFits_loosened (needed : ℕ) {spare : ℕ} (s : BoundedLru)
    (counted : s.currentBytes = residentBytes s + spare) (ordered : s.Ordered) :
    Loosened needed s.maxBytes spare (s.evictUntilFits cache needed) ∧
      residentBytes (s.evictUntilFits cache needed) ≤ residentBytes s := by
  obtain ⟨inner, maxBytes, currentBytes, order⟩ := s
  unfold evictUntilFits
  dsimp only
  induction order generalizing currentBytes inner with
  | nil => exact ⟨⟨counted, ordered, rfl, fun _ => rfl⟩, le_rfl⟩
  | cons oldest order ih =>
    unfold evictLoop
    split_ifs with tight
    · have kept : ∀ other, other ≠ oldest → other ∈ oldest :: order → other ∈ order :=
        fun other apart member => (List.mem_cons.mp member).resolve_left apart
      rw [untimed_remove]
      unfold residentBytes at counted
      cases here : inner.cache.map.get oldest with
      | none =>
        have same := total_erase_of_absent bytesOf here
        obtain ⟨left, fewer⟩ := ih ⟨⟨inner.cache.map.erase oldest, inner.cache.cap⟩, inner.ticks⟩ currentBytes
          (by unfold residentBytes; dsimp only at counted ⊢; omega)
          (ordered_erase ordered kept maxBytes currentBytes)
        exact ⟨left, fewer.trans same.le⟩
      | some held =>
        have taken := total_erase bytesOf here
        obtain ⟨left, fewer⟩ := ih ⟨⟨inner.cache.map.erase oldest, inner.cache.cap⟩, inner.ticks⟩
          (currentBytes - entrySize oldest held.value)
          (by unfold residentBytes bytesOf at *; dsimp only at *; omega)
          (ordered_erase ordered kept maxBytes _)
        exact ⟨left, fewer.trans (Nat.le.intro taken)⟩
    · exact ⟨⟨counted, ordered, rfl, fun still => absurd still tight⟩, le_rfl⟩

include count in
theorem Counted.safe {new : CacheEntry Bytes} {spare : ℕ}
    (left : Loosened (entrySize key value) s.maxBytes spare evicted) (same : new.value = value)
    (fits : entrySize key value ≤ s.maxBytes)
    (inserted : inner.cache = (insertEntry key new counted.inner.cache).2) :
    Safe { counted with inner } := by
  have total := total_insertEntry (evicted.inner.ticks 0) key new evicted.inner.cache
  have live := liveBytes_le (evicted.inner.ticks 0) key evicted.inner.cache
  have size : bytesOf key new = entrySize key value := by rw [bytesOf, same]
  have covers := left.counted
  have counts := count.count
  have budget := count.budget.trans left.budget
  rw [count.cache] at inserted
  have resident : residentBytes { counted with inner } =
      (insertEntry key new evicted.inner.cache).2.map.total bytesOf := by rw [residentBytes, inserted]
  unfold residentBytes at covers
  refine .of_counted ?_ (count.ordered_insert left.ordered inserted) ?_
  · rw [resident]
    dsimp only
    by_cases tight : s.maxBytes < evicted.currentBytes + entrySize key value
    · have nothing : evicted.inner.cache.map.total bytesOf = 0 := by
        refine total_of_nothing fun other => Option.eq_none_iff_forall_ne_some.mpr fun held here => ?_
        simpa [left.enough tight] using left.ordered other held here
      omega
    · omega
  · rw [resident]
    dsimp only
    omega

def KeepsBudget (s : BoundedLru) : BoundedOp → Prop
  | .putWithTtl key value ttl => (s.inner.ticks 1).checkedAdd ttl = none →
      liveBytes (s.inner.ticks 0) key (s.evictUntilFits cache (entrySize key value)).inner.cache ≤
        entrySize key value + (s.currentBytes - residentBytes s)
  | _ => True

theorem evictLoop_ticks (needed maxBytes : ℕ) (order : List Bytes) (currentBytes : ℕ)
    (inner : Clocked (LruCache Bytes Bytes)) :
    (evictLoop cache needed maxBytes order currentBytes inner).inner.ticks = inner.ticks := by
  induction order generalizing currentBytes inner with
  | nil => rfl
  | cons oldest order ih =>
    unfold evictLoop
    rw [untimed_remove]
    cases inner.cache.map.get oldest with
    | none | some held =>
      dsimp only [Option.map_none, Option.map_some]
      split_ifs
      · exact ih _ _
      · rfl

include count in
theorem Counted.safe_iff {spare : ℕ} (left : Loosened (entrySize key value) s.maxBytes spare evicted)
    (within : residentBytes evicted ≤ s.maxBytes) (untouched : inner.cache = counted.inner.cache) :
    Safe { counted with inner } ↔
      liveBytes (evicted.inner.ticks 0) key evicted.inner.cache ≤ entrySize key value + spare := by
  have live := liveBytes_le (evicted.inner.ticks 0) key evicted.inner.cache
  have covers := left.counted
  have counts := count.count
  have resident : residentBytes { counted with inner } = residentBytes evicted := by
    unfold residentBytes
    rw [untouched, count.cache]
  unfold residentBytes at covers within resident
  constructor
  · intro safe
    have still := safe.counted
    unfold residentBytes at still
    dsimp only at still resident
    omega
  · intro spared
    refine .of_counted ?_ (fun other held here => ?_) ?_
    · unfold residentBytes
      rw [resident]
      exact within.trans (count.budget.trans left.budget).ge
    · dsimp only at here
      rw [untouched, count.cache] at here
      by_cases own : other = key
      · rw [own]
        exact count.last
      · exact count.others other own (left.ordered other held here)
    · unfold residentBytes
      rw [resident]
      dsimp only
      omega

theorem Safe.step_iff (safe : s.Safe) {op : BoundedOp} (fits : FitsBudget s.maxBytes op) :
    ((s.step cache op).2.Safe ↔ KeepsBudget s op) ∧ (s.step cache op).2.maxBytes = s.maxBytes := by
  have account (key value : Bytes) :=
    evictUntilFits_loosened (entrySize key value) s (Nat.add_sub_of_le safe.counted).symm safe.ordered
  have budget (key value : Bytes) : (s.account cache key value).maxBytes = s.maxBytes :=
    (account_spec key value s).budget.trans (account key value).1.budget
  cases op with
  | put key value =>
    have same : (CacheEntry.new value).value = value := rfl
    exact ⟨iff_of_true ((account_spec key value s).safe (account key value).1 same fits rfl) trivial,
      budget key value⟩
  | putWithTtl key value ttl =>
    obtain ⟨left, fewer⟩ := account key value
    have count := account_spec key value s
    have clock : (s.evictUntilFits cache (entrySize key value)).inner.ticks = s.inner.ticks :=
      evictLoop_ticks _ _ _ _ _
    have now : (s.account cache key value).inner.ticks 0 = s.inner.ticks 1 := by rw [count.clock, clock]
    refine ⟨?_, budget key value⟩
    unfold KeepsBudget BoundedCache.step putWithTtl Clocked.timed innerPutWithTtl
    dsimp only
    rw [lru_putWithTtl_eq, now]
    cases deadline : (s.inner.ticks 1).checkedAdd ttl with
    | none =>
      rw [forall_prop_of_true rfl, ← clock]
      exact count.safe_iff left (fewer.trans safe.within) rfl
    | some at_last =>
      refine iff_of_true (count.safe left ?_ fits rfl) nofun
      exact (show (CacheEntry.mk value (some at_last)).value = _ from rfl)
  | get key =>
    have total := total_get (s.inner.ticks 0) key s.inner.cache
    have fewer := (lru_lawful.get s.inner.cache (s.inner.ticks 0) key trivial).2
    have shrinks : residentBytes (s.get cache key).2 ≤ residentBytes s := Nat.le.intro total
    exact ⟨iff_of_true (.of_counted (shrinks.trans safe.within)
      (fun other held here => safe.ordered other held (fewer other held here))
      (shrinks.trans safe.counted)) trivial, rfl⟩
  | remove key =>
    obtain ⟨inner, maxBytes, currentBytes, order⟩ := s
    obtain ⟨within, ordered, counted, -⟩ := safe
    unfold residentBytes at within counted
    unfold BoundedCache.step remove
    dsimp only at *
    rw [untimed_remove]
    cases here : inner.cache.map.get key with
    | none =>
      have same := total_erase_of_absent bytesOf here
      exact ⟨iff_of_true (.of_counted (same.le.trans within)
        (ordered_erase ordered (fun other _ member => member) maxBytes currentBytes)
        (same.le.trans counted)) trivial, rfl⟩
    | some held =>
      have taken := total_erase bytesOf here
      refine ⟨iff_of_true (.of_counted ?_ (ordered_erase ordered (fun other apart member => ?_) maxBytes _) ?_)
        trivial, rfl⟩
      · exact (show (inner.cache.map.erase key).total bytesOf ≤ maxBytes by omega)
      · exact List.mem_filter.mpr ⟨member, decide_eq_true apart⟩
      · have size : bytesOf key held = entrySize key held.value := rfl
        exact (show (inner.cache.map.erase key).total bytesOf ≤ currentBytes - entrySize key held.value by
          omega)
  | clear =>
    exact ⟨iff_of_true (.of_counted (Nat.zero_le _) (fun key held here => by cases here) (Nat.zero_le _)) trivial, rfl⟩

end BoundedCache

end OxiStore.Caching
