/-
**`LruCache`.**
-/

import OxiStore.Cache.Trait

namespace OxiStore.Caching

open StepProg LinkedMap

structure LruCache (κ V : Type) where
  map : LinkedMap κ (CacheEntry V)
  cap : ℕ

variable {κ V : Type}

namespace LruCache

def new (cap : ℕ) : LruCache κ V := ⟨∅, cap⟩

variable [DecidableEq κ]

def insertEntry (key : κ) (entry : CacheEntry V) (s : LruCache κ V) : Option V × LruCache κ V :=
  if s.map.contains key then (none, { s with map := s.map.insert key entry })
  else if 0 < s.cap ∧ s.cap ≤ s.map.len then
    (s.map.popFront.1.map fun oldest => oldest.2.value,
      { s with map := s.map.popFront.2.insert key entry })
  else (none, { s with map := s.map.insert key entry })

def get (now : Instant) (key : κ) (s : LruCache κ V) : Option V × LruCache κ V :=
  match s.map.get key with
  | none => (none, s)
  | some entry =>
      if entry.isExpired now then (none, { s with map := s.map.erase key })
      else (some entry.value, { s with map := s.map.insert key entry })

def put (key : κ) (value : V) (s : LruCache κ V) : Option V × LruCache κ V := insertEntry key (.new value) s

def putWithTtl (now : Instant) (key : κ) (value : V) (ttl : Duration) (s : LruCache κ V) :
    Option (Option V × LruCache κ V) := insertWithTtl insertEntry now key value ttl s

def contains (now : Instant) (key : κ) (s : LruCache κ V) : Bool :=
  match s.map.get key with
  | some entry => !entry.isExpired now
  | none => false

def peek (now : Instant) (key : κ) (s : LruCache κ V) : Option V := (s.map.get key).bind (·.live now)

def remove (key : κ) (s : LruCache κ V) : Option V × LruCache κ V :=
  ((s.map.get key).map CacheEntry.value, { s with map := s.map.erase key })

def clear (s : LruCache κ V) : LruCache κ V := { s with map := ∅ }

def resize (newCap : ℕ) (s : LruCache κ V) : Option (LruCache κ V) :=
  WhileLoop.rounds (fun s : LruCache κ V => 0 < s.cap && s.cap < s.map.len)
    (fun s => { s with map := s.map.popFront.2 }) s.map.len { s with cap := newCap }

def cache : Cache κ V (LruCache κ V) where
  get := get
  put := put
  putWithTtl := putWithTtl
  len s := s.map.len
  cap s := s.cap
  remove := remove
  clear := clear
  peek := peek
  containsKey := contains
  resize := resize

end LruCache

section

variable [DecidableEq κ]

theorem lru_insertEntry_below (key : κ) (new : CacheEntry V) (s : LruCache κ V) :
    Below (LruCache.insertEntry key new s).2.map.get (Function.update s.map.get key (some new)) := by
  unfold LruCache.insertEntry
  split_ifs with present full
  · exact below_insert (Below.refl _) key new
  · exact below_insert (fun _ _ found => get_of_popFront found) key new
  · exact below_insert (Below.refl _) key new

theorem lru_insertEntry_self (key : κ) (new : CacheEntry V) (s : LruCache κ V) :
    (LruCache.insertEntry key new s).2.map.get key = some new := by
  unfold LruCache.insertEntry
  split_ifs
  all_goals exact get_insert_self _ key new

theorem lru_get_cases (now : Instant) (key : κ) (s : LruCache κ V) :
    (s.map.get key = none ∧ LruCache.get now key s = (none, s)) ∨
      (∃ entry, s.map.get key = some entry ∧ entry.live now = none ∧
        LruCache.get now key s = (none, { s with map := s.map.erase key })) ∨
      ∃ entry value, s.map.get key = some entry ∧ entry.live now = some value ∧
        LruCache.get now key s = (some value, { s with map := s.map.insert key entry }) := by
  unfold LruCache.get CacheEntry.live
  grind

theorem lru_get_live {now : Instant} {key : κ} {s : LruCache κ V} {entry : CacheEntry V} {value : V}
    (held : s.map.get key = some entry) (live : entry.live now = some value) :
    LruCache.get now key s = (some value, { s with map := s.map.insert key entry }) := by
  obtain ⟨fresh, rfl⟩ := CacheEntry.live_eq_some.mp live
  unfold LruCache.get
  simp [held, fresh]

theorem lru_get_others (now : Instant) {key other : κ} (apart : other ≠ key) (s : LruCache κ V) :
    (LruCache.get now key s).2.map.get other = s.map.get other := by
  rcases lru_get_cases now key s with ⟨_, done⟩ | ⟨entry, _, _, done⟩ | ⟨entry, value, _, _, done⟩
  · rw [done]
  · rw [done, get_erase, if_neg apart]
  · rw [done, get_insert, if_neg apart]

theorem lru_resize_below {newCap : ℕ} {s s' : LruCache κ V} (ends : LruCache.resize newCap s = some s') :
    Below s'.map.get s.map.get := by
  have start : Below (LruCache.mk s.map newCap).map.get s.map.get := Below.refl _
  refine (WhileLoop.rounds_invariant (fun after : LruCache κ V => Below after.map.get s.map.get)
    (fun after below _ other entry found => ?_) start ends).1
  exact below other entry (get_of_popFront found)

theorem lru_lawful : (LruCache.cache : Cache κ V (LruCache κ V)).Lawful LruCache.insertEntry (fun _ => True)
    (fun s => s.map.get) fun _ _ => True where
  reads s now key value _ found := by
    rcases found with got | peeked
    · have got' : (LruCache.get now key s).1 = some value := got
      rcases lru_get_cases now key s with ⟨_, done⟩ | ⟨entry, _, _, done⟩ | ⟨entry, value', held, live, done⟩
      · simp [done] at got'
      · simp [done] at got'
      · grind
    · exact Option.bind_eq_some_iff.mp peeked
  contains s now key _ present := by
    have present' : LruCache.contains now key s = true := present
    unfold LruCache.contains at present'
    cases held : s.map.get key with
    | none => simp [held] at present'
    | some entry =>
      rw [held, Bool.not_eq_true'] at present'
      exact ⟨entry, entry.value, rfl, CacheEntry.live_eq_some.mpr ⟨present', rfl⟩⟩
  get s now key _ := by
    refine ⟨trivial, fun other entry found => ?_⟩
    have found' : (LruCache.get now key s).2.map.get other = some entry := found
    by_cases same : other = key
    · subst same
      rcases lru_get_cases now other s with ⟨_, done⟩ | ⟨_, _, _, done⟩ | ⟨held, value, here, _, done⟩
      · rwa [done] at found'
      · simp [done, get_erase_self] at found'
      · rw [done, get_insert_self] at found'
        rw [here, found']
    · rwa [lru_get_others now same] at found'
  put _ _ _ := rfl
  putWithTtl _ _ _ _ _ := rfl
  insert s key new _ := ⟨trivial, fun _ => lru_insertEntry_below key new s⟩
  remove s key _ := ⟨trivial, below_erase (Below.refl _) key⟩
  clear s _ := ⟨trivial, get_empty⟩
  resize s newCap s' _ ends := ⟨trivial, lru_resize_below ends⟩

theorem lru_resize_returns (newCap : ℕ) (s : LruCache κ V) : ∃ s', LruCache.resize newCap s = some s' := by
  refine WhileLoop.rounds_of_measure (fun _ => True) (fun s : LruCache κ V => s.map.len)
    (fun s _ goes => ⟨trivial, ?_⟩) trivial le_rfl
  simp only [Bool.and_eq_true, decide_eq_true_eq] at goes
  rcases s.map.popFront_cases with ⟨_, _, empty⟩ | ⟨oldest, entry, _, held, popped⟩
  · omega
  · have shorter := len_erase_add_one (contains_of_get held)
    rw [popped]
    grind

end

/-! ### The bound -/

section

variable [DecidableEq κ]

def LruCache.Within : Option (LruCache κ V) → Prop
  | none => False
  | some s => s.map.len ≤ max s.cap 1

def LruCache.Unbounded (s : LruCache κ V) (key : κ) : Prop :=
  s.cap = 0 ∧ s.map.len ≠ 0 ∧ s.map.contains key = false

/-- **A call that exceeds the bound**: capacity 0 switches off the eviction of a put, and the loop of
`resize`. -/
def LruCache.Overfills : Option (LruCache κ V) → Instant × Op κ V → Prop
  | some s, (_, .put key _) => s.Unbounded key
  | some s, (now, .putWithTtl key value ttl) => CacheEntry.withTtl now value ttl ≠ none ∧ s.Unbounded key
  | some s, (_, .resize newCap) => newCap = 0 ∧ 1 < s.map.len
  | _, _ => False

variable {s : LruCache κ V}

theorem lru_insertEntry_len (within : s.map.len ≤ max s.cap 1) (key : κ) (new : CacheEntry V) :
    (LruCache.insertEntry key new s).2.map.len ≤ max (LruCache.insertEntry key new s).2.cap 1 ↔
      ¬ s.Unbounded key := by
  unfold LruCache.insertEntry LruCache.Unbounded
  split_ifs with present full
  · simp only [len_insert, present, if_true]
    exact iff_of_true within fun unbounded => absurd unbounded.2.2 (by decide)
  · have popped : (s.map.popFront.2.insert key new).len ≤ s.map.popFront.2.len + 1 := by
      rw [len_insert]
      split_ifs <;> omega
    have shorter : s.map.popFront.2.len + 1 = s.map.len := by
      rcases s.map.popFront_cases with ⟨_, _, empty⟩ | ⟨oldest, entry, _, held, pops⟩
      · omega
      · rw [pops]
        exact len_erase_add_one (contains_of_get held)
    exact iff_of_true (by dsimp only; omega) fun unbounded => by omega
  · simp only [len_insert, present]
    grind

theorem lru_get_len (now : Instant) (key : κ) (s : LruCache κ V) :
    (LruCache.get now key s).2.map.len ≤ s.map.len ∧ (LruCache.get now key s).2.cap = s.cap := by
  rcases lru_get_cases now key s with ⟨_, done⟩ | ⟨entry, _, _, done⟩ | ⟨entry, value, held, _, done⟩
  · simp [done]
  · grind [len_erase]
  · simp [done, len_insert, contains_of_get held]

theorem lru_resize_len (newCap : ℕ) (s : LruCache κ V) :
    ∃ s', LruCache.resize newCap s = some s' ∧ s'.cap = newCap ∧
      if newCap = 0 then s'.map = s.map else s'.map.len ≤ newCap := by
  obtain ⟨s', ends⟩ := lru_resize_returns newCap s
  obtain ⟨⟨cap, idle⟩, stops⟩ := WhileLoop.rounds_invariant (s := ⟨s.map, newCap⟩)
    (fun after : LruCache κ V => after.cap = newCap ∧ (newCap = 0 → after.map = s.map))
    (by grind) ⟨rfl, fun _ => rfl⟩ ends
  refine ⟨s', ends, cap, ?_⟩
  grind

theorem lru_step_bound (within : s.map.len ≤ max s.cap 1) (op : Instant × Op κ V) :
    ∃ s', (LruCache.cache.step (some s) op).2 = some s' ∧
      (s'.map.len ≤ max s'.cap 1 ↔ ¬ LruCache.Overfills (some s) op) := by
  obtain ⟨now, op⟩ := op
  cases op with
  | put key value => exact ⟨_, rfl, lru_insertEntry_len within key (.new value)⟩
  | putWithTtl key value ttl =>
    cases new : CacheEntry.withTtl now value ttl with
    | none =>
      refine ⟨s, ?_, iff_of_true within fun both => both.1 new⟩
      simp [Cache.step, LruCache.cache, LruCache.putWithTtl, insertWithTtl, new]
    | some entry =>
      refine ⟨(LruCache.insertEntry key entry s).2, ?_, ?_⟩
      · simp [Cache.step, LruCache.cache, LruCache.putWithTtl, insertWithTtl, new]
      · simp [lru_insertEntry_len within key entry, LruCache.Overfills, new]
  | get key =>
    have fewer := lru_get_len now key s
    exact ⟨(LruCache.get now key s).2, rfl, iff_of_true (by omega) not_false⟩
  | peek key | containsKey key => exact ⟨s, rfl, iff_of_true within not_false⟩
  | remove key =>
    refine ⟨(LruCache.remove key s).2, rfl, iff_of_true ?_ not_false⟩
    have fewer : (s.map.erase key).len ≤ s.map.len := by grind [len_erase]
    exact fewer.trans within
  | clear => exact ⟨_, rfl, iff_of_true (Nat.zero_le _) not_false⟩
  | resize newCap =>
    obtain ⟨s', returns, cap, size⟩ := lru_resize_len newCap s
    have returns' : (LruCache.cache : Cache κ V (LruCache κ V)).resize newCap s = some s' := returns
    refine ⟨s', by simp [Cache.step, returns'], ?_⟩
    unfold LruCache.Overfills
    split_ifs at size with zero
    · rw [size, cap, zero]
      simp
    · exact iff_of_true (by omega) fun overfills => zero overfills.1

/-- **An `LruCache` keeps to its capacity, or to one entry, along a run exactly if no call of the run exceeds
it**; and every call of such a run returns. -/
theorem lru_bound_iff (cap : ℕ) (ops : List (Instant × Op κ V)) :
    AlongRun LruCache.cache.step (fun s op => LruCache.Within (LruCache.cache.step s op).2)
        (some (LruCache.new cap)) ops ↔
      AlongRun LruCache.cache.step (fun s op => ¬ LruCache.Overfills s op) (some (LruCache.new cap)) ops := by
  refine alongRun_congr LruCache.Within (fun s op within => ?_) (Nat.zero_le _) ops
  cases s with
  | none => exact within.elim
  | some s =>
    obtain ⟨s', next, bound⟩ := lru_step_bound within op
    rw [next]
    exact ⟨bound, id⟩

theorem lru_holds_two_of_none : ¬ AlongRun LruCache.cache.step
    (fun s op => LruCache.Within (LruCache.cache.step s op).2) (some (LruCache.new 0 : LruCache ℕ ℕ))
    [(0, .put 1 10), (0, .put 2 20)] := by
  rintro ⟨_, within, _⟩
  exact absurd within (show ¬ 2 ≤ 1 by decide)

end

end OxiStore.Caching
