/-
**`LfuCache`.**
-/

import OxiStore.Cache.Trait

namespace OxiStore.Caching

open Function LinkedMap

structure LfuCache (κ V : Type) where
  cap : ℕ
  minFreq : ℕ
  keyToEntry : LinkedMap κ (ℕ × CacheEntry V)
  freqToKeys : LinkedMap ℕ (LinkedMap κ Unit)

variable {κ V : Type}

namespace LfuCache

def new (cap : ℕ) : LfuCache κ V := ⟨cap, 0, ∅, ∅⟩

variable [DecidableEq κ]

def enterBucket (freq : ℕ) (key : κ) (s : LfuCache κ V) : LfuCache κ V :=
  { s with freqToKeys := s.freqToKeys.insert freq (((s.freqToKeys.get freq).getD ∅).insert key ()) }

def leaveBucket (freq : ℕ) (key : κ) (s : LfuCache κ V) : LfuCache κ V :=
  match s.freqToKeys.get freq with
  | none => s
  | some bucket =>
      if (bucket.erase key).len = 0 then { s with freqToKeys := s.freqToKeys.erase freq }
      else { s with freqToKeys := s.freqToKeys.insert freq (bucket.erase key) }

def incrementFreq (key : κ) (s : LfuCache κ V) : LfuCache κ V :=
  match s.keyToEntry.get key with
  | none => s
  | some (oldFreq, entry) =>
      let emptied := (s.freqToKeys.get oldFreq).any fun bucket => (bucket.erase key).len = 0
      let s := leaveBucket oldFreq key { s with keyToEntry := s.keyToEntry.insert key (oldFreq + 1, entry) }
      enterBucket (oldFreq + 1) key
        { s with minFreq := if emptied && oldFreq = s.minFreq then oldFreq + 1 else s.minFreq }

def evict (s : LfuCache κ V) : Option V × LfuCache κ V :=
  match s.freqToKeys.get s.minFreq with
  | none => (none, s)
  | some bucket =>
      match bucket.popFront with
      | (none, _) => (none, s)
      | (some (evictKey, _), bucket) =>
          ((s.keyToEntry.get evictKey).map fun pair => pair.2.value,
            { s with
              freqToKeys :=
                if bucket.len = 0 then s.freqToKeys.erase s.minFreq else s.freqToKeys.insert s.minFreq bucket
              keyToEntry := s.keyToEntry.erase evictKey })

def evictIfFull (s : LfuCache κ V) : Option V × LfuCache κ V :=
  if s.cap ≤ s.keyToEntry.len then s.evict else (none, s)

def addKey (key : κ) (entry : CacheEntry V) (s : LfuCache κ V) : LfuCache κ V :=
  { enterBucket 1 key { s with keyToEntry := s.keyToEntry.insert key (1, entry) } with minFreq := 1 }

def insertEntry (key : κ) (entry : CacheEntry V) (s : LfuCache κ V) : Option V × LfuCache κ V :=
  if s.cap = 0 then (some entry.value, s)
  else
    match s.keyToEntry.get key with
    | some (freq, _) =>
        (none, incrementFreq key { s with keyToEntry := s.keyToEntry.insert key (freq, entry) })
    | none => (s.evictIfFull.1, s.evictIfFull.2.addKey key entry)

def get (now : Instant) (key : κ) (s : LfuCache κ V) : Option V × LfuCache κ V :=
  match s.keyToEntry.get key with
  | none => (none, s)
  | some (freq, entry) =>
      if entry.isExpired now then (none, leaveBucket freq key { s with keyToEntry := s.keyToEntry.erase key })
      else (((incrementFreq key s).keyToEntry.get key).map fun pair => pair.2.value, incrementFreq key s)

def put (key : κ) (value : V) (s : LfuCache κ V) : Option V × LfuCache κ V := insertEntry key (.new value) s

def putWithTtl (now : Instant) (key : κ) (value : V) (ttl : Duration) (s : LfuCache κ V) :
    Option (Option V × LfuCache κ V) := insertWithTtl insertEntry now key value ttl s

def peek (now : Instant) (key : κ) (s : LfuCache κ V) : Option V :=
  (s.keyToEntry.get key).bind fun pair => pair.2.live now

def containsKey (now : Instant) (key : κ) (s : LfuCache κ V) : Bool :=
  (s.keyToEntry.get key).any fun pair => !pair.2.isExpired now

def remove (key : κ) (s : LfuCache κ V) : Option V × LfuCache κ V :=
  match s.keyToEntry.get key with
  | some (freq, entry) =>
      (some entry.value, leaveBucket freq key { s with keyToEntry := s.keyToEntry.erase key })
  | none => (none, s)

def clear (s : LfuCache κ V) : LfuCache κ V := ⟨s.cap, 0, ∅, ∅⟩

def evictable (s : LfuCache κ V) : ℕ := ((s.freqToKeys.get s.minFreq).getD ∅).len

def resize (newCap : ℕ) (s : LfuCache κ V) : Option (LfuCache κ V) :=
  WhileLoop.rounds (fun s : LfuCache κ V => 0 < s.cap && s.cap < s.keyToEntry.len) (fun s => s.evict.2)
    s.evictable { s with cap := newCap }

def cache : Cache κ V (LfuCache κ V) where
  get := get
  put := put
  putWithTtl := putWithTtl
  len s := s.keyToEntry.len
  cap s := s.cap
  remove := remove
  clear := clear
  peek := peek
  containsKey := containsKey
  resize := resize

def entry (s : LfuCache κ V) : Ledger κ V := fun key => (s.keyToEntry.get key).map Prod.snd

def TakesPut (s : LfuCache κ V) (key : κ) : Prop := s.cap ≠ 0 ∨ s.keyToEntry.get key = none

end LfuCache

open LfuCache

/-! ### The entries -/

section

variable [DecidableEq κ] {s : LfuCache κ V} {key : κ}

@[simp] theorem leaveBucket_keyToEntry (freq : ℕ) (key : κ) (s : LfuCache κ V) :
    (s.leaveBucket freq key).keyToEntry = s.keyToEntry := by
  unfold leaveBucket
  cases s.freqToKeys.get freq with
  | none => rfl
  | some bucket =>
    dsimp only
    split_ifs
    all_goals rfl

theorem incrementFreq_entry (key : κ) (s : LfuCache κ V) : (s.incrementFreq key).entry = s.entry := by
  unfold incrementFreq
  cases here : s.keyToEntry.get key with
  | none => rfl
  | some pair =>
    obtain ⟨freq, held⟩ := pair
    funext other
    show ((leaveBucket freq key _).keyToEntry.get other).map Prod.snd =
      (s.keyToEntry.get other).map Prod.snd
    rw [leaveBucket_keyToEntry, get_insert]
    by_cases same : other = key
    · rw [if_pos same, same, here]
      rfl
    · rw [if_neg same]

theorem entry_insert (key : κ) (freq : ℕ) (new : CacheEntry V) (s : LfuCache κ V) :
    LfuCache.entry { s with keyToEntry := s.keyToEntry.insert key (freq, new) } =
      update s.entry key (some new) := by
  show Option.map Prod.snd ∘ (s.keyToEntry.insert key (freq, new)).get = _
  rw [get_insert_eq_update, comp_update]
  rfl

theorem entry_erase (key : κ) (s : LfuCache κ V) :
    LfuCache.entry { s with keyToEntry := s.keyToEntry.erase key } = update s.entry key none := by
  show Option.map Prod.snd ∘ (s.keyToEntry.erase key).get = _
  rw [get_erase_eq_update, comp_update]
  rfl

theorem evict_cases (s : LfuCache κ V) :
    s.evict.2 = s ∨ ∃ key, s.evict.2.entry = update s.entry key none ∧ s.evict.2.cap = s.cap ∧
      s.evict.2.evictable < s.evictable := by
  unfold evict
  cases named : s.freqToKeys.get s.minFreq with
  | none => exact Or.inl rfl
  | some bucket =>
    rcases bucket.popFront_cases with ⟨_, popped, _⟩ | ⟨oldest, _, _, here, popped⟩
    · simp only [popped]
      exact Or.inl trivial
    · have shorter := len_erase_add_one (contains_of_get here)
      simp only [popped]
      refine Or.inr ⟨oldest, entry_erase oldest s, trivial, ?_⟩
      show (((if (bucket.erase oldest).len = 0 then s.freqToKeys.erase s.minFreq
        else s.freqToKeys.insert s.minFreq (bucket.erase oldest)).get s.minFreq).getD ∅).len <
          ((s.freqToKeys.get s.minFreq).getD ∅).len
      rw [named]
      split_ifs with empty
      · rw [get_erase_self]
        show (∅ : LinkedMap κ Unit).len < bucket.len
        rw [len_empty]
        omega
      · rw [get_insert_self]
        show (bucket.erase oldest).len < bucket.len
        omega

theorem evict_below (s : LfuCache κ V) : Below s.evict.2.entry s.entry := by
  rcases evict_cases s with same | ⟨key, entries, _⟩
  · rw [same]
    exact Below.refl _
  · rw [entries]
    exact below_update_none _ key

theorem lfu_insertEntry_below (takes : s.TakesPut key) (new : CacheEntry V) :
    Below (insertEntry key new s).2.entry (update s.entry key (some new)) := by
  unfold insertEntry
  by_cases refused : s.cap = 0
  · rw [if_pos refused]
    have absent : s.keyToEntry.get key = none := takes.resolve_left (not_not.mpr refused)
    intro other held found
    have different : other ≠ key := by
      rintro rfl
      unfold LfuCache.entry at found
      simp [absent] at found
    rw [update_of_ne different]
    exact found
  · rw [if_neg refused]
    cases here : s.keyToEntry.get key with
    | some pair =>
      show Below (incrementFreq key _).entry _
      rw [incrementFreq_entry, entry_insert]
      exact Below.refl _
    | none =>
      have room : Below s.evictIfFull.2.entry s.entry := by
        unfold evictIfFull
        split_ifs
        · exact evict_below s
        · exact Below.refl _
      have entries : (s.evictIfFull.2.addKey key new).entry =
          update s.evictIfFull.2.entry key (some new) := entry_insert key 1 new _
      show Below (s.evictIfFull.2.addKey key new).entry _
      rw [entries]
      exact room.update key _

theorem lfu_get_cases (now : Instant) (key : κ) (s : LfuCache κ V) :
    (s.entry key = none ∧ LfuCache.get now key s = (none, s)) ∨
      (∃ held s', s.entry key = some held ∧ held.live now = none ∧ LfuCache.get now key s = (none, s') ∧
        s'.entry = update s.entry key none) ∨
      ∃ held value s', s.entry key = some held ∧ held.live now = some value ∧
        LfuCache.get now key s = (some value, s') ∧ s'.entry = s.entry := by
  unfold LfuCache.get
  cases here : s.keyToEntry.get key with
  | none => exact Or.inl ⟨by rw [LfuCache.entry, here]; rfl, rfl⟩
  | some pair =>
    obtain ⟨freq, held⟩ := pair
    have held' : s.entry key = some held := by rw [LfuCache.entry, here]; rfl
    cases expired : held.isExpired now with
    | true =>
      refine Or.inr (Or.inl ⟨held, _, held', if_pos expired, if_pos expired, ?_⟩)
      rw [← entry_erase]
      unfold LfuCache.entry
      rw [leaveBucket_keyToEntry]
    | false =>
      refine Or.inr (Or.inr ⟨held, held.value, _, held', CacheEntry.live_eq_some.mpr ⟨expired, rfl⟩, ?_,
        incrementFreq_entry key s⟩)
      have same : (s.incrementFreq key).entry key = some held := by rw [incrementFreq_entry, held']
      obtain ⟨pair, there, held''⟩ := Option.map_eq_some_iff.mp same
      simp [expired, there, held'']

theorem lfu_get_others (now : Instant) {key other : κ} (apart : other ≠ key) (s : LfuCache κ V) :
    (LfuCache.get now key s).2.entry other = s.entry other := by
  rcases lfu_get_cases now key s with ⟨_, done⟩ | ⟨_, s', _, _, done, entries⟩ |
    ⟨_, _, s', _, _, done, entries⟩
  · rw [done]
  · rw [done, entries, update_of_ne apart]
  · rw [done, entries]

theorem lfu_peek_eq (now : Instant) (key : κ) (s : LfuCache κ V) :
    peek now key s = (s.entry key).bind (·.live now) := by
  unfold peek LfuCache.entry
  cases s.keyToEntry.get key <;> rfl

theorem lfu_remove_entry (key : κ) (s : LfuCache κ V) :
    (remove key s).2.entry = update s.entry key none := by
  unfold remove
  cases here : s.keyToEntry.get key with
  | none =>
    have absent : s.entry key = none := by rw [LfuCache.entry, here]; rfl
    exact (update_eq_self_iff.mpr absent.symm).symm
  | some pair =>
    rw [← entry_erase]
    unfold LfuCache.entry
    rw [leaveBucket_keyToEntry]

theorem lfu_resize_below {newCap : ℕ} {s s' : LfuCache κ V} (ends : resize newCap s = some s') :
    Below s'.entry s.entry := by
  have start : Below (LfuCache.entry { s with cap := newCap }) s.entry := Below.refl _
  exact (WhileLoop.rounds_invariant (fun after : LfuCache κ V => Below after.entry s.entry)
    (fun after below _ => (evict_below after).trans below) start ends).1

theorem lfu_lawful : (cache : Cache κ V (LfuCache κ V)).Lawful insertEntry (fun _ => True)
    LfuCache.entry TakesPut where
  reads s now key value _ found := by
    rcases found with got | peeked
    · have got' : (LfuCache.get now key s).1 = some value := got
      rcases lfu_get_cases now key s with ⟨_, done⟩ | ⟨_, _, _, _, done, _⟩ |
        ⟨held, _, _, here, live, done, _⟩
      · simp [done] at got'
      · simp [done] at got'
      · rw [done] at got'
        cases got'
        exact ⟨held, here, live⟩
    · have peeked' : peek now key s = some value := peeked
      rw [lfu_peek_eq] at peeked'
      exact Option.bind_eq_some_iff.mp peeked'
  contains s now key _ present := by
    obtain ⟨pair, here, fresh⟩ := (Option.any_eq_true _ _).mp present
    refine ⟨pair.2, pair.2.value, ?_, CacheEntry.live_eq_some.mpr ⟨(Bool.not_eq_true' _).mp fresh, rfl⟩⟩
    rw [LfuCache.entry, here]
    rfl
  get s now key _ := by
    refine ⟨trivial, ?_⟩
    show Below (LfuCache.get now key s).2.entry s.entry
    rcases lfu_get_cases now key s with ⟨_, done⟩ | ⟨_, _, _, _, done, entries⟩ |
      ⟨_, _, _, _, _, done, entries⟩
    · rw [done]
      exact Below.refl _
    · rw [done, entries]
      exact below_update_none _ key
    · rw [done, entries]
      exact Below.refl _
  put _ _ _ := rfl
  putWithTtl _ _ _ _ _ := rfl
  insert s key new _ := ⟨trivial, fun takes => lfu_insertEntry_below takes new⟩
  remove s key _ := by
    refine ⟨trivial, ?_⟩
    show Below (remove key s).2.entry _
    rw [lfu_remove_entry]
    exact Below.refl _
  clear s _ := ⟨trivial, fun key => by rw [LfuCache.entry]; exact congrArg _ (get_empty key)⟩
  resize s newCap s' _ ends := ⟨trivial, lfu_resize_below ends⟩

theorem lfu_resize_never {newCap : ℕ} {s : LfuCache κ V} (never : resize newCap s = none) (n : ℕ) :
    WhileLoop.rounds (fun s : LfuCache κ V => 0 < s.cap && s.cap < s.keyToEntry.len) (fun s => s.evict.2) n
      { s with cap := newCap } = none := by
  have enough : evictable { s with cap := newCap } ≤ s.evictable := le_rfl
  refine WhileLoop.rounds_stuck evictable (fun after _ => ?_) enough never n
  exact (evict_cases after).imp id fun ⟨_, _, _, fewer⟩ => fewer

end

end OxiStore.Caching
