/-
**The books of an `LfuCache`.**
-/

import OxiStore.Cache.Lfu

namespace OxiStore.Caching

open Function LinkedMap

variable {κ V : Type}

/-! ### Tallies -/

/-- **How often each key was used since it came in, and in which call last.** -/
structure Tally (κ : Type) where
  uses : κ → ℕ
  reached : κ → ℕ
  clock : ℕ

namespace Tally

def start : Tally κ := ⟨fun _ => 0, fun _ => 0, 0⟩

def tick (t : Tally κ) : Tally κ := { t with clock := t.clock + 1 }

variable [DecidableEq κ]

def use (key : κ) (resident : Bool) (t : Tally κ) : Tally κ where
  uses := Function.update t.uses key (if resident then t.uses key + 1 else 1)
  reached := Function.update t.reached key t.clock
  clock := t.clock + 1

def Precedes (t : Tally κ) (first second : κ) : Prop :=
  t.uses first < t.uses second ∨ t.uses first = t.uses second ∧ t.reached first < t.reached second

end Tally

section

variable [DecidableEq κ]

/-- **One call, in the tally**: a put that is not refused uses its key, and so does a `get` that finds it. -/
def LfuCache.count (s : LfuCache κ V) (t : Tally κ) : Instant × Op κ V → Tally κ
  | (_, .put key _) => if s.cap = 0 then t.tick else t.use key (s.keyToEntry.contains key)
  | (now, .putWithTtl key value ttl) =>
      if s.cap = 0 ∨ CacheEntry.withTtl now value ttl = none then t.tick
      else t.use key (s.keyToEntry.contains key)
  | (now, .get key) => if LfuCache.containsKey now key s then t.use key true else t.tick
  | _ => t.tick

def LfuCache.counted : Option (LfuCache κ V) × Tally κ → Instant × Op κ V →
    Answer V × (Option (LfuCache κ V) × Tally κ)
  | (none, t), op => ((LfuCache.cache.step none op).1, none, t)
  | (some s, t), op =>
      ((LfuCache.cache.step (some s) op).1, (LfuCache.cache.step (some s) op).2, s.count t op)

/-! ### Buckets -/

def LfuCache.bucket (s : LfuCache κ V) (freq : ℕ) : LinkedMap κ Unit := (s.freqToKeys.get freq).getD ∅

theorem bucket_enterBucket (freq other : ℕ) (key : κ) (s : LfuCache κ V) :
    (s.enterBucket freq key).bucket other =
      if other = freq then (s.bucket freq).insert key () else s.bucket other := by
  show ((s.freqToKeys.insert freq _).get other).getD ∅ = _
  rw [get_insert]
  split_ifs
  all_goals rfl

theorem bucket_leaveBucket (freq other : ℕ) (key : κ) (s : LfuCache κ V) :
    (s.leaveBucket freq key).bucket other =
      if other = freq then (s.bucket freq).erase key else s.bucket other := by
  unfold LfuCache.leaveBucket LfuCache.bucket
  cases named : s.freqToKeys.get freq with
  | none =>
    dsimp only
    split_ifs with same
    · rw [same, named]
      rfl
    · rfl
  | some bucket =>
    dsimp only
    split_ifs with empty same same
    · rw [same, get_erase_self]
      exact (eq_empty_of_len empty).symm
    · rw [get_erase, if_neg same]
    · rw [same, get_insert_self]
      rfl
    · rw [get_insert, if_neg same]

variable {freq : ℕ}

@[simp] theorem leaveBucket_minFreq (freq : ℕ) (key : κ) (s : LfuCache κ V) :
    (s.leaveBucket freq key).minFreq = s.minFreq := by
  unfold LfuCache.leaveBucket
  cases s.freqToKeys.get freq with
  | none => rfl
  | some bucket =>
    dsimp only
    split_ifs
    all_goals rfl

@[simp] theorem leaveBucket_cap (freq : ℕ) (key : κ) (s : LfuCache κ V) :
    (s.leaveBucket freq key).cap = s.cap := by
  unfold LfuCache.leaveBucket
  cases s.freqToKeys.get freq with
  | none => rfl
  | some bucket =>
    dsimp only
    split_ifs
    all_goals rfl

theorem incrementFreq_spec {s : LfuCache κ V} {key : κ} {entry : CacheEntry V}
    (here : s.keyToEntry.get key = some (freq, entry)) (inside : (s.bucket freq).contains key = true) :
    (s.incrementFreq key).keyToEntry = s.keyToEntry.insert key (freq + 1, entry) ∧
      (s.incrementFreq key).cap = s.cap ∧
      ((s.incrementFreq key).minFreq =
        if ((s.bucket freq).erase key).len = 0 ∧ freq = s.minFreq then freq + 1 else s.minFreq) ∧
      ∀ other, (s.incrementFreq key).bucket other =
        if other = freq + 1 then (s.bucket other).insert key ()
        else if other = freq then (s.bucket other).erase key else s.bucket other := by
  obtain ⟨bucket, named⟩ : ∃ bucket, s.freqToKeys.get freq = some bucket := by
    cases named : s.freqToKeys.get freq with
    | some bucket => exact ⟨bucket, rfl⟩
    | none =>
      unfold LfuCache.bucket contains at inside
      simp [named, Option.getD_none, get_empty] at inside
  have emptied : ((s.freqToKeys.get freq).any fun bucket => decide ((bucket.erase key).len = 0)) =
      decide (((s.bucket freq).erase key).len = 0) := by
    unfold LfuCache.bucket
    rw [named]
    rfl
  unfold LfuCache.incrementFreq
  simp only [here, emptied]
  refine ⟨leaveBucket_keyToEntry _ _ _, leaveBucket_cap _ _ _, ?_, fun other => ?_⟩
  · show (if (decide (((s.bucket freq).erase key).len = 0) &&
      decide (freq = (LfuCache.leaveBucket freq key _).minFreq)) = true then freq + 1
      else (LfuCache.leaveBucket freq key _).minFreq) = _
    simp only [leaveBucket_minFreq, Bool.and_eq_true, decide_eq_true_eq]
  · rw [bucket_enterBucket]
    have left : ∀ other, LfuCache.bucket (LfuCache.leaveBucket freq key
        { s with keyToEntry := s.keyToEntry.insert key (freq + 1, entry) }) other =
        if other = freq then (s.bucket freq).erase key else s.bucket other :=
      fun other => bucket_leaveBucket freq other key _
    show (if other = freq + 1 then (LfuCache.bucket (LfuCache.leaveBucket freq key _) _).insert key ()
      else LfuCache.bucket (LfuCache.leaveBucket freq key _) other) = _
    rw [left, left, if_neg (Nat.succ_ne_self freq)]
    by_cases next : other = freq + 1
    · rw [if_pos next, if_pos next, next]
    · rw [if_neg next, if_neg next]
      split_ifs with same
      · rw [same]
      · rfl

theorem evict_spec (s : LfuCache κ V) :
    (s.evictable = 0 ∧ s.evict = (none, s)) ∨
      ∃ oldest s', (s.bucket s.minFreq).front = some (oldest, ()) ∧
        s.evict = ((s.entry oldest).map CacheEntry.value, s') ∧
        s'.keyToEntry = s.keyToEntry.erase oldest ∧ s'.cap = s.cap ∧ s'.minFreq = s.minFreq ∧
        ∀ other, s'.bucket other =
          if other = s.minFreq then (s.bucket other).erase oldest else s.bucket other := by
  have values : ∀ key, (s.keyToEntry.get key).map (fun pair => pair.2.value) =
      (s.entry key).map CacheEntry.value := by
    intro key
    unfold LfuCache.entry
    rw [Option.map_map]
    rfl
  unfold LfuCache.evict LfuCache.evictable LfuCache.bucket
  cases named : s.freqToKeys.get s.minFreq with
  | none => exact Or.inl ⟨rfl, rfl⟩
  | some bucket =>
    rcases bucket.popFront_cases with ⟨_, popped, empty⟩ | ⟨oldest, _, front, _, popped⟩
    · simp only [popped]
      exact Or.inl ⟨empty, trivial⟩
    · simp only [popped, values]
      refine Or.inr ⟨oldest, _, front, rfl, rfl, rfl, rfl, fun other => ?_⟩
      show ((if (bucket.erase oldest).len = 0 then s.freqToKeys.erase s.minFreq
        else s.freqToKeys.insert s.minFreq (bucket.erase oldest)).get other).getD ∅ = _
      split_ifs with empty same same
      · rw [same, get_erase_self, named]
        exact (eq_empty_of_len empty).symm
      · rw [get_erase, if_neg same]
      · rw [same, get_insert_self, named]
        rfl
      · rw [get_insert, if_neg same]

/-! ### The books -/

structure LfuCache.Books (s : LfuCache κ V) (t : Tally κ) : Prop where
  filed : ∀ key freq,
    (s.bucket freq).contains key = true ↔ ∃ held, s.keyToEntry.get key = some (freq, held)
  uses : ∀ key freq held, s.keyToEntry.get key = some (freq, held) →
    t.uses key = freq ∧ 0 < freq ∧ t.reached key < t.clock
  ordered : ∀ freq, (s.bucket freq).keys.Pairwise fun newer older => t.reached older < t.reached newer
  least : ∀ key freq held, s.keyToEntry.get key = some (freq, held) → s.minFreq ≤ freq

variable {s s' : LfuCache κ V} {t : Tally κ} {key : κ}

theorem books_empty (cap minFreq : ℕ) (t : Tally κ) :
    LfuCache.Books (⟨cap, minFreq, ∅, ∅⟩ : LfuCache κ V) t where
  filed key freq := by
    have empty : LfuCache.bucket (⟨cap, minFreq, ∅, ∅⟩ : LfuCache κ V) freq = ∅ := rfl
    rw [empty, contains, get_empty, get_empty]
    simp
  uses key freq held found := by
    simp [get_empty] at found
  ordered freq := List.Pairwise.nil
  least key freq held found := by
    simp [get_empty] at found

variable (books : s.Books t)

include books

theorem LfuCache.Books.tick : s.Books t.tick where
  filed := books.filed
  uses key freq held found := by
    obtain ⟨uses, positive, reached⟩ := books.uses key freq held found
    exact ⟨uses, positive, Nat.lt_succ_of_lt reached⟩
  ordered := books.ordered
  least := books.least

theorem LfuCache.Books.congr (entries : s'.keyToEntry.get = s.keyToEntry.get)
    (buckets : s'.freqToKeys = s.freqToKeys) (least : s'.minFreq = s.minFreq) : s'.Books t where
  filed key freq := by
    rw [LfuCache.bucket, buckets, entries]
    exact books.filed key freq
  uses key freq held found := by
    rw [entries] at found
    exact books.uses key freq held found
  ordered freq := by
    rw [LfuCache.bucket, buckets]
    exact books.ordered freq
  least key freq held found := by
    rw [entries] at found
    rw [least]
    exact books.least key freq held found

theorem LfuCache.Books.erase_elsewhere (elsewhere : ∀ held, s.keyToEntry.get key ≠ some (freq, held)) :
    (s.bucket freq).erase key = s.bucket freq := by
  apply erase_of_absent
  cases inside : (s.bucket freq).contains key with
  | false => rfl
  | true =>
    obtain ⟨held, here⟩ := (books.filed key freq).mp inside
    exact absurd here (elsewhere held)

theorem LfuCache.Books.ordered_erase (key : κ) (resident : Bool) (freq : ℕ) :
    ((s.bucket freq).keys.erase key).Pairwise fun newer older =>
      (t.use key resident).reached older < (t.use key resident).reached newer := by
  refine ((books.ordered freq).sublist List.erase_sublist).imp_of_mem ?_
  intro newer older newerIn olderIn before
  have apart : ∀ other, other ∈ (s.bucket freq).keys.erase key → other ≠ key :=
    fun other member => ((s.bucket freq).nodup_keys.mem_erase_iff.mp member).1
  show update t.reached key t.clock older < update t.reached key t.clock newer
  rw [update_of_ne (apart older olderIn), update_of_ne (apart newer newerIn)]
  exact before

theorem LfuCache.Books.use (resident : Bool) (freq : ℕ) (new : CacheEntry V)
    (count : (if resident then t.uses key + 1 else 1) = freq)
    (entries : s'.keyToEntry.get = update s.keyToEntry.get key (some (freq, new)))
    (buckets : ∀ other, s'.bucket other = if other = freq then (s.bucket other).insert key () else (s.bucket other).erase key)
    (least : ∀ other freq held, s'.keyToEntry.get other = some (freq, held) → s'.minFreq ≤ freq) :
    s'.Books (t.use key resident) where
  filed other freq' := by
    rw [buckets, entries]
    by_cases same : other = key
    · rw [same, update_self]
      split_ifs with there
      · simp [contains_insert, there]
      · have apart : freq ≠ freq' := fun equal => there equal.symm
        simp [contains_erase, apart]
    · rw [update_of_ne same, ← books.filed]
      split_ifs
      · simp [contains_insert, same]
      · simp [contains_erase, same]
  uses other freq' held found := by
    rw [entries] at found
    show update t.uses key _ other = freq' ∧ 0 < freq' ∧
      update t.reached key t.clock other < t.clock + 1
    by_cases same : other = key
    · rw [same, update_self] at found ⊢
      rw [update_self]
      cases found
      refine ⟨count, ?_, Nat.lt_succ_self _⟩
      rw [← count]
      split_ifs
      · exact Nat.succ_pos _
      · exact Nat.one_pos
    · rw [update_of_ne same] at found ⊢
      rw [update_of_ne same]
      obtain ⟨uses, positive, reached⟩ := books.uses other freq' held found
      exact ⟨uses, positive, Nat.lt_succ_of_lt reached⟩
  ordered freq' := by
    rw [buckets]
    split_ifs
    · rw [keys_insert, List.pairwise_cons]
      refine ⟨fun older member => ?_, books.ordered_erase key resident freq'⟩
      obtain ⟨apart, inside⟩ := (s.bucket freq').nodup_keys.mem_erase_iff.mp member
      obtain ⟨held, here⟩ := (books.filed older freq').mp ((mem_keys_iff _).mp inside)
      show update t.reached key t.clock older < update t.reached key t.clock key
      rw [update_of_ne apart, update_self]
      exact (books.uses older freq' held here).2.2
    · rw [keys_erase]
      exact books.ordered_erase key resident freq'
  least := least

theorem LfuCache.Books.drop (entries : s'.keyToEntry.get = update s.keyToEntry.get key none)
    (buckets : ∀ freq, s'.bucket freq = (s.bucket freq).erase key) (least : s'.minFreq = s.minFreq) :
    s'.Books t := by
  have stays : ∀ other pair, s'.keyToEntry.get other = some pair →
      other ≠ key ∧ s.keyToEntry.get other = some pair := by
    intro other pair found
    rw [entries] at found
    by_cases same : other = key
    · simp [same, update_self] at found
    · rw [update_of_ne same] at found
      exact ⟨same, found⟩
  refine ⟨fun other freq => ?_, fun other freq held found => ?_, fun freq => ?_,
    fun other freq held found => ?_⟩
  · rw [buckets, entries, contains_erase]
    by_cases same : other = key
    · simp [same]
    · rw [update_of_ne same, ← books.filed]
      simp [same]
  · exact books.uses other freq held (stays other _ found).2
  · rw [buckets, keys_erase]
    exact (books.ordered freq).sublist List.erase_sublist
  · rw [least]
    exact books.least other freq held (stays other _ found).2

/-! ### One call -/

theorem LfuCache.Books.incrementFreq {old new : CacheEntry V}
    (here : s.keyToEntry.get key = some (freq, old))
    (entries : s'.keyToEntry.get = update s.keyToEntry.get key (some (freq, new)))
    (same : s'.freqToKeys = s.freqToKeys) (least : s'.minFreq = s.minFreq) :
    (s'.incrementFreq key).Books (t.use key true) := by
  have buckets : ∀ other, s'.bucket other = s.bucket other := by
    intro other
    rw [LfuCache.bucket, same]
    rfl
  have here' : s'.keyToEntry.get key = some (freq, new) := by rw [entries, update_self]
  have inside : (s'.bucket freq).contains key = true := by
    rw [buckets]
    exact (books.filed key freq).mpr ⟨old, here⟩
  obtain ⟨entries', _, least', buckets'⟩ := incrementFreq_spec here' inside
  have count : t.uses key = freq := (books.uses key freq old here).1
  have moved : (s'.incrementFreq key).keyToEntry.get =
      update s.keyToEntry.get key (some (freq + 1, new)) := by
    rw [entries', get_insert_eq_update, entries, update_idem]
  refine books.use true (freq + 1) new (by rw [if_pos rfl, count]) moved (fun other => ?_)
    (fun other freq' held found => ?_)
  · rw [buckets', buckets]
    split_ifs with next own
    · rfl
    · rfl
    · refine (books.erase_elsewhere fun held there => own ?_).symm
      rw [here] at there
      cases there
      rfl
  · rw [least', least, buckets]
    rw [moved] at found
    by_cases own : other = key
    · rw [own, update_self] at found
      cases found
      have := books.least key freq old here
      split_ifs
      · exact le_rfl
      · exact Nat.le_succ_of_le this
    · rw [update_of_ne own] at found
      have low := books.least other freq' held found
      split_ifs with emptied
      · -- the bucket of `min_freq` is empty, so the other key is in a later one
        refine lt_of_le_of_ne (emptied.2.trans_le low) fun equal => ?_
        have member : ((s.bucket freq).erase key).contains other = true := by
          rw [contains_erase, equal]
          exact ⟨own, (books.filed other freq').mpr ⟨held, found⟩⟩
        exact absurd emptied.1 (len_pos member).ne'
      · exact low

theorem LfuCache.Books.addKey (absent : s.keyToEntry.get key = none) (new : CacheEntry V) :
    (s.addKey key new).Books (t.use key false) := by
  have entries : (s.addKey key new).keyToEntry.get =
      update s.keyToEntry.get key (some (1, new)) := get_insert_eq_update _ key (1, new)
  have entered : ∀ other, (s.addKey key new).bucket other =
      if other = 1 then (s.bucket 1).insert key () else s.bucket other :=
    fun other => bucket_enterBucket 1 other key _
  refine books.use false 1 new rfl entries (fun other => ?_) (fun other freq held found => ?_)
  · rw [entered]
    split_ifs with one
    · rw [one]
    · refine (books.erase_elsewhere fun held there => ?_).symm
      simp [absent] at there
  · show 1 ≤ freq
    rw [entries] at found
    by_cases own : other = key
    · rw [own, update_self] at found
      cases found
      exact le_rfl
    · rw [update_of_ne own] at found
      exact (books.uses other freq held found).2.1

omit books

variable {held : CacheEntry V}

theorem incrementFreq_evictable (here : s.keyToEntry.get key = some (freq, held))
    (inside : (s.bucket freq).contains key = true) (some' : 0 < s.evictable) :
    0 < (s.incrementFreq key).evictable := by
  obtain ⟨_, _, least, buckets⟩ := incrementFreq_spec here inside
  show 0 < ((s.incrementFreq key).bucket (s.incrementFreq key).minFreq).len
  rw [buckets, least]
  by_cases emptied : ((s.bucket freq).erase key).len = 0 ∧ freq = s.minFreq
  · rw [if_pos emptied, if_pos rfl]
    exact len_pos (contains_of_get (get_insert_self _ key ()))
  · rw [if_neg emptied]
    split_ifs with next own
    · exact len_pos (contains_of_get (get_insert_self _ key ()))
    · rw [own]
      exact Nat.pos_of_ne_zero fun empty => emptied ⟨empty, own.symm⟩
    · exact some'

include books in
theorem LfuCache.Books.evict :
    (s.evictable = 0 ∧ s.evict = (none, s)) ∨
      ∃ oldest held s', s.evict = (some held.value, s') ∧ s.entry oldest = some held ∧
        s'.keyToEntry = s.keyToEntry.erase oldest ∧ s'.cap = s.cap ∧ s'.evictable + 1 = s.evictable ∧
        s'.Books t ∧
        ∀ other, other ≠ oldest → s.keyToEntry.contains other = true → t.Precedes oldest other := by
  rcases evict_spec s with nobody | ⟨oldest, s', front, done, entries, cap, least, buckets⟩
  · exact Or.inl nobody
  · have inside : (s.bucket s.minFreq).contains oldest = true :=
      contains_of_get (get_of_front front)
    obtain ⟨held, here⟩ := (books.filed oldest s.minFreq).mp inside
    have entry : s.entry oldest = some held := by rw [LfuCache.entry, here]; rfl
    refine Or.inr ⟨oldest, held, s', by rw [done, entry]; rfl, entry, entries, cap, ?_, ?_, ?_⟩
    · show (s'.bucket s'.minFreq).len + 1 = (s.bucket s.minFreq).len
      rw [buckets, least, if_pos rfl]
      exact len_erase_add_one inside
    · refine books.drop (by rw [entries, get_erase_eq_update]) (fun freq => ?_) least
      rw [buckets]
      split_ifs with own
      · rfl
      · refine (books.erase_elsewhere fun held' there => own ?_).symm
        rw [here] at there
        cases there
        rfl
    · intro other apart resident
      obtain ⟨⟨freq, held'⟩, there⟩ := Option.isSome_iff_exists.mp resident
      have usesOldest := (books.uses oldest _ held here).1
      have usesOther := (books.uses other freq held' there).1
      rcases (books.least other freq held' there).lt_or_eq with less | equal
      · refine Or.inl ?_
        rw [usesOldest, usesOther]
        exact less
      · -- both are in the bucket of `min_freq`, and the oldest key is its last
        refine Or.inr ⟨by rw [usesOldest, usesOther, equal], ?_⟩
        obtain ⟨newer, split⟩ := keys_of_front front
        have member : other ∈ (s.bucket s.minFreq).keys :=
          (mem_keys_iff _).mpr ((books.filed other s.minFreq).mpr ⟨held', by rw [there, equal]⟩)
        have order := books.ordered s.minFreq
        rw [split] at member order
        rcases List.mem_append.mp member with early | last
        · exact (List.pairwise_append.mp order).2.2 other early oldest (List.mem_singleton_self oldest)
        · exact absurd (List.mem_singleton.mp last) apart

/-- **What a put that is carried out can do**: the key has a new entry, or comes in, or comes in for the key
that is evicted. -/
inductive LfuCache.Inserts (s : LfuCache κ V) (t : Tally κ) (key : κ) (new : CacheEntry V)
    (s' : LfuCache κ V) : Option V → Prop
  | replaced (present : s.keyToEntry.contains key = true)
      (entries : s'.entry = Function.update s.entry key (some new))
      (len : s'.keyToEntry.len = s.keyToEntry.len) (evictable : 0 < s.evictable → 0 < s'.evictable) :
      Inserts s t key new s' none
  | added (absent : s.keyToEntry.contains key = false)
      (room : s.keyToEntry.len < s.cap ∨ s.evictable = 0)
      (entries : s'.entry = Function.update s.entry key (some new))
      (len : s'.keyToEntry.len = s.keyToEntry.len + 1) (evictable : 0 < s'.evictable) :
      Inserts s t key new s' none
  | evicted (oldest : κ) (held : CacheEntry V) (absent : s.keyToEntry.contains key = false)
      (full : s.cap ≤ s.keyToEntry.len) (someone : 0 < s.evictable) (here : s.entry oldest = some held)
      (entries : s'.entry = Function.update (Function.update s.entry oldest none) key (some new))
      (len : s'.keyToEntry.len = s.keyToEntry.len) (evictable : 0 < s'.evictable)
      (first : ∀ other, other ≠ oldest → s.keyToEntry.contains other = true → t.Precedes oldest other) :
      Inserts s t key new s' (some held.value)

theorem contains_of_entry (here : s.entry key = some held) :
    s.keyToEntry.contains key = true := by
  obtain ⟨pair, there, _⟩ := Option.map_eq_some_iff.mp here
  exact contains_of_get there

theorem addKey_evictable (key : κ) (new : CacheEntry V) (s : LfuCache κ V) :
    0 < (s.addKey key new).evictable := by
  show 0 < ((s.addKey key new).bucket 1).len
  have entered : (s.addKey key new).bucket 1 = (s.bucket 1).insert key () :=
    (bucket_enterBucket 1 1 key _).trans (if_pos rfl)
  rw [entered]
  exact len_pos (contains_of_get (get_insert_self _ key ()))

theorem addKey_len (absent : s.keyToEntry.contains key = false) (new : CacheEntry V) :
    (s.addKey key new).keyToEntry.len = s.keyToEntry.len + 1 := by
  show (s.keyToEntry.insert key (1, new)).len = _
  rw [len_insert, absent]
  rfl

include books

theorem LfuCache.Books.insertEntry (takes : s.cap ≠ 0) (key : κ) (new : CacheEntry V) :
    ∃ s', (LfuCache.insertEntry key new s).2 = s' ∧ s'.cap = s.cap ∧
      s'.Books (t.use key (s.keyToEntry.contains key)) ∧
      s.Inserts t key new s' (LfuCache.insertEntry key new s).1 := by
  unfold LfuCache.insertEntry
  rw [if_neg takes]
  cases here : s.keyToEntry.get key with
  | some pair =>
    obtain ⟨freq, old⟩ := pair
    have present := contains_of_get here
    set before : LfuCache κ V := { s with keyToEntry := s.keyToEntry.insert key (freq, new) } with changed
    have there : before.keyToEntry.get key = some (freq, new) := get_insert_self _ key _
    have inside : (before.bucket freq).contains key = true := (books.filed key freq).mpr ⟨old, here⟩
    obtain ⟨entries, cap, _, _⟩ := incrementFreq_spec there inside
    refine ⟨before.incrementFreq key, rfl, cap, ?_, ?_⟩
    · rw [present]
      exact books.incrementFreq here (get_insert_eq_update _ key _) rfl rfl
    · refine .replaced present ?_ ?_ (incrementFreq_evictable there inside)
      · rw [incrementFreq_entry, changed, entry_insert]
      · rw [entries, len_insert, if_pos (contains_of_get there)]
        show (s.keyToEntry.insert key (freq, new)).len = _
        rw [len_insert, if_pos present]
  | none =>
    have absent := contains_of_get_none here
    refine ⟨s.evictIfFull.2.addKey key new, rfl, ?_⟩
    have entered : ∀ after : LfuCache κ V, (after.addKey key new).entry =
        update after.entry key (some new) := fun after => entry_insert key 1 new after
    have stays : s.evictIfFull = (none, s) → (s.keyToEntry.len < s.cap ∨ s.evictable = 0) →
        (s.evictIfFull.2.addKey key new).cap = s.cap ∧
          (s.evictIfFull.2.addKey key new).Books (t.use key (s.keyToEntry.contains key)) ∧
          s.Inserts t key new (s.evictIfFull.2.addKey key new) s.evictIfFull.1 := by
      intro same room
      rw [same, absent]
      exact ⟨rfl, books.addKey here new,
        .added absent room (entered s) (addKey_len absent new) (addKey_evictable key new s)⟩
    unfold LfuCache.evictIfFull at stays ⊢
    by_cases full : s.cap ≤ s.keyToEntry.len
    · rw [if_pos full] at stays ⊢
      rcases books.evict with ⟨nobody, same⟩ |
        ⟨oldest, held, s', done, entry, entries, cap, one, books', first⟩
      · exact stays same (Or.inr nobody)
      · have resident := contains_of_entry entry
        have away : s'.keyToEntry.get key = none := by
          rw [entries, get_erase, here, ite_self]
        have fewer := len_erase_add_one resident
        rw [done, absent]
        refine ⟨cap, books'.addKey away new, .evicted oldest held absent full ?_ entry ?_ ?_
          (addKey_evictable key new s') first⟩
        · rw [← one]
          exact Nat.succ_pos _
        · rw [entered]
          congr 1
          show Option.map Prod.snd ∘ s'.keyToEntry.get = _
          rw [entries]
          exact entry_erase oldest s
        · rw [addKey_len (contains_of_get_none away), entries]
          exact fewer
    · rw [if_neg full] at stays ⊢
      exact stays rfl (Or.inl (not_le.mp full))

theorem LfuCache.Books.leave (here : s.keyToEntry.get key = some (freq, held)) :
    (LfuCache.leaveBucket freq key { s with keyToEntry := s.keyToEntry.erase key }).Books t := by
  refine books.drop (by rw [leaveBucket_keyToEntry, get_erase_eq_update]) (fun other => ?_)
    (leaveBucket_minFreq freq key _)
  rw [bucket_leaveBucket]
  split_ifs with own
  · rw [own]
    rfl
  · refine (books.erase_elsewhere fun held' there => own ?_).symm
    rw [here] at there
    cases there
    rfl

/-! ### Room -/

structure LfuCache.Roomy (s : LfuCache κ V) : Prop where
  within : s.keyToEntry.len ≤ s.cap
  someone : 0 < s.cap → s.cap ≤ s.keyToEntry.len →
    0 < s.evictable ∨ ∀ key, s.keyToEntry.contains key = true

/-- **What a call that is no `resize` leaves behind.** -/
structure LfuCache.Leaves (s s' : LfuCache κ V) (t : Tally κ) : Prop where
  books : s'.Books t
  cap : s'.cap = s.cap
  roomy : s.Roomy → s'.Roomy

theorem LfuCache.Books.leaves : s.Leaves s t := ⟨books, rfl, id⟩

omit books

theorem leaves_fewer (books : s'.Books t) (cap : s'.cap = s.cap)
    (fewer : s'.keyToEntry.len < s.keyToEntry.len) : s.Leaves s' t := by
  refine ⟨books, cap, fun roomy => ⟨?_, fun _ full => ?_⟩⟩
  · rw [cap]
    exact fewer.le.trans roomy.within
  · rw [cap] at full
    exact absurd (fewer.trans_le roomy.within) (not_lt.mpr full)

theorem contains_eq_entry (key : κ) (s : LfuCache κ V) :
    s.keyToEntry.contains key = (s.entry key).isSome := by
  unfold contains LfuCache.entry
  rw [Option.isSome_map]

theorem leaves_same (books : s'.Books t) (cap : s'.cap = s.cap)
    (len : s'.keyToEntry.len = s.keyToEntry.len) (evictable : 0 < s.evictable → 0 < s'.evictable)
    (residents : ∀ key, s.keyToEntry.contains key = true → s'.keyToEntry.contains key = true) :
    s.Leaves s' t := by
  refine ⟨books, cap, fun roomy => ⟨?_, fun positive full => ?_⟩⟩
  · rw [cap, len]
    exact roomy.within
  · rw [cap] at positive
    rw [cap, len] at full
    exact (roomy.someone positive full).imp evictable fun all key => residents key (all key)

include books

theorem LfuCache.Books.leaves_insertEntry (key : κ) (new : CacheEntry V) :
    s.Leaves (LfuCache.insertEntry key new s).2
      (if s.cap = 0 then t.tick else t.use key (s.keyToEntry.contains key)) := by
  by_cases refused : s.cap = 0
  · unfold LfuCache.insertEntry
    rw [if_pos refused, if_pos refused]
    exact books.tick.leaves
  · rw [if_neg refused]
    obtain ⟨s', done, cap, books', inserts⟩ := books.insertEntry refused key new
    rw [done]
    generalize (LfuCache.insertEntry key new s).1 = evicted at inserts
    cases inserts with
    | replaced present entries len evictable =>
      refine leaves_same books' cap len evictable fun other resident => ?_
      rw [contains_eq_entry] at resident ⊢
      rw [entries]
      by_cases own : other = key
      · rw [own, update_self]
        rfl
      · rw [update_of_ne own]
        exact resident
    | added absent room entries len evictable =>
      refine ⟨books', cap, fun roomy => ⟨?_, fun _ _ => Or.inl evictable⟩⟩
      rw [cap, len]
      rcases room with room | nobody
      · exact room
      · refine lt_of_le_of_ne roomy.within fun full => ?_
        rcases roomy.someone (Nat.pos_of_ne_zero refused) full.ge with someone | all
        · exact absurd nobody someone.ne'
        · simp [all key] at absent
    | evicted oldest held absent full someone here entries len evictable first =>
      refine ⟨books', cap, fun roomy => ⟨?_, fun _ _ => Or.inl evictable⟩⟩
      rw [cap, len]
      exact roomy.within

theorem LfuCache.Books.leaves_get (now : Instant) (key : κ) :
    s.Leaves (LfuCache.get now key s).2
      (if LfuCache.containsKey now key s then t.use key true else t.tick) := by
  unfold LfuCache.get LfuCache.containsKey
  cases here : s.keyToEntry.get key with
  | none => exact books.tick.leaves
  | some pair =>
    obtain ⟨freq, held⟩ := pair
    have present := contains_of_get here
    cases expired : held.isExpired now with
    | true =>
      simp only [expired, Option.any_some, Bool.not_true, if_true, Bool.false_eq_true, if_false]
      refine leaves_fewer (books.leave here).tick (leaveBucket_cap freq key _) ?_
      rw [leaveBucket_keyToEntry]
      exact Nat.lt_of_succ_le (len_erase_add_one present).le
    | false =>
      have inside : (s.bucket freq).contains key = true := (books.filed key freq).mpr ⟨held, here⟩
      obtain ⟨entries, cap, _, _⟩ := incrementFreq_spec here inside
      simp only [expired, Option.any_some, Bool.not_false, if_true, Bool.false_eq_true, if_false]
      have same : s.keyToEntry.get = update s.keyToEntry.get key (some (freq, held)) :=
        (update_eq_self_iff.mpr here.symm).symm
      refine leaves_same (books.incrementFreq here same rfl rfl) cap ?_
        (incrementFreq_evictable here inside) fun other resident => ?_
      · rw [entries, len_insert, if_pos present]
      · rw [contains_eq_entry] at resident ⊢
        rw [incrementFreq_entry]
        exact resident

theorem LfuCache.Books.leaves_remove (key : κ) :
    s.Leaves (LfuCache.remove key s).2 t := by
  unfold LfuCache.remove
  cases here : s.keyToEntry.get key with
  | none => exact books.leaves
  | some pair =>
    refine leaves_fewer (books.leave here) (leaveBucket_cap pair.1 key _) ?_
    rw [leaveBucket_keyToEntry]
    exact Nat.lt_of_succ_le (len_erase_add_one (contains_of_get here)).le

omit books

theorem leaves_clear (s : LfuCache κ V) (t : Tally κ) : s.Leaves s.clear t := by
  refine ⟨books_empty s.cap 0 t, rfl, fun _ => ⟨Nat.zero_le _, fun positive full => ?_⟩⟩
  exact absurd positive (not_lt.mpr full)

def Op.KeepsCap : Op κ V → Prop
  | .resize _ => False
  | _ => True

include books in
theorem LfuCache.Books.step (op : Instant × Op κ V) (keeps : op.2.KeepsCap) :
    ∃ s', (LfuCache.cache.step (some s) op).2 = some s' ∧ s.Leaves s' (s.count t op) := by
  obtain ⟨now, op⟩ := op
  cases op with
  | put key value => exact ⟨_, rfl, books.leaves_insertEntry key (.new value)⟩
  | putWithTtl key value ttl =>
    unfold Cache.step LfuCache.count
    dsimp only
    rw [lfu_lawful.putWithTtl, insertWithTtl]
    cases new : CacheEntry.withTtl now value ttl with
    | none =>
      rw [if_pos (Or.inr rfl)]
      exact ⟨s, rfl, books.tick.leaves⟩
    | some entry =>
      have leaves := books.leaves_insertEntry key entry
      refine ⟨(LfuCache.insertEntry key entry s).2, rfl, ?_⟩
      by_cases refused : s.cap = 0
      · rw [if_pos refused] at leaves
        rw [if_pos (Or.inl refused)]
        exact leaves
      · rw [if_neg refused] at leaves
        rw [if_neg (by simp [refused])]
        exact leaves
  | get key => exact ⟨_, rfl, books.leaves_get now key⟩
  | peek key | containsKey key => exact ⟨s, rfl, books.tick.leaves⟩
  | remove key => exact ⟨_, rfl, books.tick.leaves_remove key⟩
  | clear => exact ⟨_, rfl, leaves_clear s t.tick⟩
  | resize newCap => exact keeps.elim

end

end OxiStore.Caching
