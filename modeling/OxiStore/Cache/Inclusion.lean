/-
**The inclusion of `LruCache`s.**
-/

import OxiStore.Cache.Lru

namespace OxiStore.Caching

open StepProg LinkedMap List

variable {κ V : Type}

def Op.PutOrGet : Op κ V → Prop
  | .put _ _ => True
  | .get _ => True
  | _ => False

variable [DecidableEq κ]

/-- **The small cache within the large one.** Until the small cache is full, nothing tells the two apart. -/
structure LruCache.Included (small large : LruCache κ V) : Prop where
  positive : 1 ≤ small.cap
  caps : small.cap ≤ large.cap
  within : small.map.len ≤ small.cap
  within' : large.map.len ≤ large.cap
  order : small.map.keys <+ large.map.keys
  below : Below small.map.get large.map.get
  free : TtlFree large.map.get
  filled : small.map.len = small.cap ∨ small.map.keys = large.map.keys

omit [DecidableEq κ] in
theorem dropLast_sublist_dropLast {first second : List κ} (order : first <+ second) :
    first.dropLast <+ second.dropLast := by
  rw [← reverse_sublist, ← tail_reverse, ← tail_reverse]
  exact order.reverse.tail

variable {first second : LinkedMap κ (CacheEntry V)}

theorem contains_eq_of_keys (same : first.keys = second.keys) (key : κ) :
    first.contains key = second.contains key := by
  rw [Bool.eq_iff_iff, ← mem_keys_iff, ← mem_keys_iff, same]

theorem below_popFront (order : first.keys <+ second.keys) (below : Below first.get second.get) :
    Below first.popFront.2.get second.popFront.2.get := by
  intro key entry found
  have stays : key ∈ second.popFront.2.keys := by
    rw [keys_popFront]
    refine (dropLast_sublist_dropLast order).subset ?_
    rw [← keys_popFront]
    exact (mem_keys_iff _).mpr (contains_of_get found)
  obtain ⟨entry', found'⟩ := Option.isSome_iff_exists.mp ((mem_keys_iff _).mp stays)
  have same := (get_of_popFront found').symm.trans (below key entry (get_of_popFront found))
  rw [found', same]

section

variable {s : LruCache κ V}

theorem lru_put_present {key : κ} {value : V} (present : s.map.contains key = true) :
    LruCache.put key value s = (none, { s with map := s.map.insert key (.new value) }) := if_pos present

theorem lru_put_full {key : κ} {value : V} (absent : s.map.contains key = false) (positive : 0 < s.cap)
    (full : s.cap ≤ s.map.len) :
    (LruCache.put key value s).2 = { s with map := s.map.popFront.2.insert key (.new value) } := by
  unfold LruCache.put LruCache.insertEntry
  rw [absent, if_neg Bool.false_ne_true, if_pos ⟨positive, full⟩]

theorem lru_put_room {key : κ} {value : V} (absent : s.map.contains key = false) (room : s.map.len < s.cap) :
    
    LruCache.put key value s = (none, { s with map := s.map.insert key (.new value) }) := by
  unfold LruCache.put LruCache.insertEntry
  rw [absent, if_neg Bool.false_ne_true, if_neg (by omega)]

variable {small large : LruCache κ V} {key : κ}

namespace LruCache.Included

variable (included : small.Included large)

include included

theorem contains (present : small.map.contains key = true) :
    large.map.contains key = true :=
  (mem_keys_iff _).mp (included.order.subset ((mem_keys_iff _).mpr present))

theorem full_of_alone (absent : small.map.contains key = false) (present : large.map.contains key = true) :
    small.map.len = small.cap := by
  rcases included.filled with full | same
  · exact full
  · rw [contains_eq_of_keys same, present] at absent
    cases absent

theorem of_insert {first second : LinkedMap κ (CacheEntry V)} (order : first.keys <+ second.keys)
    (below : Below first.get second.get) (below' : Below second.get large.map.get) (value : V)
    (within : (first.insert key (.new value)).len ≤ small.cap)
    (within' : (second.insert key (.new value)).len ≤ large.cap)
    (filled : (first.insert key (.new value)).len = small.cap ∨ first.keys = second.keys) :
    Included { small with map := first.insert key (.new value) }
      { large with map := second.insert key (.new value) } where
  positive := included.positive
  caps := included.caps
  within := within
  within' := within'
  order := by
    rw [keys_insert, keys_insert]
    exact (order.erase key).cons_cons key
  below := by
    rw [get_insert_eq_update, get_insert_eq_update]
    exact below.update key _
  free := by
    rw [get_insert_eq_update]
    exact (included.free.below below').update key value
  filled := by
    refine filled.imp_right fun same => ?_
    rw [keys_insert, keys_insert, same]

theorem touch (present : small.map.contains key = true) (value : V) :
    Included { small with map := small.map.insert key (.new value) }
      { large with map := large.map.insert key (.new value) } := by
  have size : (small.map.insert key (.new value)).len = small.map.len := by rw [len_insert, if_pos present]
  refine included.of_insert included.order included.below (Below.refl _) value ?_ ?_ ?_
  · rw [size]
    exact included.within
  · rw [len_insert, if_pos (included.contains present)]
    exact included.within'
  · rw [size]
    exact included.filled

theorem put (key : κ) (value : V) :
    (LruCache.put key value small).2.Included (LruCache.put key value large).2 := by
  have positive := included.positive
  have caps := included.caps
  have within := included.within
  have within' := included.within'
  by_cases present : small.map.contains key = true
  · rw [lru_put_present present, lru_put_present (included.contains present)]
    exact included.touch present value
  · have absent : small.map.contains key = false := (Bool.not_eq_true _).mp present
    by_cases full : small.map.len = small.cap
    · -- the small cache gives up its oldest key, whatever the large one does
      have shorter := small.map.len_popFront
      have size : (small.map.popFront.2.insert key (.new value)).len = small.cap := by
        rw [len_insert_of_absent (contains_popFront_of_absent absent)]
        omega
      have fewer : small.map.popFront.2.keys <+ small.map.keys := by
        rw [keys_popFront]
        exact dropLast_sublist _
      have below : Below small.map.popFront.2.get small.map.get := fun _ _ => get_of_popFront
      rw [lru_put_full absent positive full.ge]
      by_cases present' : large.map.contains key = true
      · rw [lru_put_present present']
        refine included.of_insert (fewer.trans included.order) (below.trans included.below) (Below.refl _) value
          size.le ?_ (Or.inl size)
        rw [len_insert, if_pos present']
        exact within'
      · have absent' : large.map.contains key = false := (Bool.not_eq_true _).mp present'
        by_cases full' : large.cap ≤ large.map.len
        · have shorter' := large.map.len_popFront
          rw [lru_put_full absent' (by omega) full']
          refine included.of_insert ?_ (below_popFront included.order included.below)
            (fun _ _ => get_of_popFront) value size.le ?_ (Or.inl size)
          · rw [keys_popFront, keys_popFront]
            exact dropLast_sublist_dropLast included.order
          · rw [len_insert_of_absent (contains_popFront_of_absent absent')]
            omega
        · rw [lru_put_room absent' (by omega)]
          refine included.of_insert (fewer.trans included.order) (below.trans included.below) (Below.refl _)
            value size.le ?_ (Or.inl size)
          rw [len_insert_of_absent absent']
          omega
    · -- the small cache has room, so the two hold the same keys
      have same : small.map.keys = large.map.keys := included.filled.resolve_left full
      have size : small.map.len = large.map.len := congrArg length same
      have absent' : large.map.contains key = false := by rw [← contains_eq_of_keys same, absent]
      rw [lru_put_room absent (by omega), lru_put_room absent' (by omega)]
      refine included.of_insert included.order included.below (Below.refl _) value ?_ ?_ (Or.inr same)
      · rw [len_insert_of_absent absent]
        omega
      · rw [len_insert_of_absent absent']
        omega

theorem get (now : Instant) (key : κ) :
    (LruCache.get now key small).2.Included (LruCache.get now key large).2 := by
  cases here : small.map.get key with
  | some held =>
    have here' := included.below key held here
    have endless : held = .new held.value := by
      have never := included.free key held here'
      cases held
      simp_all [CacheEntry.new]
    have alive := included.free.alive here' now
    rw [lru_get_live here alive, lru_get_live here' alive, endless]
    exact included.touch (contains_of_get here) held.value
  | none =>
    have stays : LruCache.get now key small = (none, small) := by
      unfold LruCache.get
      rw [here]
    rw [stays]
    cases here' : large.map.get key with
    | none =>
      have stays' : LruCache.get now key large = (none, large) := by
        unfold LruCache.get
        rw [here']
      rw [stays']
      exact included
    | some held =>
      have absent := contains_of_get_none here
      have present := contains_of_get here'
      rw [lru_get_live here' (included.free.alive here' now)]
      have same : (large.map.insert key held).get = large.map.get := by
        rw [get_insert_eq_update, ← here', Function.update_eq_self]
      exact
        { positive := included.positive
          caps := included.caps
          within := included.within
          within' := by
            show (large.map.insert key held).len ≤ large.cap
            rw [len_insert, if_pos present]
            exact included.within'
          order := by
            have outside : key ∉ small.map.keys := by
              rw [mem_keys_iff, absent]
              exact Bool.false_ne_true
            show small.map.keys <+ (large.map.insert key held).keys
            rw [keys_insert, ← erase_of_not_mem outside]
            exact (included.order.erase key).cons key
          below := by
            show Below small.map.get (large.map.insert key held).get
            rw [same]
            exact included.below
          free := by
            show TtlFree (large.map.insert key held).get
            rw [same]
            exact included.free
          filled := Or.inl (included.full_of_alone absent present) }

end LruCache.Included

end

theorem lru_inclusion_run {small large : LruCache κ V} (included : small.Included large)
    {ops : List (Instant × Op κ V)} (plain : ∀ op ∈ ops, op.2.PutOrGet) :
    ∃ small' large', afterRun LruCache.cache.step (some small) ops = some small' ∧
      afterRun LruCache.cache.step (some large) ops = some large' ∧ small'.Included large' := by
  induction ops generalizing small large with
  | nil => exact ⟨small, large, rfl, rfl, included⟩
  | cons op ops ih =>
    obtain ⟨now, op⟩ := op
    have rest : ∀ later ∈ ops, later.2.PutOrGet := fun later member => plain later (mem_cons_of_mem _ member)
    have first : op.PutOrGet := plain (now, op) mem_cons_self
    cases op with
    | put key value => exact ih (included.put key value) rest
    | get key => exact ih (included.get now key) rest
    | putWithTtl key value ttl | peek key | containsKey key | remove key | clear | resize newCap =>
      exact first.elim

/-- **The inclusion of LRU caches.** After any puts and gets, what the small cache holds the large cache holds
with the same value, and a `get` that hits in the small cache hits in the large one. -/
theorem lru_inclusion (c₁ c₂ : ℕ) (positive : 1 ≤ c₁) (order : c₁ ≤ c₂) (ops : List (Instant × Op κ V))
    (plain : ∀ op ∈ ops, op.2.PutOrGet) :
    ∃ small large, afterRun LruCache.cache.step (some (LruCache.new c₁)) ops = some small ∧
      afterRun LruCache.cache.step (some (LruCache.new c₂)) ops = some large ∧
      (∀ key entry, small.map.get key = some entry → large.map.get key = some entry) ∧
      ∀ now key value, (LruCache.get now key small).1 = some value →
        (LruCache.get now key large).1 = some value := by
  have start : (LruCache.new c₁ : LruCache κ V).Included (LruCache.new c₂) :=
    { positive := positive
      caps := order
      within := Nat.zero_le _
      within' := Nat.zero_le _
      order := Sublist.refl _
      below := Below.refl _
      free := ttlFree_of_empty get_empty
      filled := Or.inr rfl }
  obtain ⟨small, large, run, run', included⟩ := lru_inclusion_run start plain
  refine ⟨small, large, run, run', included.below, fun now key value hit => ?_⟩
  rcases lru_get_cases now key small with ⟨_, done⟩ | ⟨_, _, _, done⟩ | ⟨entry, value', here, alive, done⟩
  · simp [done] at hit
  · simp [done] at hit
  · rw [lru_get_live (included.below key entry here) alive]
    rw [done] at hit
    exact hit

theorem lru_inclusion_one_two :
    ∃ small large, afterRun LruCache.cache.step (some (LruCache.new 1))
        [(0, .put 1 10), (0, .put 2 20), (0, .get 1)] = some small ∧
      afterRun LruCache.cache.step (some (LruCache.new 2))
        [(0, .put 1 10), (0, .put 2 20), (0, .get 1)] = some large ∧
      (∀ key entry, small.map.get key = some entry → large.map.get key = some entry) ∧
      ∀ now key value, (LruCache.get now key small).1 = some value →
        (LruCache.get (κ := ℕ) (V := ℕ) now key large).1 = some value :=
  lru_inclusion 1 2 (by decide) (by decide) _ (by simp [Op.PutOrGet])

end OxiStore.Caching
