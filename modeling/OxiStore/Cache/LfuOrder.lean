/-
**The order in which an `LfuCache` evicts.**
-/

import OxiStore.Cache.LfuBooks

namespace OxiStore.Caching

open StepProg

variable {κ V : Type}

section

variable [DecidableEq κ] {s s' : LfuCache κ V} {t : Tally κ} {key : κ}

/-! ### Resizing -/

structure LfuCache.Drained (s : LfuCache κ V) (t : Tally κ) (newCap : ℕ) (after : LfuCache κ V) : Prop where
  books : after.Books t
  cap : after.cap = newCap
  count : after.keyToEntry.len + s.evictable = s.keyToEntry.len + after.evictable
  order : ∀ gone kept, s.keyToEntry.contains gone = true → after.keyToEntry.contains gone = false →
    after.keyToEntry.contains kept = true → t.Precedes gone kept

variable (books : s.Books t)

include books in
theorem LfuCache.Books.drained (newCap : ℕ) :
    s.Drained t newCap { s with cap := newCap } where
  books := books.congr rfl rfl rfl
  cap := rfl
  count := rfl
  order gone kept before after _ := by
    have after' : s.keyToEntry.contains gone = false := after
    rw [before] at after'
    cases after'

variable {newCap : ℕ}

theorem LfuCache.Drained.evict {after : LfuCache κ V} (drained : s.Drained t newCap after) :
    s.Drained t newCap after.evict.2 := by
  rcases drained.books.evict with ⟨_, same⟩ |
    ⟨oldest, held, next, done, entry, entries, cap, fewer, books, first⟩
  · rw [same]
    exact drained
  · have shorter := LinkedMap.len_erase_add_one (contains_of_entry entry)
    have count := drained.count
    rw [done]
    refine ⟨books, cap.trans drained.cap, ?_, fun gone kept before away stays => ?_⟩
    · show next.keyToEntry.len + s.evictable = s.keyToEntry.len + next.evictable
      rw [entries]
      omega
    · rw [entries, LinkedMap.contains_erase] at stays
      cases still : after.keyToEntry.contains gone with
      | false => exact drained.order gone kept before still stays.2
      | true =>
        have own : gone = oldest := by
          by_contra apart
          have : (after.keyToEntry.erase oldest).contains gone = true :=
            (LinkedMap.contains_erase oldest gone).mpr ⟨apart, still⟩
          rw [← entries, away] at this
          cases this
        rw [own]
        exact first kept stays.1 stays.2

include books

theorem LfuCache.Books.resize (ends : LfuCache.resize newCap s = some s') :
    s.Drained t newCap s' ∧ (0 < newCap → s'.keyToEntry.len ≤ newCap) := by
  obtain ⟨drained, stops⟩ := WhileLoop.rounds_invariant (s.Drained t newCap)
    (fun after drained _ => drained.evict) (books.drained newCap) ends
  refine ⟨drained, fun positive => ?_⟩
  rw [drained.cap, Bool.and_eq_false_iff, decide_eq_false_iff_not, decide_eq_false_iff_not] at stops
  exact not_lt.mp (stops.resolve_left (not_not.mpr positive))

theorem LfuCache.Books.resize_returns (enough : s.keyToEntry.len ≤ newCap + s.evictable) :
    ∃ s', LfuCache.resize newCap s = some s' := by
  refine WhileLoop.rounds_of_measure (s.Drained t newCap) LfuCache.evictable (fun after drained goes => ?_)
    (books.drained newCap) le_rfl
  refine ⟨drained.evict, ?_⟩
  have count := drained.count
  rw [drained.cap, Bool.and_eq_true, decide_eq_true_eq, decide_eq_true_eq] at goes
  rcases drained.books.evict with ⟨nobody, _⟩ | ⟨_, _, next, done, _, _, _, fewer, _⟩
  · omega
  · rw [done]
    exact Nat.lt_of_succ_le fewer.le

omit books

theorem resize_idle (idle : newCap = 0 ∨ s.keyToEntry.len ≤ newCap) :
    LfuCache.resize newCap s = some { s with cap := newCap } := by
  have stops : ¬ ((decide (0 < newCap) && decide (newCap < s.keyToEntry.len)) = true) := by
    rw [Bool.and_eq_true, decide_eq_true_eq, decide_eq_true_eq]
    omega
  unfold LfuCache.resize
  cases s.evictable <;> exact if_neg stops

omit [DecidableEq κ] in
theorem Op.keepsCap_or (op : Op κ V) : op.KeepsCap ∨ ∃ newCap, op = .resize newCap := by
  cases op with
  | resize newCap => exact Or.inr ⟨newCap, rfl⟩
  | _ => exact Or.inl trivial

include books in
theorem LfuCache.Books.step_any {op : Instant × Op κ V}
    (next : (LfuCache.cache.step (some s) op).2 = some s') : s'.Books (s.count t op) := by
  obtain ⟨now, op⟩ := op
  rcases op.keepsCap_or with keeps | ⟨newCap, rfl⟩
  · obtain ⟨after, done, leaves⟩ := books.step (now, op) keeps
    rw [done] at next
    cases next
    exact leaves.books
  · unfold Cache.step at next
    dsimp only at next
    cases resized : LfuCache.cache.resize newCap s with
    | none =>
      rw [resized] at next
      cases next
    | some after =>
      rw [resized] at next
      cases next
      exact (books.tick.resize resized).1.books

/-! ### Runs -/

def LfuCache.tallyOf (cap : ℕ) (ops : List (Instant × Op κ V)) : Tally κ :=
  (afterRun LfuCache.counted (some (LfuCache.new cap), Tally.start) ops).2

theorem counted_afterRun (state : Option (LfuCache κ V)) (t : Tally κ) (ops : List (Instant × Op κ V)) :
    (afterRun LfuCache.counted (state, t) ops).1 = afterRun LfuCache.cache.step state ops := by
  induction ops generalizing state t with
  | nil => rfl
  | cons op ops ih =>
    cases state with
    | none => exact ih none t
    | some s => exact ih (LfuCache.cache.step (some s) op).2 (s.count t op)

theorem books_afterRun {cap : ℕ} {ops : List (Instant × Op κ V)}
    (ends : afterRun LfuCache.cache.step (some (LfuCache.new cap)) ops = some s) :
    s.Books (LfuCache.tallyOf cap ops) := by
  let sound : Option (LfuCache κ V) × Tally κ → Prop := fun state => ∀ s, state.1 = some s → s.Books state.2
  have always : sound (afterRun LfuCache.counted (some (LfuCache.new cap), Tally.start) ops) := by
    refine afterRun_invariant (fun state op books _ s' next => ?_) (fun s same => ?_)
      (alongRun_of_forall (fun _ _ => trivial) _ ops)
    · obtain ⟨_ | s, t⟩ := state
      · cases next
      · exact (books s rfl).step_any next
    · cases same
      exact books_empty cap 0 Tally.start
  refine always s ?_
  rw [counted_afterRun]
  exact ends

include books

theorem roomy_afterRun (roomy : s.Roomy) {ops : List (Instant × Op κ V)} (keeps : ∀ op ∈ ops, op.2.KeepsCap) :
    ∃ s', afterRun LfuCache.cache.step (some s) ops = some s' ∧ s'.Roomy ∧ s'.cap = s.cap := by
  induction ops generalizing s t with
  | nil => exact ⟨s, rfl, roomy, rfl⟩
  | cons op ops ih =>
    obtain ⟨next, done, leaves⟩ := books.step op (keeps op List.mem_cons_self)
    obtain ⟨s', ends, roomy', cap⟩ := ih leaves.books (leaves.roomy roomy)
      fun later member => keeps later (List.mem_cons_of_mem op member)
    refine ⟨s', ?_, roomy', cap.trans leaves.cap⟩
    show afterRun LfuCache.cache.step (LfuCache.cache.step (some s) op).2 ops = some s'
    rw [done]
    exact ends

/-! ### Who is evicted -/

def Op.TakesOut : Op κ V → κ → Prop
  | .get key, gone => key = gone
  | .remove key, gone => key = gone
  | .clear, _ => True
  | _, _ => False

def LfuCache.Evicts (s : LfuCache κ V) (op : Op κ V) (s' : LfuCache κ V) (gone : κ) : Prop :=
  s.keyToEntry.contains gone = true ∧ s'.keyToEntry.contains gone = false ∧ ¬ op.TakesOut gone

theorem LfuCache.Books.insertEntry_evicts (key : κ) (new : CacheEntry V) {gone : κ}
    (before : s.keyToEntry.contains gone = true)
    (after : (LfuCache.insertEntry key new s).2.keyToEntry.contains gone = false) {other : κ}
    (apart : other ≠ gone) (resident : s.keyToEntry.contains other = true) : t.Precedes gone other := by
  by_cases refused : s.cap = 0
  · unfold LfuCache.insertEntry at after
    rw [if_pos refused, before] at after
    cases after
  · obtain ⟨s', done, _, _, inserts⟩ := books.insertEntry refused key new
    have stays : ∀ first : Ledger κ V, s'.entry = Function.update first key (some new) →
        first gone = none := by
      intro first entries
      rw [done, contains_eq_entry, entries] at after
      by_cases own : gone = key
      · rw [own, Function.update_self] at after
        cases after
      · rw [Function.update_of_ne own] at after
        exact Option.isNone_iff_eq_none.mp (by simpa using after)
    rw [contains_eq_entry] at before
    generalize (LfuCache.insertEntry key new s).1 = evicted at inserts
    cases inserts with
    | replaced present entries len evictable | added absent room entries len evictable =>
      rw [stays _ entries] at before
      cases before
    | evicted oldest held absent full someone here entries len evictable first =>
      have own : gone = oldest := by
        by_contra different
        have missing := stays _ entries
        rw [Function.update_of_ne different] at missing
        rw [missing] at before
        cases before
      rw [own] at apart ⊢
      exact first other apart resident

theorem LfuCache.Books.evicts {op : Instant × Op κ V} (keeps : op.2.KeepsCap)
    (next : (LfuCache.cache.step (some s) op).2 = some s') {gone other : κ} (evicts : s.Evicts op.2 s' gone)
    (apart : other ≠ gone) (resident : s.keyToEntry.contains other = true) : t.Precedes gone other := by
  obtain ⟨before, after, spared⟩ := evicts
  obtain ⟨now, op⟩ := op
  have unchanged : s'.entry gone = s.entry gone → t.Precedes gone other := by
    intro same
    rw [contains_eq_entry, same, ← contains_eq_entry, before] at after
    cases after
  cases op with
  | put key value =>
    cases next
    exact books.insertEntry_evicts key (.new value) before after apart resident
  | putWithTtl key value ttl =>
    unfold Cache.step at next
    dsimp only at next
    rw [lfu_lawful.putWithTtl, insertWithTtl] at next
    cases new : CacheEntry.withTtl now value ttl with
    | none =>
      rw [new] at next
      cases next
      exact unchanged rfl
    | some entry =>
      rw [new] at next
      cases next
      exact books.insertEntry_evicts key entry before after apart resident
  | get key =>
    cases next
    exact unchanged (lfu_get_others now (fun same => spared same.symm) s)
  | peek key | containsKey key =>
    cases next
    exact unchanged rfl
  | remove key =>
    cases next
    refine unchanged ?_
    show (LfuCache.remove key s).2.entry gone = _
    rw [lfu_remove_entry, Function.update_of_ne fun same => spared same.symm]
  | clear => exact absurd trivial spared
  | resize newCap => exact keeps.elim

omit books

/-- **Without `resize`, an `LfuCache` keeps its capacity and evicts the least used.** Every call returns;
whoever is evicted was used less often than every other resident, or as often and had reached that count
earlier. -/
theorem lfu_evicts_least_used (cap : ℕ) (positive : 0 < cap) (ops : List (Instant × Op κ V))
    (keeps : ∀ op ∈ ops, op.2.KeepsCap) :
    ∃ s, afterRun LfuCache.cache.step (some (LfuCache.new cap)) ops = some s ∧
      LfuCache.cache.len s ≤ cap ∧
      ∀ op, op.2.KeepsCap → ∀ s', (LfuCache.cache.step (some s) op).2 = some s' →
        ∀ gone, s.Evicts op.2 s' gone → ∀ other, other ≠ gone → s.keyToEntry.contains other = true →
          (LfuCache.tallyOf cap ops).Precedes gone other := by
  have start : (LfuCache.new cap : LfuCache κ V).Roomy :=
    ⟨Nat.zero_le _, fun _ full => absurd full (not_le.mpr positive)⟩
  obtain ⟨s, ends, roomy, same⟩ := roomy_afterRun (books_empty cap 0 Tally.start) start keeps
  refine ⟨s, ends, roomy.within.trans_eq same, fun op keeps' s' next gone evicts other apart resident => ?_⟩
  exact (books_afterRun ends).evicts keeps' next evicts apart resident

theorem lfu_evicts_unread :
    ∃ s, afterRun LfuCache.cache.step (some (LfuCache.new 2))
        [(0, .put 1 10), (0, .put 2 20), (0, .get 1)] = some s ∧
      s.Evicts (.put 3 30) (LfuCache.put 3 30 s).2 2 ∧
      Tally.Precedes (LfuCache.tallyOf 2
        [(0, .put 1 10), (0, .put 2 20), (0, .get 1)]) 2 1 := by
  obtain ⟨s, ends, _, evicts⟩ := lfu_evicts_least_used 2 (by decide)
    [(0, .put 1 10), (0, .put 2 20), (0, .get 1)]
    (by simp [Op.KeepsCap])
  cases ends
  refine ⟨_, rfl, ?evicted, evicts (0, .put 3 30) trivial _ rfl 2 ?evicted 1 (by decide)
    (by decide +kernel)⟩
  exact ⟨by decide +kernel, by decide +kernel, not_false⟩

/-! ### Which calls of `resize` do what they should -/

/-- **A `resize` as one expects it**: no more than the new capacity is left, who went comes before who stayed,
and no later call exceeds the capacity. -/
structure LfuCache.ResizedTo (s : LfuCache κ V) (t : Tally κ) (newCap : ℕ) (s' : LfuCache κ V) : Prop where
  within : LfuCache.cache.len s' ≤ newCap
  order : ∀ gone kept, s.keyToEntry.contains gone = true → s'.keyToEntry.contains gone = false →
    s'.keyToEntry.contains kept = true → t.Precedes gone kept
  later : ∀ ops : List (Instant × Op κ V), (∀ op ∈ ops, op.2.KeepsCap) →
    ∃ s'', afterRun LfuCache.cache.step (some s') ops = some s'' ∧ LfuCache.cache.len s'' ≤ newCap

def LfuCache.Settles (s : LfuCache κ V) (newCap : ℕ) : Prop :=
  (newCap = 0 ∧ s.keyToEntry.len = 0) ∨
    0 < newCap ∧ (s.keyToEntry.len < newCap + s.evictable ∨
      s.keyToEntry.len ≤ newCap ∧ ∀ key, s.keyToEntry.contains key = true)

theorem LfuCache.Drained.resizedTo (drained : s.Drained t newCap s') (roomy : s'.Roomy) :
    s.ResizedTo t newCap s' where
  within := roomy.within.trans_eq drained.cap
  order := drained.order
  later ops keeps := by
    obtain ⟨s'', ends, roomy', cap⟩ := roomy_afterRun drained.books roomy keeps
    exact ⟨s'', ends, roomy'.within.trans_eq (cap.trans drained.cap)⟩

include books

theorem LfuCache.Books.resizedTo (settles : s.Settles newCap) :
    ∃ s', LfuCache.resize newCap s = some s' ∧ s.ResizedTo t newCap s' := by
  rcases settles with ⟨rfl, empty⟩ | ⟨positive, less | ⟨fits, all⟩⟩
  · refine ⟨_, resize_idle (Or.inl rfl), (books.drained 0).resizedTo ⟨empty.le, fun positive => ?_⟩⟩
    exact absurd positive (lt_irrefl 0)
  · obtain ⟨s', ends⟩ := books.resize_returns less.le
    obtain ⟨drained, within⟩ := books.resize ends
    have count := drained.count
    refine ⟨s', ends, drained.resizedTo ⟨?_, fun _ full => Or.inl ?_⟩⟩
    · rw [drained.cap]
      exact within positive
    · rw [drained.cap] at full
      omega
  · exact ⟨_, resize_idle (Or.inr fits), (books.drained newCap).resizedTo ⟨fits, fun _ _ => Or.inr all⟩⟩

theorem LfuCache.Books.put_exceeds (takes : s.cap ≠ 0) (absent : s.keyToEntry.contains key = false)
    (nobody : s.evictable = 0) (value : V) :
    (LfuCache.put key value s).2.keyToEntry.len = s.keyToEntry.len + 1 := by
  obtain ⟨s', done, _, _, inserts⟩ := books.insertEntry takes key (.new value)
  unfold LfuCache.put
  rw [done]
  generalize (LfuCache.insertEntry key (.new value) s).1 = evicted at inserts
  cases inserts with
  | replaced present entries len evictable =>
    rw [present] at absent
    cases absent
  | added absent room entries len evictable => exact len
  | evicted oldest held absent full someone here entries len evictable first =>
    exact absurd nobody someone.ne'

theorem LfuCache.Books.all_resident (cap : s.cap = newCap)
    (later : ∀ ops : List (Instant × Op κ V), (∀ op ∈ ops, op.2.KeepsCap) → ∃ s', afterRun LfuCache.cache.step (some s) ops = some s' ∧ LfuCache.cache.len s' ≤ newCap)
    (positive : 0 < newCap) (full : s.keyToEntry.len = newCap) (nobody : s.evictable = 0) (key : κ) :
    s.keyToEntry.contains key = true := by
  by_contra absent
  obtain ⟨held, member⟩ := List.exists_mem_of_length_pos (positive.trans_eq full.symm)
  obtain ⟨pair, _⟩ := Option.isSome_iff_exists.mp ((LinkedMap.mem_keys_iff _).mp member)
  have put : (Op.put key pair.2.value : Op κ V).KeepsCap := trivial
  obtain ⟨s', ran, within⟩ := later [(0, .put key pair.2.value)]
    fun op here => by rw [List.mem_singleton.mp here]; exact put
  have exceeds := books.put_exceeds (by omega) ((Bool.not_eq_true _).mp absent) nobody pair.2.value
  cases ran
  have within' : (LfuCache.put key pair.2.value s).2.keyToEntry.len ≤ newCap := within
  omega

theorem LfuCache.Books.settles (ends : LfuCache.resize newCap s = some s')
    (resized : s.ResizedTo t newCap s') : s.Settles newCap := by
  rcases Nat.eq_zero_or_pos newCap with rfl | positive
  · rw [resize_idle (Or.inl rfl)] at ends
    cases ends
    exact Or.inl ⟨rfl, Nat.le_zero.mp resized.within⟩
  · obtain ⟨drained, within⟩ := books.resize ends
    have fits := within positive
    have count := drained.count
    refine Or.inr ⟨positive, ?_⟩
    by_cases spare : s'.keyToEntry.len < newCap ∨ 0 < s'.evictable
    · exact Or.inl (by omega)
    · have nobody : s'.evictable = 0 := by omega
      have all : ∀ key, s'.keyToEntry.contains key = true :=
        drained.books.all_resident drained.cap resized.later positive (by omega) nobody
      -- every key is resident after the call, so nobody went
      have nobodyWent : s.keyToEntry.len ≤ s'.keyToEntry.len := by
        refine (s.keyToEntry.nodup_keys.subperm fun key _ => ?_).length_le
        exact (LinkedMap.mem_keys_iff _).mpr (all key)
      refine Or.inr ⟨by omega, fun key => ?_⟩
      have resident := all key
      rw [contains_eq_entry] at resident ⊢
      obtain ⟨held, here⟩ := Option.isSome_iff_exists.mp resident
      rw [lfu_resize_below ends key held here]
      rfl

omit books

/-- **Which calls of `resize` do what they should**: those with enough keys of the frequency `min_freq`. -/
theorem lfu_resize_settles_iff {cap : ℕ} {ops : List (Instant × Op κ V)}
    (ends : afterRun LfuCache.cache.step (some (LfuCache.new cap)) ops = some s) (newCap : ℕ) :
    (∃ s', LfuCache.resize newCap s = some s' ∧ s.ResizedTo (LfuCache.tallyOf cap ops) newCap s') ↔
      s.Settles newCap := by
  have books := books_afterRun ends
  constructor
  · rintro ⟨s', returns, resized⟩
    exact books.settles returns resized
  · exact books.resizedTo

theorem lfu_resize_settles_of_two :
    ∃ s s', afterRun LfuCache.cache.step (some (LfuCache.new 2))
        [(0, .put 1 10), (0, .put 2 20)] = some s ∧ s.Settles 1 ∧
      LfuCache.resize 1 s = some s' ∧
      s.ResizedTo (LfuCache.tallyOf 2 [(0, .put 1 10), (0, .put 2 20)]) 1 s' := by
  have ends : afterRun LfuCache.cache.step (some (LfuCache.new 2))
      [(0, .put 1 10), (0, .put 2 20)] =
        some (LfuCache.put 2 20 (LfuCache.put 1 10 (LfuCache.new 2)).2).2 := rfl
  have settles : LfuCache.Settles (LfuCache.put 2 20 (LfuCache.put 1 10 (LfuCache.new 2)).2).2 1 :=
    Or.inr ⟨Nat.one_pos, Or.inl (by decide +kernel)⟩
  obtain ⟨s', returns, resized⟩ := (lfu_resize_settles_iff ends 1).mpr settles
  exact ⟨_, s', ends, settles, returns, resized⟩

theorem lfu_resize_loops :
    ∃ s, afterRun LfuCache.cache.step (some (LfuCache.new 3))
        [(0, .put 1 10), (0, .put 2 20), (0, .put 3 30),
          (0, .get 1), (0, .get 2)] = some s ∧
      ∀ n, WhileLoop.rounds (fun s : LfuCache ℕ ℕ => 0 < s.cap && s.cap < s.keyToEntry.len)
        (fun s => s.evict.2) n { s with cap := 1 } = none := by
  refine ⟨_, rfl, fun n => lfu_resize_never ?_ n⟩
  decide +kernel

/-! ### No bucket is empty -/

def LfuCache.Filled (s : LfuCache κ V) : Prop :=
  ∀ freq bucket, s.freqToKeys.get freq = some bucket → bucket.len ≠ 0

namespace LfuCache.Filled

variable (filled : s.Filled)

include filled

omit [DecidableEq κ] in
theorem insert_bucket {bucket : LinkedMap κ Unit} (some' : bucket.len ≠ 0) (freq : ℕ) :
    Filled { s with freqToKeys := s.freqToKeys.insert freq bucket } := by
  intro other found here
  rw [LinkedMap.get_insert] at here
  split_ifs at here with same
  · cases here
    exact some'
  · exact filled other found here

omit [DecidableEq κ] in
theorem erase_bucket (freq : ℕ) :
    Filled { s with freqToKeys := s.freqToKeys.erase freq } := by
  intro other found here
  rw [LinkedMap.get_erase] at here
  split_ifs at here
  exact filled other found here

theorem enterBucket (freq : ℕ) (key : κ) : (s.enterBucket freq key).Filled := by
  have member := LinkedMap.contains_of_get (LinkedMap.get_insert_self (s.bucket freq) key ())
  exact filled.insert_bucket (LinkedMap.len_pos member).ne' freq

theorem leaveBucket (entries : LinkedMap κ (ℕ × CacheEntry V)) (freq : ℕ) (key : κ) :
    (LfuCache.leaveBucket freq key { s with keyToEntry := entries }).Filled := by
  unfold LfuCache.leaveBucket
  dsimp only
  cases s.freqToKeys.get freq with
  | none => exact filled
  | some bucket =>
    dsimp only
    split_ifs with empty
    · exact filled.erase_bucket freq
    · exact filled.insert_bucket empty freq

theorem incrementFreq (entries : LinkedMap κ (ℕ × CacheEntry V)) (key : κ) :
    (LfuCache.incrementFreq key { s with keyToEntry := entries }).Filled := by
  unfold LfuCache.incrementFreq
  dsimp only
  cases entries.get key with
  | none => exact filled
  | some pair =>
    have left := filled.leaveBucket (entries.insert key (pair.1 + 1, pair.2)) pair.1 key
    exact enterBucket left (pair.1 + 1) key

theorem evict : s.evict.2.Filled := by
  unfold LfuCache.evict
  cases s.freqToKeys.get s.minFreq with
  | none => exact filled
  | some bucket =>
    rcases bucket.popFront_cases with ⟨_, popped, _⟩ | ⟨oldest, _, _, _, popped⟩
    · simp only [popped]
      exact filled
    · simp only [popped]
      split_ifs with empty
      · exact filled.erase_bucket s.minFreq
      · exact filled.insert_bucket empty s.minFreq

theorem insertEntry (key : κ) (new : CacheEntry V) :
    (LfuCache.insertEntry key new s).2.Filled := by
  unfold LfuCache.insertEntry
  split_ifs
  · exact filled
  · cases s.keyToEntry.get key with
    | some pair => exact filled.incrementFreq _ key
    | none =>
      have room : s.evictIfFull.2.Filled := by
        unfold LfuCache.evictIfFull
        split_ifs
        · exact filled.evict
        · exact filled
      exact enterBucket room 1 key

theorem get (now : Instant) (key : κ) : (LfuCache.get now key s).2.Filled := by
  unfold LfuCache.get
  cases s.keyToEntry.get key with
  | none => exact filled
  | some pair =>
    dsimp only
    split_ifs
    · exact filled.leaveBucket _ pair.1 key
    · exact filled.incrementFreq s.keyToEntry key

theorem remove (key : κ) : (LfuCache.remove key s).2.Filled := by
  unfold LfuCache.remove
  cases s.keyToEntry.get key with
  | none => exact filled
  | some pair => exact filled.leaveBucket _ pair.1 key

end LfuCache.Filled

omit [DecidableEq κ] in
theorem lfu_empty_filled (cap minFreq : ℕ) : (⟨cap, minFreq, ∅, ∅⟩ : LfuCache κ V).Filled := by
  intro freq bucket here
  simp [LinkedMap.get_empty] at here

theorem lfu_keeps_filled : (LfuCache.cache : Cache κ V (LfuCache κ V)).Keeps LfuCache.insertEntry
    LfuCache.Filled where
  put _ _ _ := rfl
  putWithTtl _ _ _ _ _ := rfl
  insert _ key new filled := filled.insertEntry key new
  get _ now key filled := filled.get now key
  remove _ key filled := filled.remove key
  clear s _ := lfu_empty_filled s.cap 0
  resize s newCap s' filled ends := by
    have start : LfuCache.Filled { s with cap := newCap } := filled
    exact (WhileLoop.rounds_invariant LfuCache.Filled (fun _ held _ => held.evict) start ends).1

/-- **The books of an `LfuCache` balance in every state of every run.** A key is in the bucket of a frequency
exactly if its entry has that frequency; no bucket is empty; and a key of the cache is in one bucket, once. -/
theorem lfu_bookkeeping (cap : ℕ) (ops : List (Instant × Op κ V)) (s : LfuCache κ V)
    (ends : afterRun LfuCache.cache.step (some (LfuCache.new cap)) ops = some s) :
    (∀ key freq, (∃ bucket, s.freqToKeys.get freq = some bucket ∧ key ∈ bucket.keys) ↔
        ∃ held, s.keyToEntry.get key = some (freq, held)) ∧
      (∀ freq bucket, s.freqToKeys.get freq = some bucket → bucket.len ≠ 0) ∧
      ∀ key ∈ s.keyToEntry.keys, ∃! freq, ∃ bucket, s.freqToKeys.get freq = some bucket ∧
        bucket.keys.count key = 1 := by
  have books := books_afterRun ends
  have filed : ∀ key freq, (∃ bucket, s.freqToKeys.get freq = some bucket ∧ key ∈ bucket.keys) ↔
      ∃ held, s.keyToEntry.get key = some (freq, held) := by
    intro key freq
    rw [← books.filed key freq, LfuCache.bucket]
    cases s.freqToKeys.get freq with
    | none => simp [LinkedMap.contains]
    | some bucket => simp [LinkedMap.mem_keys_iff]
  have once : ∀ (bucket : LinkedMap κ Unit) key, bucket.keys.count key = 1 ↔ key ∈ bucket.keys :=
    fun bucket key => ⟨fun one => List.one_le_count_iff.mp one.ge, List.count_eq_one_of_mem bucket.nodup_keys⟩
  refine ⟨filed, lfu_keeps_filled.afterRun (lfu_empty_filled cap 0) ends, fun key member => ?_⟩
  obtain ⟨⟨freq, held⟩, here⟩ := Option.isSome_iff_exists.mp ((LinkedMap.mem_keys_iff _).mp member)
  simp only [once, filed]
  refine ⟨freq, ⟨held, here⟩, fun other there => ?_⟩
  obtain ⟨held', here'⟩ := there
  rw [here] at here'
  cases here'
  rfl

def busyLfuRun : List (Instant × Op ℕ ℕ) :=
  [(0, .put 1 10), (0, .put 2 20), (0, .get 1),
    (0, .putWithTtl 3 30 (Duration.fromMillis 1)), (0, .get 3),
    (0, .put 4 40), (0, .put 5 50), (2000000, .get 3),
    (2000000, .remove 1), (2000000, .put 6 60), (2000000, .get 6),
    (2000000, .put 7 70), (2000000, .resize 2)]

theorem lfu_bookkeeping_of_busy_run :
    ∃ s, afterRun LfuCache.cache.step (some (LfuCache.new 3)) busyLfuRun = some s ∧
      s.keyToEntry.keys = [7, 6] ∧
      (∀ key freq, (∃ bucket, s.freqToKeys.get freq = some bucket ∧ key ∈ bucket.keys) ↔
        ∃ held, s.keyToEntry.get key = some (freq, held)) ∧
      (∀ freq bucket, s.freqToKeys.get freq = some bucket → bucket.len ≠ 0) ∧
      ∀ key ∈ s.keyToEntry.keys, ∃! freq, ∃ bucket, s.freqToKeys.get freq = some bucket ∧
        bucket.keys.count key = 1 := by
  have ends : ((afterRun LfuCache.cache.step (some (LfuCache.new 3)) busyLfuRun).map
      fun s => s.keyToEntry.keys) = some [7, 6] := by decide +kernel
  obtain ⟨s, run, keys⟩ := Option.map_eq_some_iff.mp ends
  exact ⟨s, run, keys, lfu_bookkeeping 3 busyLfuRun s run⟩

end

end OxiStore.Caching
