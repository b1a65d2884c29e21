/-
**The calls that panic.**
-/

import OxiStore.Cache.PutResults

namespace OxiStore.Caching

open StepProg Function

variable {κ V σ : Type}

def Cache.getOrInsert (cache : Cache κ V σ) (now later : Instant) (key : κ) (fallback : V) (s : σ) :
    Option V × σ :=
  if cache.containsKey now key s then (cache.peek later key s, s)
  else
    let s' := (cache.put key fallback s).2
    (if cache.panics now (.put key fallback) s then none else cache.peek later key s', s')

def Lapses (ledger : Ledger κ V) (now later : Instant) (key : κ) : Prop :=
  ∃ held, ledger key = some held ∧ held.isExpired now = false ∧ held.isExpired later = true

/-- **When the two calls return**: `put_with_ttl` if the clock can tell the deadline, unless it breaks off, and
`get_or_insert` unless it fails. -/
structure Cache.ReturnsIff (cache : Cache κ V σ) (now later : Instant) (key : κ) (value : V) (ttl : Duration)
    (s : σ) (breaks fails : Prop) : Prop where
  put : (cache.step (some s) (now, .putWithTtl key value ttl)).1 ≠ .panicked ↔
    now.nanos + ttl.nanos < 2 ^ 63 * 10 ^ 9 ∧ ¬ breaks
  get : (∃ found, (cache.getOrInsert now later key value s).1 = some found ∧
    cache.peek later key (cache.getOrInsert now later key value s).2 = some found) ↔ ¬ fails

theorem hidden_later {now later : Instant} (forward : now.nanos ≤ later.nanos) {found : Option (CacheEntry V)}
    (hidden : (found.any fun held => !held.isExpired now) = false) : found.bind (·.live later) = none := by
  cases found with
  | none => rfl
  | some held =>
    unfold Option.any CacheEntry.isExpired at hidden
    unfold Option.bind CacheEntry.live CacheEntry.isExpired
    cases deadline : held.expiresAt with
    | none => simp [deadline] at hidden
    | some at_last =>
      have expired : at_last.nanos ≤ now.nanos := by simpa [deadline] using hidden
      simp [deadline, expired.trans forward]

section

variable {cache : Cache κ V σ} {s : σ} {now later : Instant} {key : κ} {value : V} {ttl : Duration}

theorem putWithTtl_returns_iff {insertEntry : κ → CacheEntry V → σ → Option V × σ} {breaks : Prop}
    (put : cache.putWithTtl now key value ttl s = insertWithTtl insertEntry now key value ttl s)
    (panics : ∀ entry, CacheEntry.withTtl now value ttl = some entry →
      (cache.panics now (.putWithTtl key value ttl) s = true ↔ breaks)) :
    (cache.step (some s) (now, .putWithTtl key value ttl)).1 ≠ .panicked ↔
      now.nanos + ttl.nanos < 2 ^ 63 * 10 ^ 9 ∧ ¬ breaks := by
  unfold Cache.step
  dsimp only
  rw [put, insertWithTtl]
  by_cases fits : now.nanos + ttl.nanos < 2 ^ 63 * 10 ^ 9
  · have told : CacheEntry.withTtl now value ttl = some ⟨value, some ⟨_, fits⟩⟩ :=
      congrArg (Option.map _) (dif_pos fits)
    rw [told, ← panics _ told, and_iff_right fits]
    simp
  · have told : CacheEntry.withTtl now value ttl = none := congrArg (Option.map _) (dif_neg fits)
    rw [told]
    exact iff_of_false (fun returns => returns (ite_self _)) fun both => fits both.1

theorem live_iff_not_lapses {held : CacheEntry V} {ledger : Ledger κ V} (here : ledger key = some held)
    (fresh : held.isExpired now = false) :
    (ledger key).bind (·.live later) ≠ none ↔ ¬ Lapses ledger now later key := by
  have lapses : Lapses ledger now later key ↔ held.isExpired later = true :=
    ⟨fun ⟨_, same, _, late⟩ => by grind, fun late => ⟨held, here, fresh, late⟩⟩
  rw [lapses, here]
  unfold CacheEntry.live
  dsimp only [Option.bind_some]
  split_ifs with late
  · exact iff_of_false (fun seen => seen rfl) (fun still => still late)
  · exact iff_of_true (Option.some_ne_none _) late

theorem getOrInsert_iff (cache : Cache κ V σ) (entry : σ → Ledger κ V)
    (peek : cache.peek later key s = (entry s key).bind (·.live later))
    (peek' : cache.peek later key (cache.put key value s).2 =
      (entry (cache.put key value s).2 key).bind (·.live later))
    (contains : cache.containsKey now key s = (entry s key).any fun held => !held.isExpired now) {lost : Prop}
    (put : cache.containsKey now key s = false → (cache.panics now (.put key value) s = false ∧
      (entry (cache.put key value s).2 key).bind (·.live later) ≠ none ↔ ¬ lost)) :
    (∃ found, (cache.getOrInsert now later key value s).1 = some found ∧
        cache.peek later key (cache.getOrInsert now later key value s).2 = some found) ↔
      ¬ (Lapses (entry s) now later key ∨ cache.containsKey now key s = false ∧ lost) := by
  unfold Cache.getOrInsert
  dsimp only
  cases seen : cache.containsKey now key s with
  | true =>
    rw [seen] at contains
    obtain ⟨held, here, fresh⟩ : ∃ held, entry s key = some held ∧ held.isExpired now = false := by
      simpa [Option.any_eq_true] using contains.symm
    simp only [if_true, and_self, peek, ← Option.ne_none_iff_exists', live_iff_not_lapses here fresh]
    simp
  | false =>
    have never : ¬ Lapses (entry s) now later key := by
      rintro ⟨held, here, fresh, _⟩
      simp [seen, here, fresh] at contains
    simp only [Bool.false_eq_true, if_false, never, false_or, true_and, ← put seen, peek']
    generalize (entry (cache.put key value s).2 key).bind (·.live later) = left
    cases cache.panics now (.put key value) s <;> simp [Option.ne_none_iff_exists']

end

/-! ### The four policies -/

section

variable [DecidableEq κ]

theorem arc_insertEntry_self {s : ArcCache κ V} (apart : s.Apart) (key : κ) (new : CacheEntry V) :
    (ArcCache.insertEntry key new s).2.entry key = some new := by
  rcases insertEntry_cases apart key new with ⟨_, middle, shrinks, gone, done, _⟩ | ⟨unknown, done⟩
  · rw [done, (insert_t2 shrinks.apart gone new).2, update_self]
  · have shrinks := makeRoom_shrinks apart
    rw [done, (insert_t1 shrinks.apart (entry_none_iff.mp (shrinks.entry_none unknown.1)).2 new).2,
      update_self]

theorem lfu_insertEntry_self {s : LfuCache κ V} (takes : s.cap ≠ 0) (key : κ) (new : CacheEntry V) :
    (LfuCache.insertEntry key new s).2.entry key = some new := by
  unfold LfuCache.insertEntry
  rw [if_neg takes]
  cases s.keyToEntry.get key with
  | some pair =>
    show (LfuCache.incrementFreq key _).entry key = _
    rw [incrementFreq_entry, entry_insert, update_self]
  | none => exact (congrFun (entry_insert key 1 new _) key).trans (update_self ..)

/-- **A put that panics**: its access does, or the gate that its candidate comes to. -/
def WTinyLfuCache.PutOverruns [HashInput κ] (s : WTinyLfuCache κ V) (key : κ) : Prop :=
  s.Overruns key ∨ s.sketch.Short ∧ s.segmentIndex.get key = none ∧ s.Full ∧ s.probation.len ≠ 0

theorem tinyLfu_insertEntry_panics_iff [HashInput κ] {s : WTinyLfuCache κ V} {place : Placement κ V}
    (shown : s.Shows place) (table : s.sketch.Sized ∨ s.sketch.Short) (window : 1 ≤ s.windowCap) (key : κ)
    (new : CacheEntry V) : (WTinyLfuCache.insertEntryOrPanic key new s).1 = none ↔ s.PutOverruns key := by
  have overruns := recordAccess_overruns table key
  unfold WTinyLfuCache.PutOverruns
  cases returned : (s.recordAccess key).1 with
  | false =>
    refine iff_of_true ?_ (.inl (overruns.mp returned))
    unfold WTinyLfuCache.insertEntryOrPanic
    rw [← Prod.eta (s.recordAccess key), returned]
  | true =>
    rw [or_iff_right fun panics => Bool.noConfusion (returned.symm.trans (overruns.mpr panics))]
    cases routed : s.segmentIndex.get key with
    | none => simpa using (tinyLfu_insertEntry_new table shown window routed returned new).1
    | some seg =>
      refine iff_of_false (fun panics => ?_) fun new' => Option.some_ne_none _ new'.2.1
      unfold WTinyLfuCache.insertEntryOrPanic at panics
      rw [← Prod.eta (s.recordAccess key), returned, routed] at panics
      cases seg <;> cases panics

/-- **When the calls return**, of the four policies with any capacity, in every state that a run reaches and
at any two times, one after the other. -/
theorem calls_return_iff [HashInput κ] (cap : ℕ) (ops : List (Instant × Op κ V)) {now later : Instant}
    (forward : now.nanos ≤ later.nanos) (key : κ) (value : V) (ttl : Duration) :
    (∀ s, afterRun LruCache.cache.step (some (LruCache.new cap)) ops = some s →
      LruCache.cache.ReturnsIff now later key value ttl s False (Lapses s.map.get now later key)) ∧
    (∀ s, afterRun LfuCache.cache.step (some (LfuCache.new cap)) ops = some s →
      LfuCache.cache.ReturnsIff now later key value ttl s False
        (Lapses s.entry now later key ∨ s.containsKey now key = false ∧ s.cap = 0)) ∧
    (∀ s, afterRun ArcCache.cache.step (some (ArcCache.new cap)) ops = some s →
      ArcCache.cache.ReturnsIff now later key value ttl s False (Lapses s.entry now later key)) ∧
    (∀ s, afterRun WTinyLfuCache.cache.step (some (WTinyLfuCache.new cap)) ops = some s →
      WTinyLfuCache.cache.ReturnsIff now later key value ttl s (s.PutOverruns key)
        (Lapses s.entry now later key ∨ s.containsKey now key = false ∧ s.PutOverruns key) ∧
      (cap ≤ 2 ^ 62 → ¬ s.PutOverruns key)) := by
  -- A put that is seen right after it is lost on nobody.
  have kept : ∀ {found : Option (CacheEntry V)}, found = some (.new value) → (found.bind (·.live later) ≠ none) := by
    rintro _ rfl
    exact Option.some_ne_none _
  have never : false = true ↔ False := iff_of_false Bool.false_ne_true id
  refine ⟨fun s _ => ⟨putWithTtl_returns_iff rfl fun _ _ => never, ?_⟩,
    fun s _ => ⟨putWithTtl_returns_iff rfl fun _ _ => never, ?_⟩,
    fun s ends => ⟨putWithTtl_returns_iff rfl fun _ _ => never, ?_⟩, fun s ends => ?_⟩
  · have contains : LruCache.contains now key s = (s.map.get key).any fun held => !held.isExpired now := by
      unfold LruCache.contains
      cases s.map.get key <;> rfl
    simpa using getOrInsert_iff LruCache.cache (fun s => s.map.get) rfl rfl contains
      fun _ => iff_of_true ⟨rfl, kept (lru_insertEntry_self key (.new value) s)⟩ not_false
  · have contains : LfuCache.containsKey now key s = (s.entry key).any fun held => !held.isExpired now := by
      rw [LfuCache.entry, Option.any_map]
      rfl
    refine getOrInsert_iff _ LfuCache.entry (lfu_peek_eq later key s) (lfu_peek_eq later key _) contains
      fun hidden => ?_
    by_cases refused : s.cap = 0
    · have same : LfuCache.put key value s = (some value, s) := if_pos refused
      have gone := hidden_later forward (contains.symm.trans hidden)
      rw [show (LfuCache.cache.put key value s).2 = s from congrArg Prod.snd same, gone]
      exact iff_of_false (fun seen => seen.2 rfl) (fun takes => takes refused)
    · exact iff_of_true ⟨rfl, kept (lfu_insertEntry_self refused key (.new value))⟩ refused
  · have apart : s.Apart := arc_lawful.keeps.afterRun (arc_empty_apart 0 _) ends
    simpa using getOrInsert_iff ArcCache.cache ArcCache.entry (arc_peek_eq apart later key)
      (arc_peek_eq (insertEntry_law apart key (.new value)).1 later key) (arc_containsKey_eq apart now key)
      fun _ => iff_of_true ⟨rfl, kept (arc_insertEntry_self apart key (.new value))⟩ not_false
  · obtain ⟨place, shown⟩ := tinyLfu_lawful.keeps.afterRun ⟨_, empty_shows _ rfl rfl rfl rfl⟩ ends
    have window := (tinyLfu_keeps_proportioned.afterRun (new_proportioned cap) ends).windowCap_pos
    obtain ⟨table, whole⟩ := table_afterRun ends
    have panics (new : CacheEntry V) := tinyLfu_insertEntry_panics_iff shown table window key new
    refine ⟨⟨putWithTtl_returns_iff rfl fun entry told => ?_, ?_⟩, fun fits => ?_⟩
    · show ((CacheEntry.withTtl now value ttl).any _ = true ↔ _)
      rw [told, ← panics entry]
      exact Option.isNone_iff_eq_none
    · refine getOrInsert_iff WTinyLfuCache.cache WTinyLfuCache.entry rfl rfl rfl fun _ => ?_
      rw [← panics (.new value)]
      refine ⟨fun returns none' => ?_, fun returns => ⟨?_, kept ?_⟩⟩
      · exact Bool.noConfusion (returns.1.symm.trans (Option.isNone_iff_eq_none.mpr none'))
      · exact Bool.not_eq_true _ ▸ fun none' => returns (Option.isNone_iff_eq_none.mp none')
      · have recorded : (s.recordAccess key).1 = true := by
          rw [← Bool.not_eq_false]
          exact fun overruns => returns ((panics _).mpr (.inl ((recordAccess_overruns table key).mp overruns)))
        obtain ⟨_, entries⟩ | ⟨_, _, _, _, _, entries⟩ :=
          tinyLfu_insertEntry_spec table shown window key recorded (.new value)
        all_goals exact (congrFun entries key).trans (update_self ..)
    · rintro (⟨short, _⟩ | ⟨short, _⟩)
      all_goals exact (whole fits).not_short short

theorem calls_return_of_lru : ∃ s, afterRun LruCache.cache.step (some (LruCache.new 2 : LruCache ℕ ℕ))
      [(0, .putWithTtl 1 10 5)] = some s ∧
    LruCache.cache.ReturnsIff 1 2 1 20 5 s False
      (Lapses s.map.get 1 2 1) :=
  ⟨_, rfl, (calls_return_iff 2 [(0, .putWithTtl 1 10 5)] (by decide) 1 20 _).1 _
    rfl⟩

theorem calls_panic :
    LruCache.cache.putWithTtl 0 1 10 .max
      (LruCache.new 2 : LruCache ℕ ℕ) = none ∧
    (LfuCache.cache.getOrInsert 0 0 1 10 (LfuCache.new 0 : LfuCache ℕ ℕ)).1 = none ∧
    (∃ s, afterRun LruCache.cache.step (some (LruCache.new 2 : LruCache ℕ ℕ))
        [(0, .putWithTtl 1 10 3)] = some s ∧
      (LruCache.cache.getOrInsert 2 3 1 20 s).1 = none) ∧
    (WTinyLfuCache.cache.step (some (WTinyLfuCache.put 1 10
        (WTinyLfuCache.new (2 ^ 64 - 1) : WTinyLfuCache ℕ ℕ)).2)
      (0, .putWithTtl 1 20 3)).1 = .panicked :=
  ⟨by decide +kernel, by decide +kernel, ⟨_, rfl, by decide +kernel⟩, by decide +kernel⟩

end

end OxiStore.Caching
