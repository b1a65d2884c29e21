/-
**What `put` gives back.**
-/

import OxiStore.Cache.Lru
import OxiStore.Cache.Arc
import OxiStore.Cache.LfuOrder
import OxiStore.Cache.Promotion

namespace OxiStore.Caching

open StepProg Function LinkedMap

variable {κ V σ : Type}

/-! ### The documented result -/

def Left (before after : κ → Option V) (key : κ) : Prop := before key ≠ none ∧ after key = none

def Documented (before after : κ → Option V) (key : κ) (result : Option V) : Prop :=
  (before key ≠ none → result = none ∧ ∀ other, ¬ Left before after other) ∧
    (before key = none →
      (∀ value, result = some value ↔ ∃ other, before other = some value ∧ after other = none) ∧
      ∀ first second, Left before after first → Left before after second → first = second)

def Cache.PutAsDocumented (cache : Cache κ V σ) (now : Instant) (s : σ) (key : κ) (value : V) : Prop :=
  Documented (fun other => cache.peek now other s)
    (fun other => cache.peek now other (cache.put key value s).2) key (cache.put key value s).1

/-- **A state that a run reaches, without times to live, of a cache with room for two.** -/
structure Cache.ReachedFree (cache : Cache κ V σ) (entry : σ → Ledger κ V) (start : σ)
    (ops : List (Instant × Op κ V)) (s : σ) : Prop where
  reached : afterRun cache.step (some start) ops = some s
  free : TtlFree (entry s)
  capacity : 2 ≤ cache.cap s

section

variable {before after : Ledger κ V} {key : κ}

theorem left_iff :
    Left (valuesOf before) (valuesOf after) key ↔ before key ≠ none ∧ after key = none := by
  unfold Left
  rw [ne_eq, valuesOf_eq_none, valuesOf_eq_none]

variable [DecidableEq κ]

theorem documented_of_nobody {new : CacheEntry V} {result : Option V}
    (entries : after = update before key (some new)) :
    Documented (valuesOf before) (valuesOf after) key result ↔ result = none := by
  have nobody : ∀ other, ¬ Left (valuesOf before) (valuesOf after) other := by
    intro other left
    obtain ⟨was, gone⟩ := left_iff.mp left
    rw [entries] at gone
    by_cases own : other = key
    · simp [own, update_self] at gone
    · rw [update_of_ne own] at gone
      exact was gone
  have nothing : ∀ value, ¬ ∃ other, valuesOf before other = some value ∧ valuesOf after other = none := by
    rintro value ⟨other, was, gone⟩
    exact nobody other ⟨by rw [was]; exact Option.some_ne_none value, gone⟩
  constructor
  · rintro ⟨present, absent⟩
    by_cases was : valuesOf before key = none
    · cases given : result with
      | none => rfl
      | some value => exact absurd (((absent was).1 value).mp given) (nothing value)
    · exact (present was).1
  · rintro rfl
    refine ⟨fun _ => ⟨rfl, nobody⟩,
      fun _ => ⟨fun value => ?_, fun first _ left => absurd left (nobody first)⟩⟩
    exact iff_of_false (Option.some_ne_none value).symm (nothing value)

theorem documented_of_one {gone : κ} {held new : CacheEntry V} {result : Option V}
    (absent : before key = none) (here : before gone = some held)
    (entries : after = update (update before gone none) key (some new)) :
    Documented (valuesOf before) (valuesOf after) key result ↔ result = some held.value := by
  have apart : gone ≠ key := by
    rintro rfl
    simp [absent] at here
  have away : valuesOf after gone = none := by
    rw [valuesOf_eq_none, entries, update_of_ne apart, update_self]
  have value : valuesOf before gone = some held.value := by rw [valuesOf, here]; rfl
  have only : ∀ other, Left (valuesOf before) (valuesOf after) other → other = gone := by
    intro other left
    obtain ⟨was, left'⟩ := left_iff.mp left
    by_contra different
    by_cases own : other = key
    · rw [own, absent] at was
      exact was rfl
    · rw [entries, update_of_ne own, update_of_ne different] at left'
      exact was left'
  have new' : valuesOf before key = none := valuesOf_eq_none.mpr absent
  constructor
  · rintro ⟨_, documented⟩
    exact ((documented new').1 held.value).mpr ⟨gone, value, away⟩
  · rintro rfl
    refine ⟨fun present => absurd new' present, fun _ => ⟨fun found => ⟨fun same => ?_, ?_⟩, ?_⟩⟩
    · exact ⟨gone, value.trans same, away⟩
    · rintro ⟨other, was, left⟩
      have own := only other ⟨by rw [was]; exact Option.some_ne_none found, left⟩
      rw [own, value] at was
      exact was
    · intro first second left left'
      rw [only first left, only second left']

theorem putAsDocumented_iff {cache : Cache κ V σ} (entry : σ → Ledger κ V) {now : Instant} {s : σ}
    {value : V} (free : TtlFree (entry s))
    (below : Below (entry (cache.put key value s).2) (update (entry s) key (some (.new value))))
    (peek : ∀ other, cache.peek now other s = (entry s other).bind (·.live now))
    (peek' : ∀ other, cache.peek now other (cache.put key value s).2 =
      (entry (cache.put key value s).2 other).bind (·.live now)) :
    cache.PutAsDocumented now s key value ↔
      Documented (valuesOf (entry s)) (valuesOf (entry (cache.put key value s).2)) key
        (cache.put key value s).1 := by
  have seen : (fun other => cache.peek now other s) = valuesOf (entry s) := by
    funext other
    rw [peek, free.live]
  have seen' : (fun other => cache.peek now other (cache.put key value s).2) =
      valuesOf (entry (cache.put key value s).2) := by
    funext other
    rw [peek', ((free.update key value).below below).live]
  unfold Cache.PutAsDocumented
  rw [seen, seen']

end

/-! ### Who leaves -/

section

variable [DecidableEq κ]

theorem lru_insertEntry_spec (key : κ) (new : CacheEntry V) (s : LruCache κ V) :
    ((LruCache.insertEntry key new s).1 = none ∧
      (LruCache.insertEntry key new s).2.map.get = update s.map.get key (some new)) ∨
    ∃ gone held, s.map.get key = none ∧ s.map.get gone = some held ∧
      (LruCache.insertEntry key new s).1 = some held.value ∧
      (LruCache.insertEntry key new s).2.map.get =
        update (update s.map.get gone none) key (some new) := by
  unfold LruCache.insertEntry
  split_ifs with present full
  · exact Or.inl ⟨rfl, get_insert_eq_update _ key new⟩
  · rcases s.map.popFront_cases with ⟨_, _, empty⟩ | ⟨gone, held, _, here, popped⟩
    · omega
    · refine Or.inr ⟨gone, held, ?_, here, by rw [popped]; rfl, ?_⟩
      · unfold contains at present
        exact Option.not_isSome_iff_eq_none.mp present
      · rw [popped, get_insert_eq_update, get_erase_eq_update]
  · exact Or.inl ⟨rfl, get_insert_eq_update _ key new⟩

/-- **A key for which nobody leaves an `ArcCache`**: there is room, or the cache is crowded and does not know
the key. -/
def ArcCache.Spares (s : ArcCache κ V) (key : κ) : Prop := s.len < s.cap ∨ s.Unknown key ∧ s.Crowded

variable {s : ArcCache κ V}

theorem replace_evicts (apart : s.Apart) (some' : s.len ≠ 0) :
    ∃ gone held, s.Evicts gone held s.replace := by
  rcases replace_cases apart with ⟨empty, _, _⟩ | ⟨gone, held, _, evicts⟩
  · exact absurd empty some'
  · exact ⟨gone, held, evicts⟩

theorem replaceIfFull_cases (apart : s.Apart) (positive : 1 ≤ s.cap) :
    (s.len < s.cap ∧ s.replaceIfFull = s) ∨
      s.cap ≤ s.len ∧ ∃ gone held, s.Evicts gone held s.replaceIfFull := by
  unfold ArcCache.replaceIfFull
  split_ifs with full
  · exact Or.inr ⟨full, replace_evicts apart (by omega)⟩
  · exact Or.inl ⟨not_le.mp full, rfl⟩

theorem makeRoom_spec (apart : s.Apart) (positive : 1 ≤ s.cap) :
    ((s.len < s.cap ∨ s.Crowded) ∧ s.makeRoom.Apart ∧ s.makeRoom.entry = s.entry) ∨
      ¬ (s.len < s.cap ∨ s.Crowded) ∧ ∃ gone held, s.Evicts gone held s.makeRoom := by
  have evicted : ∀ b1 b2 : LinkedMap κ Unit, ¬ s.len < s.cap →
      ∃ gone held, s.Evicts gone held (ArcCache.replace { s with b1 := b1, b2 := b2 }) := by
    intro b1 b2 full
    have some' : s.len ≠ 0 := by omega
    obtain ⟨gone, held, evicts⟩ := replace_evicts (apart.shrinks b1 b2 s.p).apart some'
    exact ⟨gone, held, evicts.held, evicts.entries, evicts.apart, evicts.len, evicts.cap, evicts.p⟩
  unfold ArcCache.makeRoom ArcCache.Crowded
  split_ifs with room full ghosts balance recent full ghosts ghosts'
  · exact Or.inl ⟨Or.inl room, apart, rfl⟩
  · exact Or.inl ⟨Or.inl room, apart, rfl⟩
  · exact Or.inl ⟨Or.inl room, apart, rfl⟩
  · exact Or.inr ⟨by omega, evicted s.b1 s.b2 room⟩
  · exact Or.inl ⟨Or.inr ⟨not_lt.mp room, by omega, by omega⟩, apart, rfl⟩
  · exact Or.inr ⟨by omega, evicted s.b1 _ room⟩
  · exact Or.inr ⟨by omega, evicted _ s.b2 room⟩
  · exact Or.inr ⟨by omega, evicted s.b1 s.b2 room⟩
  · exact Or.inr ⟨by omega, evicted s.b1 s.b2 room⟩

theorem arc_insertEntry_spec (apart : s.Apart) (positive : 1 ≤ s.cap) (key : κ) (new : CacheEntry V) :
    (∃ old, s.entry key = some old ∧ (ArcCache.insertEntry key new s).1 = some old.value ∧
      (ArcCache.insertEntry key new s).2.entry = update s.entry key (some new)) ∨
    (s.entry key = none ∧ (ArcCache.insertEntry key new s).1 = none ∧ s.Spares key ∧
      (ArcCache.insertEntry key new s).2.entry = update s.entry key (some new)) ∨
    ∃ gone held, s.entry key = none ∧ (ArcCache.insertEntry key new s).1 = none ∧ ¬ s.Spares key ∧
      s.entry gone = some held ∧ (ArcCache.insertEntry key new s).2.entry =
        update (update s.entry gone none) key (some new) := by
  have ghost : ∀ (b1 b2 : LinkedMap κ Unit) (p : ℕ), s.entry key = none → ¬ s.Unknown key →
      (s.Spares key ∧ ArcCache.entry { ArcCache.replaceIfFull { s with b1 := b1, b2 := b2, p := p } with
        t2 := (ArcCache.replaceIfFull { s with b1 := b1, b2 := b2, p := p }).t2.insert key new } =
          update s.entry key (some new)) ∨
      ∃ gone held, ¬ s.Spares key ∧ s.entry gone = some held ∧
        ArcCache.entry { ArcCache.replaceIfFull { s with b1 := b1, b2 := b2, p := p } with
          t2 := (ArcCache.replaceIfFull { s with b1 := b1, b2 := b2, p := p }).t2.insert key new } =
            update (update s.entry gone none) key (some new) := by
    intro b1 b2 p absent known
    obtain ⟨shrinks, away, _⟩ := replaceIfFull_ghost apart absent b1 b2 p
    have entries := (insert_t2 shrinks.apart away new).2
    rcases replaceIfFull_cases (apart.shrinks b1 b2 p).apart positive with ⟨room, same⟩ |
      ⟨full, gone, held, evicts⟩
    · refine Or.inl ⟨Or.inl room, entries.trans ?_⟩
      rw [same]
      rfl
    · refine Or.inr ⟨gone, held, ?_, evicts.held, entries.trans ?_⟩
      · rintro (room | ⟨unknown, _⟩)
        · exact absurd room (not_lt.mpr full)
        · exact known unknown
      · rw [evicts.entries]
        rfl
  unfold ArcCache.insertEntry
  cases recent : s.t1.get key with
  | some old =>
    have evicts := evicts_t1 apart recent s.b1
    refine Or.inl ⟨old, evicts.held, rfl, ?_⟩
    refine (insert_t2 evicts.apart (get_erase_self _ key) new).2.trans ?_
    rw [evicts.entries, update_idem]
  | none =>
    cases frequent : s.t2.get key with
    | some old =>
      refine Or.inl ⟨old, ?_, rfl, (insert_t2 apart recent new).2⟩
      rw [ArcCache.entry, recent, frequent]
      rfl
    | none =>
      have absent : s.entry key = none := entry_none_iff.mpr ⟨recent, frequent⟩
      dsimp only
      split_ifs with first second
      · rcases ghost (s.b1.erase key) s.b2
          (min (s.p + max (s.b2.len / max (s.b1.erase key).len 1) 1) s.cap) absent
          (fun unknown => Bool.noConfusion (first.symm.trans unknown.2.1)) with
          ⟨spares, entries⟩ | ⟨gone, held, full, here, entries⟩
        · exact Or.inr (Or.inl ⟨absent, rfl, spares, entries⟩)
        · exact Or.inr (Or.inr ⟨gone, held, absent, rfl, full, here, entries⟩)
      · rcases ghost s.b1 (s.b2.erase key) (s.p - max (s.b1.len / max (s.b2.erase key).len 1) 1) absent
          (fun unknown => Bool.noConfusion (second.symm.trans unknown.2.2)) with
          ⟨spares, entries⟩ | ⟨gone, held, full, here, entries⟩
        · exact Or.inr (Or.inl ⟨absent, rfl, spares, entries⟩)
        · exact Or.inr (Or.inr ⟨gone, held, absent, rfl, full, here, entries⟩)
      · have unknown : s.Unknown key :=
          ⟨absent, (Bool.not_eq_true _).mp first, (Bool.not_eq_true _).mp second⟩
        have away := (entry_none_iff.mp ((makeRoom_shrinks apart).entry_none absent)).2
        rcases makeRoom_spec apart positive with ⟨spares, apart', entries⟩ | ⟨full, gone, held, evicts⟩
        · refine Or.inr (Or.inl ⟨absent, rfl, spares.imp id fun crowded => ⟨unknown, crowded⟩, ?_⟩)
          rw [(insert_t1 apart' away new).2, entries]
        · refine Or.inr (Or.inr ⟨gone, held, absent, rfl, fun spares => full ?_, evicts.held, ?_⟩)
          · exact spares.imp id And.right
          · rw [(insert_t1 evicts.apart away new).2, evicts.entries]

def WTinyLfuCache.Full (s : WTinyLfuCache κ V) : Prop :=
  s.windowCap ≤ s.window.len ∧ s.mainCap ≤ s.probation.len + s.protectedSeg.len

theorem popSegment_front (s : WTinyLfuCache κ V) (seg : CacheSegment) :
    (s.popSegment seg).1 = (s.segment seg).front := by
  unfold WTinyLfuCache.popSegment
  rcases (s.segment seg).popFront_cases with ⟨front, popped, _⟩ | ⟨oldest, held, front, _, popped⟩
  all_goals rw [popped, front]

variable {s : WTinyLfuCache κ V} {place : Placement κ V}

theorem runAdmissionGate_spec [HashInput κ] {candidate : κ} (shown : s.Shows place)
    (absent : place candidate = none) (held : CacheEntry V) :
    (s.probation.len + s.protectedSeg.len < s.mainCap ∧
      (s.runAdmissionGate candidate held).2.Holds (update place.entries candidate (some held))) ∨
    (s.mainCap ≤ s.probation.len + s.protectedSeg.len ∧
      ((s.runAdmissionGate candidate held).2.Holds place.entries ∨
        ∃ victim held', place victim = some (.probation, held') ∧
          (s.runAdmissionGate candidate held).2.Holds
            (update (update place.entries victim none) candidate (some held)))) := by
  have wins : ∀ s' : WTinyLfuCache κ V, s'.Shows place → ∀ victim, s'.probation.front = some victim →
      ∃ victim held', place victim = some (.probation, held') ∧
        ((s'.popSegment .probation).2.admitCandidate candidate held).Holds
          (update (update place.entries victim none) candidate (some held)) := by
    intro s' shown' victim front
    rcases popSegment_cases shown' .probation with popped | ⟨oldest, held', after, there, popped, shown''⟩
    · have missing := popSegment_front s' .probation
      rw [popped] at missing
      exact absurd (missing.trans front) (Option.some_ne_none victim).symm
    · have still : update place oldest none candidate = none := by
        by_cases own : candidate = oldest
        · rw [own, update_self]
        · rw [update_of_ne own, absent]
      rw [popped]
      refine ⟨oldest, held', there, _, shown''.add still .probation held, ?_⟩
      rw [entries_update, entries_update]
      rfl
  unfold WTinyLfuCache.runAdmissionGate
  by_cases room : s.probation.len + s.protectedSeg.len < s.mainCap
  · rw [if_pos room]
    exact Or.inl ⟨room, _, shown.add absent .probation held, entries_update place candidate _⟩
  · rw [if_neg room]
    refine Or.inr ⟨not_lt.mp room, ?_⟩
    cases front : s.probation.front with
    | none => exact Or.inl ⟨place, shown, rfl⟩
    | some victim =>
      -- the state of the generator is not in the picture
      have thrown : WTinyLfuCache.Shows { s with rng := xorshift64 s.rng } place :=
        shown.of_same rfl rfl rfl rfl
      dsimp only
      split
      · split_ifs with more tie low
        · exact Or.inr (wins s shown victim front)
        · exact Or.inr (wins _ thrown victim front)
        · exact Or.inl ⟨place, thrown, rfl⟩
        · exact Or.inl ⟨place, shown, rfl⟩
      · exact Or.inl ⟨place, shown, rfl⟩

variable (table : s.sketch.Sized ∨ s.sketch.Short)

include table in
theorem runAdmissionGate_panics_iff [HashInput κ] (candidate : κ) (held : CacheEntry V) :
    (s.runAdmissionGate candidate held).1 = false ↔
      s.sketch.Short ∧ s.mainCap ≤ s.probation.len + s.protectedSeg.len ∧ s.probation.len ≠ 0 := by
  unfold WTinyLfuCache.runAdmissionGate
  split_ifs with room
  · exact iff_of_false id fun panics => absurd room (not_lt.mpr panics.2.1)
  · rcases s.probation.popFront_cases with ⟨front, _, empty⟩ | ⟨oldest, held', front, here, _⟩
    · rw [front]
      exact iff_of_false Bool.true_eq_false.mp fun panics => panics.2.2 empty
    · have someone : s.probation.len ≠ 0 := (len_pos (contains_of_get here)).ne'
      rw [front]
      unfold WTinyLfuCache.freq
      rcases table with sized | short
      · obtain ⟨first, look⟩ := sized.estimate (keyBytes candidate)
        obtain ⟨second, look'⟩ := sized.estimate (keyBytes oldest)
        dsimp only
        rw [look, look']
        refine iff_of_false (fun panics => ?_) fun panics => sized.not_short panics.1
        dsimp only at panics
        split_ifs at panics
      · dsimp only
        rw [(short.panics _).2]
        exact iff_of_true rfl ⟨short, not_lt.mp room, someone⟩

variable {held : CacheEntry V}

theorem pushed_window_oldest {window : LinkedMap κ (CacheEntry V)} {key oldest : κ} {new : CacheEntry V}
    (absent : window.get key = none) (some' : 1 ≤ window.len)
    (front : (window.insert key new).front = some (oldest, held)) : oldest ≠ key := by
  have same := erase_of_absent (contains_of_get_none absent)
  rw [front_insert, same, if_neg (by omega)] at front
  rintro rfl
  simp [get_of_front front] at absent

theorem WTinyLfuCache.Holds.entry {entries : Ledger κ V} (holds : s.Holds entries) :
    s.entry = entries := by
  obtain ⟨place, shown, same⟩ := holds
  rw [shown.entry, same]

theorem tinyLfu_insertEntry_pushes [HashInput κ] {key : κ} (shown : s.Shows place)
    (absent : s.segmentIndex.get key = none) (returns : (s.recordAccess key).1 = true) (new : CacheEntry V) :
    ∃ pushed : WTinyLfuCache κ V, pushed.Shows (update place key (some (.window, new))) ∧
      pushed.window = s.window.insert key new ∧ pushed.probation = s.probation ∧
      pushed.protectedSeg = s.protectedSeg ∧ pushed.windowCap = s.windowCap ∧ pushed.mainCap = s.mainCap ∧
      s.sketch.SameTable pushed.sketch ∧
      (∀ after, pushed.evictFromWindowIfOverCap = (none, after) →
        WTinyLfuCache.insertEntryOrPanic key new s = (some none, after)) ∧
      ∀ candidate held after, pushed.evictFromWindowIfOverCap = (some (candidate, held), after) →
        WTinyLfuCache.insertEntryOrPanic key new s =
          (if (after.runAdmissionGate candidate held).1 then some none else none,
            (after.runAdmissionGate candidate held).2) := by
  obtain ⟨_, sketch, doorkeeper, access, whole, short⟩ := recordAccess_cases s key
  rw [access] at returns
  cases returns
  have recorded : WTinyLfuCache.Shows { s with sketch := sketch, doorkeeper := doorkeeper } place :=
    shown.of_same rfl rfl rfl rfl
  refine ⟨_, recorded.add (shown.place_none absent) .window new, rfl, rfl, rfl, rfl, rfl,
    ⟨fun sized => (whole sized).1, fun less => (short less).1⟩, fun after evicted => ?_,
    fun candidate held after evicted => ?_⟩
  all_goals
    unfold WTinyLfuCache.insertEntryOrPanic
    simp only [absent, access]
    rw [evicted]

theorem popSegment_window {oldest : κ} (front : s.window.front = some (oldest, held)) :
    ∃ after : WTinyLfuCache κ V,
      s.popSegment .window = (some (oldest, held), after) ∧
      (∀ place, s.Shows place → after.Shows (update place oldest none)) ∧
      after.probation = s.probation ∧ after.protectedSeg = s.protectedSeg ∧ after.mainCap = s.mainCap ∧
      after.sketch = s.sketch := by
  refine ⟨(s.dropFrom .window oldest).unroute oldest, ?_, fun place shown => ?_, rfl, rfl, rfl, rfl⟩
  · unfold WTinyLfuCache.popSegment popFront
    rw [show (s.segment .window).front = _ from front]
  · exact shown.delete (shown.place_of_get
      (show (s.segment .window).get oldest = some held from get_of_front front))

theorem update_back {ledger : Ledger κ V} {candidate victim : κ} (other : victim ≠ candidate)
    (here : ledger candidate = some held) :
    update (update (update ledger candidate none) victim none) candidate
      (some held) = update ledger victim none := by
  have same : update ledger candidate (some held) = ledger :=
    update_eq_self_iff.mpr here.symm
  rw [update_comm other, update_idem, same]

theorem tinyLfu_insertEntry_gives [HashInput κ] (key : κ) (new : CacheEntry V) :
    (WTinyLfuCache.insertEntry key new s).1 = none := by
  unfold WTinyLfuCache.insertEntry WTinyLfuCache.insertEntryOrPanic
  rcases s.recordAccess key with ⟨_ | _, after⟩
  · rfl
  · rcases s.segmentIndex.get key with _ | seg
    · dsimp only
      split
      · rfl
      · dsimp only
        split_ifs <;> rfl
    · cases seg <;> rfl

include table

theorem tinyLfu_insertEntry_new [HashInput κ] {key : κ} (shown : s.Shows place) (window : 1 ≤ s.windowCap)
    (absent : s.segmentIndex.get key = none) (returns : (s.recordAccess key).1 = true) (new : CacheEntry V) :
    ((WTinyLfuCache.insertEntryOrPanic key new s).1 = none ↔ s.sketch.Short ∧ s.Full ∧ s.probation.len ≠ 0) ∧
      ((¬ s.Full ∧ (WTinyLfuCache.insertEntry key new s).2.Holds
        (update place.entries key (some new))) ∨
      (s.Full ∧ ∃ gone held, gone ≠ key ∧ place.entries gone = some held ∧
        (WTinyLfuCache.insertEntry key new s).2.Holds
          (update (update place.entries key (some new)) gone none))) := by
  obtain ⟨pushed, added, window', probation', protectedSeg', cap', mainCap', same, stays, gated⟩ :=
    tinyLfu_insertEntry_pushes shown absent returns new
  have nowhere := shown.place_none absent
  have outside : s.window.get key = none := by
    have held := shown.held .window key
    rw [nowhere] at held
    exact held
  have entries : Placement.entries (update place key (some (.window, new))) =
      update place.entries key (some new) := entries_update place key _
  have longer : pushed.window.len = s.window.len + 1 := by
    rw [window', len_insert, contains_of_get_none outside]
    rfl
  by_cases crowded : s.windowCap ≤ s.window.len
  · have evicts : pushed.evictFromWindowIfOverCap = pushed.popSegment .window := if_pos (by omega)
    rcases pushed.window.popFront_cases with ⟨_, _, empty⟩ | ⟨candidate, held, front, here, _⟩
    · omega
    · obtain ⟨after, popped, without, probation'', protectedSeg'', mainCap'', sketch''⟩ := popSegment_window front
      have apart : candidate ≠ key := by
        rw [window'] at front
        exact pushed_window_oldest outside (by omega) front
      have there : update place key (some (.window, new)) candidate = some (.window, held) :=
        added.place_of_get (show (pushed.segment .window).get candidate = some held from here)
      have was : place.entries candidate = some held := by
        rw [update_of_ne apart] at there
        rw [Placement.entries, there]
        rfl
      have back : update place.entries key (some new) candidate = some held := by
        rw [update_of_ne apart, was]
      have gate := runAdmissionGate_spec (without _ added) (update_self ..) held
      rw [entries_update, entries, Option.map_none, update_idem,
        update_eq_self_iff.mpr back.symm, probation'', protectedSeg'', mainCap'', probation',
        protectedSeg', mainCap'] at gate
      have panics := runAdmissionGate_panics_iff (s := after)
        (sketch'' ▸ table.imp same.sized same.short) candidate held
      rw [probation'', protectedSeg'', mainCap'', probation', protectedSeg', mainCap', sketch''] at panics
      unfold WTinyLfuCache.insertEntry
      rw [gated candidate held _ (evicts.trans popped)]
      refine ⟨?_, ?_⟩
      · have short : pushed.sketch.Short ↔ s.sketch.Short :=
          ⟨fun less => table.resolve_left fun sized => (same.sized sized).not_short less, same.short⟩
        rw [short] at panics
        unfold WTinyLfuCache.Full
        rw [and_iff_right crowded, ← panics]
        cases (after.runAdmissionGate candidate held).1 <;> simp
      rcases gate with ⟨room, holds⟩ | ⟨full, holds | ⟨victim, held', probation, holds⟩⟩
      · exact Or.inl ⟨fun full => absurd room (not_lt.mpr full.2), holds⟩
      · exact Or.inr ⟨⟨crowded, full⟩, candidate, held, apart, was, holds⟩
      · have other : victim ≠ candidate := by
          rintro rfl
          simp [update_self] at probation
        rw [update_of_ne other] at probation
        have apart' : victim ≠ key := by
          rintro rfl
          simp [update_self] at probation
        rw [update_of_ne apart'] at probation
        rw [update_back other back] at holds
        refine Or.inr ⟨⟨crowded, full⟩, victim, held', apart', ?_, holds⟩
        rw [Placement.entries, probation]
        rfl
  · have none' : pushed.evictFromWindowIfOverCap = (none, pushed) := if_neg (by omega)
    unfold WTinyLfuCache.insertEntry
    rw [stays _ none']
    exact ⟨iff_of_false (Option.some_ne_none _) fun panics => crowded panics.2.1.1,
      Or.inl ⟨fun full => crowded full.1, _, added, entries⟩⟩

theorem tinyLfu_insertEntry_spec [HashInput κ] (shown : s.Shows place) (window : 1 ≤ s.windowCap) (key : κ)
    (returns : (s.recordAccess key).1 = true) (new : CacheEntry V) :
    (¬ (s.entry key = none ∧ s.Full) ∧
      (WTinyLfuCache.insertEntry key new s).2.entry = update s.entry key (some new)) ∨
    ∃ gone held, s.entry key = none ∧ s.Full ∧ s.entry gone = some held ∧
      (WTinyLfuCache.insertEntry key new s).2.entry =
        update (update s.entry gone none) key (some new) := by
  cases routed : s.segmentIndex.get key with
  | none =>
    obtain ⟨_, holds⟩ := tinyLfu_insertEntry_new table shown window routed returns new
    rw [← shown.entry] at holds
    rcases holds with ⟨room, holds⟩ | ⟨full, gone, held, apart, here, holds⟩
    · exact Or.inl ⟨fun both => room both.2, holds.entry⟩
    · refine Or.inr ⟨gone, held, ?_, full, here, ?_⟩
      · rw [shown.entry, Placement.entries, shown.place_none routed]
        rfl
      · rw [holds.entry, update_comm apart]
  | some seg =>
    obtain ⟨held, there⟩ := shown.place_of_index routed
    have present : s.entry key = some held := by
      rw [shown.entry, Placement.entries, there]
      rfl
    obtain ⟨_, sketch, doorkeeper, access, _⟩ := recordAccess_cases s key
    rw [access] at returns
    cases returns
    have recorded : WTinyLfuCache.Shows { s with sketch := sketch, doorkeeper := doorkeeper } place :=
      shown.of_same rfl rfl rfl rfl
    have assigned := assign_shows recorded there new
    have entries : Placement.entries (update place key (some (seg, new))) =
        update s.entry key (some new) := by
      rw [shown.entry]
      exact entries_update place key _
    have known : ¬ (s.entry key = none ∧ s.Full) := by
      rintro ⟨absent, _⟩
      simp [present] at absent
    unfold WTinyLfuCache.insertEntry WTinyLfuCache.insertEntryOrPanic
    rw [routed, access]
    cases seg with
    | window => exact Or.inl ⟨known, (promoteIn_shows assigned .window key).entry.trans entries⟩
    | protectedSeg => exact Or.inl ⟨known, (promoteIn_shows assigned .protectedSeg key).entry.trans entries⟩
    | probation => exact Or.inl ⟨known, (promoteProbationToProtected_holds assigned key).entry.trans entries⟩

end

/-! ### The four policies -/

section

variable [DecidableEq κ]

theorem lru_putAsDocumented {s : LruCache κ V} (free : TtlFree s.map.get) (now : Instant) (key : κ)
    (value : V) : LruCache.cache.PutAsDocumented now s key value := by
  refine (putAsDocumented_iff (fun s : LruCache κ V => s.map.get) free
    (lru_insertEntry_below key (.new value) s) (fun _ => rfl) (fun _ => rfl)).mpr ?_
  rcases lru_insertEntry_spec key (.new value) s with ⟨given, entries⟩ |
    ⟨gone, held, absent, here, given, entries⟩
  · exact (documented_of_nobody entries).mpr given
  · exact (documented_of_one absent here entries).mpr given

theorem lfu_putAsDocumented {s : LfuCache κ V} {t : Tally κ} (books : s.Books t) (takes : s.cap ≠ 0)
    (free : TtlFree s.entry) (now : Instant) (key : κ) (value : V) :
    LfuCache.cache.PutAsDocumented now s key value := by
  refine (putAsDocumented_iff LfuCache.entry free (lfu_insertEntry_below (Or.inl takes) (.new value))
    (fun other => lfu_peek_eq now other s) (fun other => lfu_peek_eq now other _)).mpr ?_
  obtain ⟨s', done, _, _, inserts⟩ := books.insertEntry takes key (.new value)
  show Documented _ (valuesOf (LfuCache.insertEntry key (.new value) s).2.entry) key
    (LfuCache.insertEntry key (.new value) s).1
  rw [done]
  generalize (LfuCache.insertEntry key (.new value) s).1 = result at inserts
  cases inserts with
  | replaced present entries len evictable | added absent room entries len evictable =>
    exact (documented_of_nobody entries).mpr rfl
  | evicted oldest held absent full someone here entries len evictable first =>
    refine (documented_of_one ?_ here entries).mpr rfl
    rw [contains_eq_entry] at absent
    exact Option.not_isSome_iff_eq_none.mp (by rw [absent]; exact Bool.false_ne_true)

theorem arc_putAsDocumented_iff {s : ArcCache κ V} (apart : s.Apart) (positive : 1 ≤ s.cap)
    (free : TtlFree s.entry) (now : Instant) (key : κ) (value : V) :
    ArcCache.cache.PutAsDocumented now s key value ↔ s.entry key = none ∧ s.Spares key := by
  obtain ⟨apart', _, below⟩ := insertEntry_law apart key (.new value)
  refine (putAsDocumented_iff ArcCache.entry free below (fun other => arc_peek_eq apart now other)
    (fun other => arc_peek_eq apart' now other)).trans ?_
  show Documented _ (valuesOf (ArcCache.insertEntry key (.new value) s).2.entry) key
    (ArcCache.insertEntry key (.new value) s).1 ↔ _
  rcases arc_insertEntry_spec apart positive key (.new value) with ⟨old, present, given, entries⟩ |
    ⟨absent, given, spares, entries⟩ | ⟨gone, held, absent, given, full, here, entries⟩
  · rw [documented_of_nobody entries, given, present]
    exact iff_of_false (Option.some_ne_none _) fun both => Option.some_ne_none _ both.1
  · rw [documented_of_nobody entries, given]
    exact iff_of_true rfl ⟨absent, spares⟩
  · rw [documented_of_one absent here entries, given]
    exact iff_of_false (Option.some_ne_none _).symm fun both => full both.2

theorem tinyLfu_putAsDocumented_iff [HashInput κ] {s : WTinyLfuCache κ V} {place : Placement κ V}
    (shown : s.Shows place) (sized : s.sketch.Sized) (window : 1 ≤ s.windowCap) (free : TtlFree s.entry)
    (now : Instant) (key : κ) (value : V) :
    WTinyLfuCache.cache.PutAsDocumented now s key value ↔ ¬ (s.entry key = none ∧ s.Full) := by
  obtain ⟨place', shown', below⟩ := tinyLfu_insertEntry_below shown key (.new value)
  rw [← shown'.entry, ← shown.entry] at below
  refine (putAsDocumented_iff WTinyLfuCache.entry free (below sized) (fun _ => rfl) (fun _ => rfl)).trans ?_
  show Documented _ (valuesOf (WTinyLfuCache.insertEntry key (.new value) s).2.entry) key
    (WTinyLfuCache.insertEntry key (.new value) s).1 ↔ _
  have returns : (s.recordAccess key).1 = true := by
    obtain ⟨_, _, _, access, whole, _⟩ := recordAccess_cases s key
    rw [access]
    exact (whole sized).2
  rw [tinyLfu_insertEntry_gives]
  rcases tinyLfu_insertEntry_spec (.inl sized) shown window key returns (.new value) with
    ⟨spares, entries⟩ | ⟨gone, held, absent, full, here, entries⟩
  · rw [documented_of_nobody entries]
    exact iff_of_true rfl spares
  · rw [documented_of_one absent here entries]
    exact iff_of_false (Option.some_ne_none _).symm fun spares => spares ⟨absent, full⟩

/-- **What `put` gives back, in every state that a run reaches.** As documented by an `LruCache` and an
`LfuCache`; by an `ArcCache` if the key is new and nobody leaves for it; by a `WTinyLfuCache` unless the key
is new and the cache full, if its sketch was made for at most `2 ^ 62` entries. -/
theorem put_results [HashInput κ] (cap : ℕ) (ops : List (Instant × Op κ V)) (now : Instant) (key : κ)
    (value : V) :
    (∀ s, LruCache.cache.ReachedFree (fun s => s.map.get) (LruCache.new cap) ops s →
      LruCache.cache.PutAsDocumented now s key value) ∧
    (∀ s, LfuCache.cache.ReachedFree LfuCache.entry (LfuCache.new cap) ops s →
      LfuCache.cache.PutAsDocumented now s key value) ∧
    (∀ s, ArcCache.cache.ReachedFree ArcCache.entry (ArcCache.new cap) ops s →
      (ArcCache.cache.PutAsDocumented now s key value ↔ s.entry key = none ∧ s.Spares key)) ∧
    (cap ≤ 2 ^ 62 → ∀ s, WTinyLfuCache.cache.ReachedFree WTinyLfuCache.entry (WTinyLfuCache.new cap) ops s →
      (WTinyLfuCache.cache.PutAsDocumented now s key value ↔ ¬ (s.entry key = none ∧ s.Full))) := by
  refine ⟨fun s state => ?_, fun s state => ?_, fun s state => ?_, fun fits s state => ?_⟩
  · exact lru_putAsDocumented state.free now key value
  · have takes : s.cap ≠ 0 := (lt_of_lt_of_le Nat.two_pos state.capacity).ne'
    exact lfu_putAsDocumented (books_afterRun state.reached) takes state.free now key value
  · have apart : s.Apart := arc_lawful.keeps.afterRun (arc_empty_apart 0 _) state.reached
    exact arc_putAsDocumented_iff apart (one_le_two.trans state.capacity) state.free now key value
  · obtain ⟨place, shown⟩ := tinyLfu_lawful.keeps.afterRun ⟨_, empty_shows _ rfl rfl rfl rfl⟩ state.reached
    have shares := tinyLfu_keeps_proportioned.afterRun (new_proportioned cap) state.reached
    exact tinyLfu_putAsDocumented_iff shown ((table_afterRun state.reached).2 fits) shares.windowCap_pos
      state.free now key value

theorem put_result_of_lfu :
    ∃ s : LfuCache ℕ ℕ, LfuCache.cache.ReachedFree LfuCache.entry (LfuCache.new 2)
        [(0, .put 1 10), (0, .put 2 20)] s ∧
      LfuCache.cache.PutAsDocumented 5 s 3 30 := by
  have reached : LfuCache.cache.ReachedFree LfuCache.entry (LfuCache.new 2 : LfuCache ℕ ℕ)
      [(0, .put 1 10), (0, .put 2 20)]
      (LfuCache.put 2 20 (LfuCache.put 1 10 (LfuCache.new 2)).2).2 := by
    have taken : AlongRun LfuCache.cache.step (Takes LfuCache.TakesPut) (some (LfuCache.new 2 : LfuCache ℕ ℕ))
        [(0, .put 1 10), (0, .put 2 20)] :=
      ⟨Or.inl (by decide), Or.inl (by decide), trivial⟩
    have below := (lfu_lawful.below_afterRun trivial (Below.refl _) taken rfl).2
    exact ⟨rfl, ((ttlFree_of_empty (fun _ => rfl)).update 1 10 |>.update 2 20).below below, by decide⟩
  exact ⟨_, reached, (put_results 2 _ 5 3 30).2.1 _ reached⟩

theorem put_loses_of_arc :
    ∃ s : ArcCache ℕ ℕ, ArcCache.cache.ReachedFree ArcCache.entry (ArcCache.new 2)
        [(0, .put 1 10), (0, .put 2 20)] s ∧
      (ArcCache.put 3 30 s).1 = none ∧ ArcCache.peek 5 1 s = some 10 ∧
      ArcCache.peek 5 1 (ArcCache.put 3 30 s).2 = none ∧
      ¬ ArcCache.cache.PutAsDocumented 5 s 3 30 := by
  have below := (arc_lawful.below_afterRun (arc_empty_apart 0 2) (Below.refl _) (takesAll_alongRun _ _
    ([(0, .put 1 10), (0, .put 2 20)] : List (Instant × Op ℕ ℕ))) rfl).2
  have free := ((ttlFree_of_empty (arc_empty_entry 0 2)).update 1 10 |>.update 2 20).below below
  refine ⟨_, ⟨rfl, free, by decide⟩, by decide +kernel, by decide +kernel, by decide +kernel,
    fun documented => ?_⟩
  obtain ⟨given, _⟩ := documented.2 (by decide +kernel)
  have back := (given 10).mpr ⟨1, by decide +kernel, by decide +kernel⟩
  exact absurd back (by decide +kernel)

end

end OxiStore.Caching
