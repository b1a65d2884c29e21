/-
**Promotions in a `WTinyLfuCache`.**
-/

import OxiStore.Cache.TinyLfu

namespace OxiStore.Caching

open StepProg LinkedMap WTinyLfuCache

variable {κ V σ : Type}

/-- **`get` returns what `peek` and `contains_key` say.** -/
def Cache.GetAgrees (cache : Cache κ V σ) (now : Instant) (key : κ) (s : σ) : Prop :=
  cache.panics now (.get key) s = false ∧ (cache.get now key s).1 = cache.peek now key s ∧
    (cache.get now key s).1.isSome = cache.containsKey now key s

/-! ### The capacities -/

/-- **The capacities stay, the protected segment within its own, and the table of the sketch as it is.** -/
structure WTinyLfuCache.KeepsSizes (s s' : WTinyLfuCache κ V) : Prop where
  total : s'.totalCap = s.totalCap
  window : s'.windowCap = s.windowCap
  protectedCap : s'.protectedCap = s.protectedCap
  within : s.protectedSeg.len ≤ s.protectedCap → s'.protectedSeg.len ≤ s.protectedCap
  table : s.sketch.SameTable s'.sketch

/-- **The capacities of the segments**, as shares of the total. -/
structure WTinyLfuCache.Proportioned (s : WTinyLfuCache κ V) : Prop where
  total : 2 ≤ s.totalCap
  window : s.windowCap = max (s.totalCap / 100) 1
  protectedCap : s.protectedCap = (s.totalCap - s.windowCap) * 4 % 2 ^ 64 / 5
  within : s.protectedSeg.len ≤ s.protectedCap

section

variable {s s' s'' : WTinyLfuCache κ V}

theorem WTinyLfuCache.KeepsSizes.refl (s : WTinyLfuCache κ V) : s.KeepsSizes s := ⟨rfl, rfl, rfl, id, id, id⟩

theorem WTinyLfuCache.KeepsSizes.trans (first : s.KeepsSizes s') (second : s'.KeepsSizes s'') :
    s.KeepsSizes s'' where
  total := second.total.trans first.total
  window := second.window.trans first.window
  protectedCap := second.protectedCap.trans first.protectedCap
  within fits := first.protectedCap ▸ second.within (first.protectedCap.symm ▸ first.within fits)
  table := first.table.trans second.table

theorem WTinyLfuCache.KeepsSizes.proportioned (keeps : s.KeepsSizes s') (fits : s.Proportioned) :
    s'.Proportioned where
  total := keeps.total ▸ fits.total
  window := by rw [keeps.window, keeps.total, fits.window]
  protectedCap := by rw [keeps.protectedCap, keeps.total, keeps.window, fits.protectedCap]
  within := keeps.protectedCap ▸ keeps.within fits.within

theorem WTinyLfuCache.Proportioned.windowCap_pos (fits : s.Proportioned) : 1 ≤ s.windowCap := by
  rw [fits.window]
  exact Nat.le_max_right _ 1

/-- **Nothing is added** to the window, and nothing to the main space. -/
structure WTinyLfuCache.Trims (s s' : WTinyLfuCache κ V) : Prop extends s.KeepsSizes s' where
  mainCap : s'.mainCap = s.mainCap
  windowLen : s'.window.len ≤ s.window.len
  main : s'.probation.len + s'.protectedSeg.len ≤ s.probation.len + s.protectedSeg.len

theorem WTinyLfuCache.Trims.refl (s : WTinyLfuCache κ V) : s.Trims s := ⟨.refl s, rfl, le_rfl, le_rfl⟩

theorem WTinyLfuCache.Trims.trans (first : s.Trims s') (second : s'.Trims s'') : s.Trims s'' where
  toKeepsSizes := first.toKeepsSizes.trans second.toKeepsSizes
  mainCap := second.mainCap.trans first.mainCap
  windowLen := second.windowLen.trans first.windowLen
  main := second.main.trans first.main

theorem setSegment_trims {seg : CacheSegment} {map : LinkedMap κ (CacheEntry V)}
    (smaller : map.len ≤ (s.segment seg).len) : s.Trims (s.setSegment seg map) := by
  cases seg with
  | window => exact ⟨⟨rfl, rfl, rfl, id, id, id⟩, rfl, smaller, le_rfl⟩
  | probation => exact ⟨⟨rfl, rfl, rfl, id, id, id⟩, rfl, le_rfl, Nat.add_le_add_right smaller _⟩
  | protectedSeg => exact ⟨⟨rfl, rfl, rfl, smaller.trans, id, id⟩, rfl, le_rfl, Nat.add_le_add_left smaller _⟩

variable [DecidableEq κ] {key : κ} {held : CacheEntry V} (map : LinkedMap κ (CacheEntry V))

theorem len_erase_le (key : κ) : (map.erase key).len ≤ map.len := by
  rw [len_erase]
  split_ifs
  · exact Nat.sub_le _ _
  · exact le_rfl

theorem len_insert_le (key : κ) (new : CacheEntry V) :
    (map.insert key new).len ≤ map.len + 1 := by
  rw [len_insert]
  split_ifs
  · exact Nat.le_succ _
  · exact le_rfl

variable (s) (seg : CacheSegment)

theorem dropFrom_trims (key : κ) : s.Trims (s.dropFrom seg key) :=
  setSegment_trims (len_erase_le _ key)

theorem unroute_trims (key : κ) : s.Trims (s.unroute key) := ⟨⟨rfl, rfl, rfl, id, id, id⟩, rfl, le_rfl, le_rfl⟩

omit [DecidableEq κ] in
theorem recordAccess_trims [HashInput κ] (key : κ) : s.Trims (s.recordAccess key).2 := by
  obtain ⟨_, _, _, access, whole, short⟩ := recordAccess_cases s key
  rw [access]
  exact ⟨⟨rfl, rfl, rfl, id, fun sized => (whole sized).1, fun panics => (short panics).1⟩, rfl, le_rfl, le_rfl⟩

theorem assign_trims (key : κ) (new : CacheEntry V) :
    s.Trims (s.assign seg key new) := by
  unfold assign
  split_ifs with member
  · refine setSegment_trims ?_
    rw [len_insert, if_pos member]
  · exact .refl s

theorem promoteIn_trims (key : κ) : s.Trims (s.promoteIn seg key) := by
  unfold promoteIn
  cases found : (s.segment seg).get key with
  | none => exact .refl s
  | some held =>
    have shorter := len_erase_add_one (contains_of_get found)
    have back := len_insert_le ((s.segment seg).erase key) key held
    have moved : ((s.dropFrom seg key).pushTo seg key held) =
        s.setSegment seg (((s.segment seg).erase key).insert key held) := by
      cases seg <;> rfl
    dsimp only
    rw [moved]
    exact setSegment_trims (by omega)

theorem popSegment_sized :
    ((s.segment seg).len = 0 ∧ s.popSegment seg = (none, s)) ∨
      ∃ oldest held, s.popSegment seg = (some (oldest, held), (s.dropFrom seg oldest).unroute oldest) ∧
        ((s.segment seg).erase oldest).len + 1 = (s.segment seg).len := by
  unfold popSegment
  rcases (s.segment seg).popFront_cases with ⟨_, popped, empty⟩ | ⟨oldest, held, _, here, popped⟩
  · rw [popped]
    exact Or.inl ⟨empty, rfl⟩
  · rw [popped]
    exact Or.inr ⟨oldest, held, rfl, len_erase_add_one (contains_of_get here)⟩

theorem popSegment_trims : s.Trims (s.popSegment seg).2 := by
  rcases popSegment_sized s seg with ⟨_, popped⟩ | ⟨oldest, held, popped, _⟩
  · rw [popped]
    exact .refl s
  · rw [popped]
    exact (dropFrom_trims s seg oldest).trans (unroute_trims _ oldest)

theorem demote_cases :
    (s.protectedSeg.len ≤ s.protectedCap ∧ s.demote = s) ∨
      ∃ (oldest : κ) (held : CacheEntry V), s.protectedCap < s.protectedSeg.len ∧
        s.protectedSeg.front = some (oldest, held) ∧ s.demote =
          ((s.dropFrom .protectedSeg oldest).route oldest .probation).pushTo .probation oldest held := by
  unfold demote
  split_ifs with large
  · rcases s.protectedSeg.popFront_cases with ⟨_, _, empty⟩ | ⟨oldest, held, front, _, popped⟩
    · omega
    · rw [popped]
      exact Or.inr ⟨oldest, held, large, front, rfl⟩
  · exact Or.inl ⟨not_lt.mp large, rfl⟩

variable {s}

theorem promoteProbationToProtected_eq (there : s.probation.get key = some held) :
    ∃ s' : WTinyLfuCache κ V, s.promoteProbationToProtected key = s'.demote ∧
      s'.protectedSeg = s.protectedSeg.insert key held ∧ s'.protectedCap = s.protectedCap ∧
      s'.probation = s.probation.erase key ∧ s'.window = s.window ∧ s'.totalCap = s.totalCap ∧
      s'.windowCap = s.windowCap ∧ s'.mainCap = s.mainCap ∧ s'.sketch = s.sketch := by
  unfold promoteProbationToProtected
  rw [there]
  exact ⟨_, rfl, rfl, rfl, rfl, rfl, rfl, rfl, rfl, rfl⟩

theorem promoteProbationToProtected_trims (s : WTinyLfuCache κ V) (key : κ) :
    s.Trims (s.promoteProbationToProtected key) := by
  cases there : s.probation.get key with
  | none =>
    unfold promoteProbationToProtected
    rw [there]
    exact .refl s
  | some held =>
    obtain ⟨s', promoted, longer, share, left, same', total, window, mainCap, sketch⟩ :=
      promoteProbationToProtected_eq there
    have table : s.sketch.SameTable s'.sketch := sketch ▸ ⟨id, id⟩
    have fewer := len_erase_add_one (contains_of_get there)
    have more := len_insert_le s.protectedSeg key held
    rw [← left] at fewer
    rw [← longer] at more
    rw [promoted]
    rcases demote_cases s' with ⟨small, same⟩ | ⟨oldest, held', _, front, demoted⟩
    · rw [same]
      exact ⟨⟨total, window, share, fun _ => share ▸ small, table⟩, mainCap, by rw [same'], by omega⟩
    · have shorter := len_erase_add_one (contains_of_get (get_of_front front))
      have back := len_insert_le s'.probation oldest held'
      rw [demoted]
      refine ⟨⟨total, window, share, fun fits => ?_, table⟩, mainCap, same' ▸ le_rfl, ?_⟩
      · show (s'.protectedSeg.erase oldest).len ≤ s.protectedCap
        omega
      · show (s'.probation.insert oldest held').len + (s'.protectedSeg.erase oldest).len ≤ _
        omega

theorem runAdmissionGate_sizes [HashInput κ] (s : WTinyLfuCache κ V) (key : κ) (new : CacheEntry V) :
    s.KeepsSizes (s.runAdmissionGate key new).2 := by
  have admitted : ∀ s' : WTinyLfuCache κ V, s'.KeepsSizes (s'.admitCandidate key new) :=
    fun s' => ⟨rfl, rfl, rfl, id, id, id⟩
  have thrown : s.KeepsSizes { s with rng := xorshift64 s.rng } := ⟨rfl, rfl, rfl, id, id, id⟩
  unfold runAdmissionGate
  split_ifs
  · exact admitted s
  · split
    · exact .refl s
    · split
      · dsimp only
        split_ifs
        · exact (popSegment_trims s .probation).toKeepsSizes.trans (admitted _)
        · exact thrown.trans ((popSegment_trims _ .probation).toKeepsSizes.trans (admitted _))
        · exact thrown
        · exact .refl s
      · exact .refl s

theorem tinyLfu_insertEntry_cases [HashInput κ] (s : WTinyLfuCache κ V) (key : κ) (new : CacheEntry V) :
    s.Trims (insertEntry key new s).2 ∨
      ∃ added : WTinyLfuCache κ V, s.KeepsSizes added ∧ added.mainCap = s.mainCap ∧
        added.window.len ≤ s.window.len + 1 ∧ added.probation = s.probation ∧
        added.protectedSeg = s.protectedSeg ∧
        (added.window.len ≤ added.windowCap ∧ (insertEntry key new s).2 = added ∨
          ∃ oldest held, (added.window.erase oldest).len + 1 = added.window.len ∧ (insertEntry key new s).2 =
            (((added.dropFrom .window oldest).unroute oldest).runAdmissionGate oldest held).2) := by
  obtain ⟨returns, sketch, doorkeeper, access, _⟩ := recordAccess_cases s key
  have trims := recordAccess_trims s key
  unfold insertEntry insertEntryOrPanic
  rw [access] at trims ⊢
  cases returns with
  | false => exact Or.inl trims
  | true =>
    have assigned (seg : CacheSegment) := trims.trans (assign_trims _ seg key new)
    cases s.segmentIndex.get key with
    | some seg => cases seg with
      | window => exact Or.inl ((assigned .window).trans (promoteIn_trims _ .window key))
      | probation => exact Or.inl ((assigned .probation).trans (promoteProbationToProtected_trims _ key))
      | protectedSeg => exact Or.inl ((assigned .protectedSeg).trans (promoteIn_trims _ .protectedSeg key))
    | none =>
      let added := ((({ s with sketch := sketch, doorkeeper := doorkeeper } : WTinyLfuCache κ V).route key
        .window).pushTo .window key new)
      refine Or.inr ⟨added, trims.toKeepsSizes.trans ⟨rfl, rfl, rfl, id, id, id⟩, rfl,
        len_insert_le s.window key new, rfl, rfl, ?_⟩
      dsimp only
      unfold evictFromWindowIfOverCap
      split_ifs with large
      · rcases popSegment_sized added .window with ⟨empty, _⟩ | ⟨oldest, held, popped, shorter⟩
        · exact absurd empty (Nat.ne_zero_of_lt large)
        · rw [popped]
          exact Or.inr ⟨oldest, held, shorter, rfl⟩
      · exact Or.inl ⟨not_lt.mp large, rfl⟩

theorem tinyLfu_insertEntry_sizes [HashInput κ] (s : WTinyLfuCache κ V) (key : κ) (new : CacheEntry V) :
    s.KeepsSizes (insertEntry key new s).2 := by
  rcases tinyLfu_insertEntry_cases s key new with
    trims | ⟨added, comes, _, _, _, _, ⟨_, done⟩ | ⟨oldest, held, _, done⟩⟩
  · exact trims.toKeepsSizes
  · rw [done]
    exact comes
  · have popped := (dropFrom_trims added .window oldest).trans (unroute_trims _ oldest)
    rw [done]
    exact comes.trans (popped.toKeepsSizes.trans (runAdmissionGate_sizes _ oldest held))

theorem tinyLfu_get_trims [HashInput κ] (now : Instant) (s : WTinyLfuCache κ V) (key : κ) :
    s.Trims (WTinyLfuCache.get now key s).2 := by
  have access := recordAccess_trims s key
  unfold WTinyLfuCache.get getOrPanic removeIfExpired
  cases routed : s.segmentIndex.get key with
  | none =>
    simp only [routed]
    exact .refl s
  | some seg =>
    dsimp only
    split_ifs
    · exact (unroute_trims s key).trans (dropFrom_trims _ seg key)
    · simp only [routed]
      revert access
      rcases s.recordAccess key with ⟨_ | _, after⟩ <;> intro access
      · cases seg <;> exact access
      · cases seg with
        | window => exact access.trans (promoteIn_trims _ .window key)
        | probation => exact access.trans (promoteProbationToProtected_trims _ key)
        | protectedSeg => exact access.trans (promoteIn_trims _ .protectedSeg key)

theorem tinyLfu_remove_trims (s : WTinyLfuCache κ V) (key : κ) : s.Trims (remove key s).2 := by
  unfold remove
  cases s.segmentIndex.get key with
  | none => exact .refl s
  | some seg => exact (unroute_trims s key).trans (dropFrom_trims _ seg key)

theorem rounds_pop_trims {test : WTinyLfuCache κ V → Bool} {n : ℕ}
    (ends : WhileLoop.rounds test (fun s => (s.popSegment seg).2) n s = some s') :
    s.Trims s' ∧ test s' = false :=
  WhileLoop.rounds_invariant s.Trims (fun after trims _ => trims.trans (popSegment_trims after seg))
    (.refl s) ends

theorem resize_proportioned {newCap : ℕ} (ends : resize newCap s = some s') :
    s'.Proportioned := by
  unfold resize at ends
  obtain ⟨first, done, ends⟩ := Option.bind_eq_some_iff.mp ends
  obtain ⟨second, done', ends⟩ := Option.bind_eq_some_iff.mp ends
  obtain ⟨trims, small⟩ := rounds_pop_trims .protectedSeg done'
  have caps := (rounds_pop_trims .window done).1.trans trims
  have fits : second.Proportioned :=
    { total := caps.total ▸ Nat.le_max_right newCap 2
      window := by rw [caps.window, caps.total]; rfl
      protectedCap := by rw [caps.protectedCap, caps.total, caps.window]; rfl
      within := not_lt.mp (of_decide_eq_false small) }
  exact (rounds_pop_trims .probation ends).1.proportioned fits

omit [DecidableEq κ] in
theorem clear_sizes (s : WTinyLfuCache κ V) : s.KeepsSizes s.clear :=
  ⟨rfl, rfl, rfl, fun _ => Nat.zero_le _, CountMinSketch.Sized.clear, CountMinSketch.Short.clear⟩

theorem resize_keeps_table {newCap : ℕ} (ends : resize newCap s = some s') :
    s.sketch.SameTable s'.sketch := by
  unfold resize at ends
  obtain ⟨first, done, ends⟩ := Option.bind_eq_some_iff.mp ends
  obtain ⟨second, done', ends⟩ := Option.bind_eq_some_iff.mp ends
  exact (((rounds_pop_trims .window done).1.trans (rounds_pop_trims .protectedSeg done').1).trans
    (rounds_pop_trims .probation ends).1).table

theorem tinyLfu_keeps_proportioned [HashInput κ] : (cache : Cache κ V (WTinyLfuCache κ V)).Keeps
    insertEntry Proportioned where
  put _ _ _ := rfl
  putWithTtl _ _ _ _ _ := rfl
  insert s key new := (tinyLfu_insertEntry_sizes s key new).proportioned
  get s now key := (tinyLfu_get_trims now s key).proportioned
  remove s key := (tinyLfu_remove_trims s key).proportioned
  clear s fits := by
    exact (clear_sizes s).proportioned fits
  resize _ _ _ _ := resize_proportioned

theorem tinyLfu_keeps_table [HashInput κ] (start : CountMinSketch) :
    (cache : Cache κ V (WTinyLfuCache κ V)).Keeps insertEntry fun s => start.SameTable s.sketch where
  put _ _ _ := rfl
  putWithTtl _ _ _ _ _ := rfl
  insert s key new held := held.trans (tinyLfu_insertEntry_sizes s key new).table
  get s now key held := held.trans (tinyLfu_get_trims now s key).table
  remove s key held := held.trans (tinyLfu_remove_trims s key).table
  clear s held := held.trans (clear_sizes s).table
  resize _ _ _ held ends := held.trans (resize_keeps_table ends)

omit [DecidableEq κ] in
theorem new_sized {cap : ℕ} (fits : cap ≤ 2 ^ 62) : (WTinyLfuCache.new cap : WTinyLfuCache κ V).sketch.Sized :=
  CountMinSketch.new_sized (Nat.le_max_right cap 2) (max_le fits (by decide))

theorem table_afterRun [HashInput κ] {cap : ℕ} {ops : List (Instant × Op κ V)}
    (ends : StepProg.afterRun WTinyLfuCache.cache.step (some (WTinyLfuCache.new cap)) ops = some s) :
    (s.sketch.Sized ∨ s.sketch.Short) ∧ (cap ≤ 2 ^ 62 → s.sketch.Sized) := by
  have same := (tinyLfu_keeps_table (V := V) (κ := κ) _).afterRun ⟨id, id⟩ ends
  refine ⟨?_, fun fits => same.sized (new_sized fits)⟩
  rcases le_or_gt cap (2 ^ 62) with fits | large
  · exact .inl (same.sized (new_sized fits))
  · exact .inr (same.short (CountMinSketch.new_short (by omega)))

omit [DecidableEq κ] in
theorem new_proportioned (cap : ℕ) : (WTinyLfuCache.new cap : WTinyLfuCache κ V).Proportioned where
  total := Nat.le_max_right cap 2
  window := rfl
  protectedCap := rfl
  within := Nat.zero_le _

end

/-! ### What `get` finds -/

section

variable [DecidableEq κ] {s : WTinyLfuCache κ V} {place : Placement κ V} {key : κ} {held : CacheEntry V}

theorem promoted_get (there : s.probation.get key = some held) (absent : s.protectedSeg.get key = none) :
    (s.promoteProbationToProtected key).protectedSeg.get key =
      if s.protectedCap = 0 ∧ s.protectedSeg.len = 0 then none else some held := by
  have apart : (s.protectedSeg.erase key).len = s.protectedSeg.len := by
    rw [len_erase, contains_of_get_none absent]
    rfl
  obtain ⟨s', promoted, longer, share, _⟩ := promoteProbationToProtected_eq there
  have size : s'.protectedSeg.len = s.protectedSeg.len + 1 := by
    rw [longer, len_insert, contains_of_get_none absent]
    rfl
  have front' : s'.protectedSeg.front =
      if s.protectedSeg.len = 0 then some (key, held) else (s.protectedSeg.erase key).front := by
    rw [longer, front_insert, apart]
  rw [promoted]
  rcases demote_cases s' with ⟨small, same⟩ | ⟨oldest, held', large, front, demoted⟩
  · rw [same, longer, get_insert_self, if_neg (by omega)]
  · have found : s'.demote.protectedSeg.get key = (s'.protectedSeg.erase oldest).get key := by
      rw [demoted]
      rfl
    rw [found, get_erase, longer, get_insert_self]
    rw [front'] at front
    split_ifs at front with alone
    · -- the key is alone, and too much
      cases front
      rw [if_pos rfl, if_pos ⟨by omega, alone⟩]
    · have inside := get_of_front front
      rw [get_erase] at inside
      split_ifs at inside with same
      rw [if_neg (Ne.symm same), if_neg fun both => alone both.2]

/-- **An access that panics**: the doorkeeper has seen the key, and there is no room to count it in. -/
def WTinyLfuCache.Overruns [HashInput κ] (s : WTinyLfuCache κ V) (key : κ) : Prop :=
  s.sketch.Short ∧ (s.doorkeeper.put (keyBytes key)).1 = true

omit [DecidableEq κ] in
theorem recordAccess_overruns [HashInput κ] (table : s.sketch.Sized ∨ s.sketch.Short) (key : κ) :
    (s.recordAccess key).1 = false ↔ s.Overruns key := by
  obtain ⟨returns, _, _, access, whole, short⟩ := recordAccess_cases s key
  rw [access]
  rcases table with sized | less
  · simp [(whole sized).2, Overruns, sized.not_short]
  · simp [(short less).2, Overruns, less]

theorem tinyLfu_get_value [HashInput κ] (shown : s.Shows place) (table : s.sketch.Sized ∨ s.sketch.Short)
    (now : Instant) (key : κ) : ((peek now key s).isSome = true ∧ s.Overruns key ∧ (getOrPanic now key s).1 = none) ∨
      (¬ ((peek now key s).isSome = true ∧ s.Overruns key) ∧ (getOrPanic now key s).1 =
        some (if s.segmentIndex.get key = some .probation ∧ s.protectedCap = 0 ∧ s.protectedSeg.len = 0 then none
          else peek now key s)) := by
  have overruns := recordAccess_overruns table key
  obtain ⟨returns, sketch, doorkeeper, access, _⟩ := recordAccess_cases s key
  let after : WTinyLfuCache κ V := { s with sketch := sketch, doorkeeper := doorkeeper }
  rw [access] at overruns
  unfold getOrPanic removeIfExpired peek WTinyLfuCache.entry
  cases routed : s.segmentIndex.get key with
  | none => simp [routed]
  | some seg =>
    obtain ⟨held, there⟩ := shown.place_of_index routed
    have here := shown.get_of_place there
    have recorded : after.Shows place := shown.of_same rfl rfl rfl rfl
    have kept : ∀ seg', place key = some (seg', held) → ((after.promoteIn seg' key).segment seg').get key = some held :=
      fun seg' there' => (promoteIn_shows recorded seg' key).get_of_place there'
    simp only [Option.bind_some, here]
    cases expired : held.isExpired now with
    | true => simp [CacheEntry.live, expired]
    | false =>
      simp only [Option.any_some, expired, Bool.false_eq_true, if_false, routed, CacheEntry.live, access]
      cases returns with
      | false => exact .inl ⟨rfl, overruns.mp rfl, by cases seg <;> rfl⟩
      | true =>
        refine .inr ⟨fun both => Bool.noConfusion (overruns.mpr both.2), ?_⟩
        cases seg with
        | window =>
          show some ((((after.promoteIn .window key).segment .window).get key).map _) = _
          rw [kept .window there]
          simp
        | protectedSeg =>
          show some ((((after.promoteIn .protectedSeg key).segment .protectedSeg).get key).map _) = _
          rw [kept .protectedSeg there]
          simp
        | probation =>
          have absent : (s.segment .protectedSeg).get key = none := by
            rw [shown.held, there]
            rfl
          have promoted := promoted_get (s := after) here absent
          dsimp only
          rw [promoted]
          show some (Option.map _ (if s.protectedCap = 0 ∧ s.protectedSeg.len = 0 then none else some held)) = _
          by_cases full : s.protectedCap = 0 ∧ s.protectedSeg.len = 0
          all_goals simp [full]

def WTinyLfuCache.Misses [HashInput κ] (s : WTinyLfuCache κ V) (now : Instant) (key : κ) : Prop :=
  (WTinyLfuCache.peek now key s).isSome = true ∧
    (s.segmentIndex.get key = some .probation ∧ s.protectedCap = 0 ∨ s.Overruns key)

theorem tinyLfu_containsKey_eq (now : Instant) (key : κ) (s : WTinyLfuCache κ V) :
    containsKey now key s = (peek now key s).isSome := by
  unfold containsKey peek CacheEntry.live
  cases s.entry key with
  | none => rfl
  | some held => cases expired : held.isExpired now with
    | true | false => simp [expired]

/-- **`get` agrees with `peek` and `contains_key` in every state that is reached, unless it misses the key.** -/
theorem tinyLfu_get_agrees_iff [HashInput κ] (cap : ℕ) (ops : List (Instant × Op κ V)) (now : Instant)
    (key : κ) (s : WTinyLfuCache κ V)
    (ends : afterRun WTinyLfuCache.cache.step (some (WTinyLfuCache.new cap)) ops = some s) :
    WTinyLfuCache.cache.GetAgrees now key s ↔ ¬ s.Misses now key := by
  have start : (WTinyLfuCache.new cap : WTinyLfuCache κ V).Shows fun _ => none :=
    empty_shows _ rfl rfl rfl rfl
  obtain ⟨place, shown⟩ := tinyLfu_lawful.keeps.afterRun ⟨_, start⟩ ends
  have within := (tinyLfu_keeps_proportioned.afterRun (new_proportioned cap) ends).within
  have empty : s.protectedCap = 0 ∧ s.protectedSeg.len = 0 ↔ s.protectedCap = 0 := by omega
  show ((getOrPanic now key s).1.isNone = false ∧ (getOrPanic now key s).1.join = peek now key s ∧
    (getOrPanic now key s).1.join.isSome = containsKey now key s) ↔ _
  rw [tinyLfu_containsKey_eq]
  unfold Misses
  rcases tinyLfu_get_value shown (table_afterRun ends).1 now key with ⟨seen, overruns, panics⟩ | ⟨inside, returns⟩
  · rw [panics]
    exact iff_of_false (fun agrees => Bool.noConfusion agrees.1) fun finds => finds ⟨seen, .inr overruns⟩
  · simp only [returns, empty]
    cases seen : peek now key s with
    | none => simp
    | some value =>
      have inside' : ¬ s.Overruns key := fun overruns => inside ⟨by rw [seen]; rfl, overruns⟩
      by_cases misses : s.segmentIndex.get key = some .probation ∧ s.protectedCap = 0
      · simp [misses]
      · simp only [misses, inside', if_false]
        simp

theorem tinyLfu_finds_on_probation : ∃ s,
    afterRun WTinyLfuCache.cache.step (some (WTinyLfuCache.new 3 : WTinyLfuCache ℕ ℕ))
      [(0, .put 1 10), (0, .put 2 20)] = some s ∧
    s.segmentIndex.get 1 = some .probation ∧ WTinyLfuCache.cache.GetAgrees 5 1 s := by
  refine ⟨_, rfl, by decide +kernel, (tinyLfu_get_agrees_iff 3
    [(0, .put 1 10), (0, .put 2 20)] 5 1 _ rfl).mpr ?_⟩
  rintro ⟨_, ⟨_, least⟩ | ⟨short, _⟩⟩
  · exact absurd least (by decide +kernel)
  · exact absurd short (by unfold CountMinSketch.Short; decide +kernel)

theorem tinyLfu_misses_on_probation :
    let ops := [(0, .put 1 10), (0, .put 2 20)]
    (∃ s, afterRun WTinyLfuCache.cache.step (some (WTinyLfuCache.new 2 : WTinyLfuCache ℕ ℕ)) ops = some s ∧
      WTinyLfuCache.peek 5 1 s = some 10 ∧ WTinyLfuCache.containsKey 5 1 s = true ∧
      (WTinyLfuCache.getOrPanic 5 1 s).1 = some none) ∧
    ∃ s, afterRun WTinyLfuCache.cache.step (some (WTinyLfuCache.new 3 : WTinyLfuCache ℕ ℕ))
        (ops ++ [(0, .resize 4658268705482210004)]) = some s ∧
      WTinyLfuCache.peek 5 1 s = some 10 ∧
      (WTinyLfuCache.getOrPanic 5 1 s).1 = some none :=
  ⟨⟨_, rfl, by decide +kernel, by decide +kernel, by decide +kernel⟩,
    ⟨_, rfl, by decide +kernel, by decide +kernel⟩⟩

end

end OxiStore.Caching
