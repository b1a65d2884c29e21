/-
**The segments of a `WTinyLfuCache`.**
-/

import OxiStore.Cache.Promotion

namespace OxiStore.Caching

open StepProg LinkedMap WTinyLfuCache

variable {κ V : Type}

/-- **Each part within its capacity.** -/
structure WTinyLfuCache.Balanced (s : WTinyLfuCache κ V) : Prop where
  mainCap : s.mainCap = s.totalCap - s.windowCap
  window : s.window.len ≤ s.windowCap
  main : s.probation.len + s.protectedSeg.len ≤ s.mainCap

section

variable {s s' : WTinyLfuCache κ V}

theorem WTinyLfuCache.Balanced.of_trims (balanced : s.Balanced) (trims : s.Trims s') : s'.Balanced where
  mainCap := by rw [trims.mainCap, trims.total, trims.window, balanced.mainCap]
  window := trims.window ▸ trims.windowLen.trans balanced.window
  main := trims.mainCap ▸ trims.main.trans balanced.main

variable [DecidableEq κ]

/-! ### New keys -/

theorem admitCandidate_main (s : WTinyLfuCache κ V) (key : κ) (new : CacheEntry V) :
    (s.admitCandidate key new).probation.len + (s.admitCandidate key new).protectedSeg.len ≤
      s.probation.len + s.protectedSeg.len + 1 := by
  have longer := len_insert_le s.probation key new
  show (s.probation.insert key new).len + s.protectedSeg.len ≤ _
  omega

theorem swapped_trims (some' : s.probation.len ≠ 0) (key : κ) (new : CacheEntry V) :
    s.Trims ((s.popSegment .probation).2.admitCandidate key new) := by
  rcases popSegment_sized s .probation with ⟨empty, _⟩ | ⟨oldest, held, popped, shorter⟩
  · exact absurd empty some'
  · rw [popped]
    refine ⟨⟨rfl, rfl, rfl, id, id, id⟩, rfl, le_rfl, (admitCandidate_main _ key new).trans ?_⟩
    show (s.probation.erase oldest).len + s.protectedSeg.len + 1 ≤ s.probation.len + s.protectedSeg.len
    have same : s.segment .probation = s.probation := rfl
    rw [same] at shorter
    omega

theorem runAdmissionGate_cases [HashInput κ] (s : WTinyLfuCache κ V) (key : κ) (new : CacheEntry V) :
    (s.probation.len + s.protectedSeg.len < s.mainCap ∧
      (s.runAdmissionGate key new).2 = s.admitCandidate key new) ∨ s.Trims (s.runAdmissionGate key new).2 := by
  unfold runAdmissionGate
  split_ifs with room
  · exact Or.inl ⟨room, rfl⟩
  · refine Or.inr ?_
    split
    · exact .refl s
    · rename_i victim _ front
      have some' : s.probation.len ≠ 0 := (len_pos (contains_of_get (get_of_front front))).ne'
      have thrown : s.Trims { s with rng := xorshift64 s.rng } :=
        ⟨⟨rfl, rfl, rfl, id, id, id⟩, rfl, le_rfl, le_rfl⟩
      split
      · dsimp only
        split_ifs
        · exact swapped_trims some' key new
        · exact thrown.trans (swapped_trims (by exact some') key new)
        · exact thrown
        · exact .refl s
      · exact .refl s

theorem runAdmissionGate_balanced [HashInput κ] (balanced : s.Balanced) (key : κ) (new : CacheEntry V) :
    (s.runAdmissionGate key new).2.Balanced := by
  rcases runAdmissionGate_cases s key new with ⟨room, admitted⟩ | trims
  · rw [admitted]
    exact ⟨balanced.mainCap, balanced.window, (admitCandidate_main s key new).trans room⟩
  · exact balanced.of_trims trims

theorem tinyLfu_insertEntry_balanced [HashInput κ] (balanced : s.Balanced) (key : κ) (new : CacheEntry V) :
    (insertEntry key new s).2.Balanced := by
  rcases tinyLfu_insertEntry_cases s key new with
    trims | ⟨added, comes, mainCap, longer, probation, protectedSeg, done⟩
  · exact balanced.of_trims trims
  · have share : added.mainCap = added.totalCap - added.windowCap := by
      rw [mainCap, comes.total, comes.window, balanced.mainCap]
    have main : added.probation.len + added.protectedSeg.len ≤ added.mainCap := by
      rw [probation, protectedSeg, mainCap]
      exact balanced.main
    rcases done with ⟨small, done⟩ | ⟨oldest, held, shorter, done⟩
    · rw [done]
      exact ⟨share, small, main⟩
    · have window := balanced.window
      rw [← comes.window] at window
      have left : ((added.dropFrom .window oldest).unroute oldest).Balanced :=
        ⟨share, Nat.le_of_succ_le_succ (shorter.le.trans (longer.trans (Nat.succ_le_succ window))), main⟩
      rw [done]
      exact runAdmissionGate_balanced left oldest held

/-! ### Resizing -/

theorem rounds_pop_returns {test : WTinyLfuCache κ V → Bool} (seg : CacheSegment) (holds : WTinyLfuCache κ V → Prop)
    (keeps : ∀ s, holds s → holds (s.popSegment seg).2)
    (stops : ∀ s, holds s → (s.segment seg).len = 0 → test s = false) (start : holds s) :
    ∃ s', WhileLoop.rounds test (fun s => (s.popSegment seg).2) (s.segment seg).len s = some s' := by
  refine WhileLoop.rounds_of_measure holds (fun s : WTinyLfuCache κ V => (s.segment seg).len)
    (fun s held goes => ⟨keeps s held, ?_⟩) start le_rfl
  rcases popSegment_sized s seg with ⟨empty, _⟩ | ⟨oldest, _, popped, shorter⟩
  · rw [stops s held empty] at goes
    cases goes
  · rw [popped]
    simp only [segment_unroute, dropFrom, segment_setSegment, if_true]
    omega

theorem tinyLfu_resize_spec (newCap : ℕ) (s : WTinyLfuCache κ V) :
    ∃ s', resize newCap s = some s' ∧ s'.Balanced := by
  obtain ⟨first, done⟩ : ∃ first, WhileLoop.rounds
      (fun s : WTinyLfuCache κ V => s.windowCap < s.window.len) (fun s => (s.popSegment .window).2)
      s.window.len (s.setCap newCap) = some first := by
    refine rounds_pop_returns (s := s.setCap newCap) .window (fun _ => True) (fun _ _ => trivial)
      (fun after _ empty => ?_) trivial
    have none' : after.window.len = 0 := empty
    simp [none']
  obtain ⟨second, done'⟩ : ∃ second, WhileLoop.rounds
      (fun s : WTinyLfuCache κ V => s.protectedCap < s.protectedSeg.len)
      (fun s => (s.popSegment .protectedSeg).2) first.protectedSeg.len first = some second := by
    refine rounds_pop_returns .protectedSeg (fun _ => True) (fun _ _ => trivial) (fun after _ empty => ?_) trivial
    have none' : after.protectedSeg.len = 0 := empty
    simp [none']
  obtain ⟨trims, small⟩ := rounds_pop_trims .window done
  obtain ⟨trims', small'⟩ := rounds_pop_trims .protectedSeg done'
  have window : first.window.len ≤ first.windowCap := not_lt.mp (of_decide_eq_false small)
  -- the protected segment alone fits into the main space, so the last loop stops at an empty probation
  have share : second.protectedSeg.len ≤ second.mainCap := by
    have fits : second.protectedSeg.len ≤ second.protectedCap := not_lt.mp (of_decide_eq_false small')
    have part : second.protectedCap = second.mainCap * 4 % 2 ^ 64 / 5 := by
      rw [trims'.protectedCap, trims.protectedCap, trims'.mainCap, trims.mainCap]
      rfl
    have wraps := Nat.mod_le (second.mainCap * 4) (2 ^ 64)
    omega
  obtain ⟨third, done''⟩ : ∃ third, WhileLoop.rounds
      (fun s : WTinyLfuCache κ V => s.mainCap < s.probation.len + s.protectedSeg.len)
      (fun s => (s.popSegment .probation).2) second.probation.len second = some third := by
    refine rounds_pop_returns .probation (fun s => s.protectedSeg.len ≤ s.mainCap) (fun after held => ?_)
      (fun after held empty => ?_) share
    · rcases popSegment_sized after .probation with ⟨_, popped⟩ | ⟨oldest, _, popped, _⟩
      · rw [popped]
        exact held
      · rw [popped]
        exact held
    · have none' : after.probation.len = 0 := empty
      simp [none', held]
  obtain ⟨trims'', small''⟩ := rounds_pop_trims .probation done''
  have all := (trims.trans trims').trans trims''
  refine ⟨third, ?_, ?_, ?_, not_lt.mp (of_decide_eq_false small'')⟩
  · unfold resize
    rw [done]
    dsimp only [Option.bind_eq_bind, Option.bind_some]
    rw [done']
    exact done''
  · rw [all.mainCap, all.total, all.window]
    rfl
  · rw [trims''.window, trims'.window]
    exact (trims''.windowLen.trans trims'.windowLen).trans window

theorem tinyLfu_keeps_balanced [HashInput κ] : (cache : Cache κ V (WTinyLfuCache κ V)).Keeps
    insertEntry fun s => s.Proportioned ∧ s.Balanced where
  put _ _ _ := rfl
  putWithTtl _ _ _ _ _ := rfl
  insert s key new both :=
    ⟨tinyLfu_keeps_proportioned.insert s key new both.1, tinyLfu_insertEntry_balanced both.2 key new⟩
  get s now key both := ⟨tinyLfu_keeps_proportioned.get s now key both.1,
    both.2.of_trims (tinyLfu_get_trims now s key)⟩
  remove s key both := ⟨tinyLfu_keeps_proportioned.remove s key both.1,
    both.2.of_trims (tinyLfu_remove_trims s key)⟩
  clear s both := ⟨tinyLfu_keeps_proportioned.clear s both.1, both.2.mainCap, Nat.zero_le _, Nat.zero_le _⟩
  resize s newCap s' _ ends := by
    obtain ⟨after, returns, balanced⟩ := tinyLfu_resize_spec newCap s
    have same : after = s' := Option.some_inj.mp (returns.symm.trans ends)
    exact ⟨resize_proportioned ends, same ▸ balanced⟩

end

/-! ### The structure -/

section

variable [DecidableEq κ] {s : WTinyLfuCache κ V} {place : Placement κ V}

theorem WTinyLfuCache.Shows.index_iff (shown : s.Shows place) (key : κ) (seg : CacheSegment) :
    s.segmentIndex.get key = some seg ↔ key ∈ (s.segment seg).keys := by
  rw [mem_keys_iff, LinkedMap.contains, shown.index, shown.held]
  cases place key with
  | none => simp
  | some there => by_cases same : there.1 = seg <;> simp [same]

theorem WTinyLfuCache.Shows.disjoint (shown : s.Shows place) (seg other : CacheSegment) (apart : seg ≠ other) :
    (s.segment seg).keys.Disjoint (s.segment other).keys := by
  intro key here there
  have routed := (shown.index_iff key seg).mpr here
  rw [(shown.index_iff key other).mpr there] at routed
  exact apart (Option.some_inj.mp routed).symm

/-- **The structure of a `WTinyLfuCache`.** After any run, in which every `resize` returns: no key is in two
segments; the index has the segment of each key, and no other key; the window, the protected segment and the
main space keep to their capacities, and so does the whole; and every next `resize` returns. -/
theorem tinyLfu_structure [HashInput κ] (cap : ℕ) (ops : List (Instant × Op κ V)) :
    ∃ s, afterRun (cache : Cache κ V (WTinyLfuCache κ V)).step (some (WTinyLfuCache.new cap)) ops = some s ∧
      [s.window.keys, s.probation.keys, s.protectedSeg.keys].Pairwise List.Disjoint ∧
      (∀ key seg, s.segmentIndex.get key = some seg ↔ key ∈ (s.segment seg).keys) ∧
      s.window.len ≤ s.windowCap ∧ s.protectedSeg.len ≤ s.protectedCap ∧
      s.probation.len + s.protectedSeg.len ≤ s.mainCap ∧ s.len ≤ s.totalCap ∧
      ∀ newCap, ∃ s', resize newCap s = some s' := by
  have returns : ∀ (s : WTinyLfuCache κ V) newCap, ∃ s', resize newCap s = some s' := fun s newCap =>
    (tinyLfu_resize_spec newCap s).imp fun _ => And.left
  obtain ⟨s, ends, fits, balanced⟩ := tinyLfu_keeps_balanced.returns (fun s newCap _ => returns s newCap)
    ⟨new_proportioned cap, rfl, Nat.zero_le _, Nat.zero_le _⟩ ops
  obtain ⟨place, shown⟩ := tinyLfu_lawful.keeps.afterRun ⟨_, empty_shows _ rfl rfl rfl rfl⟩ ends
  refine ⟨s, ends, ?_, shown.index_iff, balanced.window, fits.within, balanced.main, ?_, returns s⟩
  · have first : s.window.keys.Disjoint s.probation.keys :=
      shown.disjoint .window .probation (by decide)
    have second : s.window.keys.Disjoint s.protectedSeg.keys :=
      shown.disjoint .window .protectedSeg (by decide)
    have third : s.probation.keys.Disjoint s.protectedSeg.keys :=
      shown.disjoint .probation .protectedSeg (by decide)
    simp [first, second, third]
  · have window := balanced.window
    have main := balanced.main
    have mainCap := balanced.mainCap
    have total := fits.total
    have share := fits.window
    unfold WTinyLfuCache.len
    omega

end

end OxiStore.Caching
