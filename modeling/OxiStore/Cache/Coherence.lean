/-
**The four policies, in every run.**
-/

import OxiStore.Cache.Lru
import OxiStore.Cache.Arc
import OxiStore.Cache.Lfu
import OxiStore.Cache.Promotion

namespace OxiStore.Caching

open StepProg

section

variable {κ V : Type} [DecidableEq κ] [HashInput κ]

/-- **Coherence.** -/
theorem caches_coherent (cap : ℕ) (ops : List (Instant × Op κ V)) :
    (∀ s', afterRun LruCache.cache.step (some (LruCache.new cap)) ops = some s' →
      LruCache.cache.CoherentAt s' (ledgerOf ops)) ∧
    (∀ s', afterRun ArcCache.cache.step (some (ArcCache.new cap)) ops = some s' →
      ArcCache.cache.CoherentAt s' (ledgerOf ops)) ∧
    (AlongRun LfuCache.cache.step (Takes LfuCache.TakesPut) (some (LfuCache.new cap)) ops →
      ∀ s', afterRun LfuCache.cache.step (some (LfuCache.new cap)) ops = some s' →
        LfuCache.cache.CoherentAt s' (ledgerOf ops)) ∧
    (cap ≤ 2 ^ 62 → ∀ s', afterRun WTinyLfuCache.cache.step (some (WTinyLfuCache.new cap)) ops = some s' →
      WTinyLfuCache.cache.CoherentAt s' (ledgerOf ops)) := by
  refine ⟨fun s' ends => ?_, fun s' ends => ?_, fun taken s' ends => ?_, fun fits s' ends => ?_⟩
  · exact lru_lawful.coherentAt_afterRun trivial LinkedMap.get_empty (takesAll_alongRun _ _ _) ends
  · exact arc_lawful.coherentAt_afterRun (arc_empty_apart 0 _) (arc_empty_entry 0 _)
      (takesAll_alongRun _ _ _) ends
  · exact lfu_lawful.coherentAt_afterRun trivial (fun key => congrArg _ (LinkedMap.get_empty key)) taken ends
  · have shown : (WTinyLfuCache.new cap : WTinyLfuCache κ V).Shows fun _ => none :=
      empty_shows _ rfl rfl rfl rfl
    have taken := (tinyLfu_keeps_table _).takes_alongRun (fun _ _ same => same.sized (new_sized fits))
      (⟨id, id⟩ : CountMinSketch.SameTable (WTinyLfuCache.new cap : WTinyLfuCache κ V).sketch _) ops
    refine tinyLfu_lawful.coherentAt_afterRun ⟨_, shown⟩ (fun key => ?_) taken ends
    rw [shown.entry]
    rfl

theorem lfu_coherent_after_resize :
    let ops := [(0, .put 1 10), (5, .resize 1), (7, .put 1 20)]
    AlongRun LfuCache.cache.step (Takes LfuCache.TakesPut) (some (LfuCache.new 2 : LfuCache ℕ ℕ)) ops ∧
      ∃ s', afterRun LfuCache.cache.step (some (LfuCache.new 2)) ops = some s' ∧
        LfuCache.cache.CoherentAt s' (ledgerOf ops) := by
  intro ops
  have taken : AlongRun LfuCache.cache.step (Takes LfuCache.TakesPut) (some (LfuCache.new 2)) ops :=
    ⟨Or.inl (by decide), trivial, Or.inl (by decide +kernel), trivial⟩
  exact ⟨taken, _, rfl, (caches_coherent 2 _).2.2.1 taken _ rfl⟩

theorem lfu_reports_old_value : ∃ s', afterRun LfuCache.cache.step (some (LfuCache.new 1 : LfuCache ℕ ℕ))
      [(0, .put 1 10), (5, .resize 0), (7, .put 1 20)] = some s' ∧
    ¬ LfuCache.cache.CoherentAt s' (ledgerOf
      [(0, .put 1 10), (5, .resize 0), (7, .put 1 20)]) := by
  refine ⟨_, rfl, fun coherent => ?_⟩
  obtain ⟨entry, last, _, same⟩ := (coherent 9 1).1 10 (by decide +kernel)
  cases last
  exact absurd same (by decide)

omit [HashInput κ] in
theorem lru_get_keeps (now : Instant) (key : κ) (s : LruCache κ V) :
    LruCache.cache.GetKeepsOthers now key s :=
  Cache.getKeepsOthers_of_entry (fun s => s.map.get) (fun _ => rfl) (fun _ => rfl)
    fun _ different => lru_get_others now different s

omit [HashInput κ] in
theorem lfu_get_keeps (now : Instant) (key : κ) (s : LfuCache κ V) :
    LfuCache.cache.GetKeepsOthers now key s :=
  Cache.getKeepsOthers_of_entry LfuCache.entry (fun other => lfu_peek_eq now other s)
    (fun other => lfu_peek_eq now other _) fun _ different => lfu_get_others now different s

theorem tinyLfu_get_keeps {s : WTinyLfuCache κ V} {place : Placement κ V} (shown : s.Shows place)
    (now : Instant) (key : κ) : WTinyLfuCache.cache.GetKeepsOthers now key s :=
  Cache.getKeepsOthers_of_entry WTinyLfuCache.entry (fun _ => rfl) (fun _ => rfl)
    fun _ different => tinyLfu_get_others shown now different

/-- **What a `get` does to the other keys**, in every state that is reached. -/
theorem get_keeps_others_iff (cap : ℕ) (ops : List (Instant × Op κ V)) (now : Instant) (key : κ) :
    (∀ s', afterRun LruCache.cache.step (some (LruCache.new cap)) ops = some s' →
      LruCache.cache.GetKeepsOthers now key s') ∧
    (∀ s', afterRun ArcCache.cache.step (some (ArcCache.new cap)) ops = some s' →
      (ArcCache.cache.GetKeepsOthers now key s' ↔ ¬ s'.Drains now key)) ∧
    (∀ s', afterRun LfuCache.cache.step (some (LfuCache.new cap)) ops = some s' →
      LfuCache.cache.GetKeepsOthers now key s') ∧
    (∀ s', afterRun WTinyLfuCache.cache.step (some (WTinyLfuCache.new cap)) ops = some s' →
      WTinyLfuCache.cache.GetKeepsOthers now key s') := by
  refine ⟨fun s' _ => lru_get_keeps now key s', fun s' ends => ?_, fun s' _ => lfu_get_keeps now key s',
    fun s' ends => ?_⟩
  · have apart := arc_lawful.keeps.afterRun (arc_empty_apart 0 _) ends
    exact arc_get_keeps_iff apart now key
  · have start : (WTinyLfuCache.new cap : WTinyLfuCache κ V).Shows fun _ => none :=
      empty_shows _ rfl rfl rfl rfl
    obtain ⟨place, shown⟩ := tinyLfu_lawful.keeps.afterRun ⟨_, start⟩ ends
    exact tinyLfu_get_keeps shown now key

theorem arc_get_keeps_other : ∃ s', afterRun ArcCache.cache.step (some (ArcCache.new 2 : ArcCache ℕ ℕ))
      [(0, .put 1 10), (0, .put 2 20)] = some s' ∧
    ¬ s'.Drains 5 1 ∧ ArcCache.cache.GetKeepsOthers 5 1 s' := by
  refine ⟨_, rfl, ?spares, ((get_keeps_others_iff 2
    [(0, .put 1 10), (0, .put 2 20)] 5 1).2.1 _ rfl).mpr ?spares⟩
  rintro ⟨⟨absent, _⟩, _⟩
  exact absurd absent (by decide +kernel)

theorem arc_lookups_drain :
    let ops := [(0, .put 1 10), (0, .put 2 20), (0, .put 3 30)]
    (∃ s', afterRun ArcCache.cache.step (some (ArcCache.new 2 : ArcCache ℕ ℕ)) ops = some s' ∧
      ¬ ArcCache.cache.GetKeepsOthers 5 1 s') ∧
    (afterRun ArcCache.cache.step (some (ArcCache.new 2 : ArcCache ℕ ℕ))
      (ops ++ [(5, .get 1), (5, .get 1)])).map ArcCache.len = some 0 := by
  refine ⟨⟨_, rfl, fun keeps => ?_⟩, by decide +kernel⟩
  have still := keeps 2 (by decide) 20 (by decide +kernel)
  exact absurd still (by decide +kernel)

end

end OxiStore.Caching
