/-
**The iterators of redb.**
-/

import OxiStore.Kv.Redb

namespace OxiStore

open ByteString OrdTable Store

namespace Redb

structure Iter where
  inner : RangeIter
  remaining : ℕ

namespace Iter

def new (items : RangeIter) : Iter := ⟨items, items.length⟩

def next (iter : Iter) : Option (Except StoreError (Bytes × Bytes)) × Iter :=
  match iter.inner with
  | [] => (none, iter)
  | item :: inner => (some item, ⟨inner, iter.remaining - 1⟩)

def take : ℕ → Iter → RangeIter
  | 0, _ => []
  | n + 1, iter =>
      match iter.next with
      | (none, _) => []
      | (some item, iter) => item :: take n iter

def drain (iter : Iter) : RangeIter := take iter.remaining iter

theorem drain_new (items : RangeIter) : (new items).drain = items := by
  unfold drain
  induction items with
  | nil => rfl
  | cons item items ih => exact congrArg (item :: ·) ih

end Iter

def collectTable (inside : Bytes → Prop) [DecidablePred inside] : Call State Iter := do
  let tables ← readStore id
  pure (.new ((scan tables.data inside).map .ok))

def rangeIter (low high : Bytes) : Call State Iter := collectTable (Within low high)

def iterCollected : Call State Iter := collectTable Anywhere

def prefixIter (start : Bytes) : Call State Iter :=
  match prefixUpperBound start with
  | some high => collectTable (Within start high)
  | none => if start.isEmpty then collectTable Anywhere else collectTable (AtLeast start)

def YieldsScan (collects : Call State Iter) (scans : Call State RangeIter) (w : State) : Prop :=
  ∃ iter, collects.exec w = (.ok iter, w) ∧ scans.exec w = (.ok iter.drain, w)

theorem yieldsScan_iff {inside : Bytes → Prop} [DecidablePred inside] {scans : Call State RangeIter}
    {w : State} (lists : scans.exec w = (.ok ((w.listing inside).map .ok), w)) :
    YieldsScan (collectTable inside) scans w ↔
      ∀ key, inside key → w.stored key = true → w.elapsed key = false := by
  have collects : (collectTable inside).exec w =
      (.ok (Iter.new ((scan w.store.data inside).map .ok)), w) := rfl
  have same : YieldsScan (collectTable inside) scans w ↔
      (scan w.store.data inside).filter (fun pair => !w.elapsed pair.1) = scan w.store.data inside := by
    unfold YieldsScan
    rw [collects, lists]
    constructor
    · rintro ⟨iter, collected, listed⟩
      cases collected
      rw [Iter.drain_new] at listed
      exact List.map_injective_iff.mpr (fun _ _ same => Except.ok.inj same)
        (Except.ok.inj (congrArg Prod.fst listed))
    · intro kept
      exact ⟨_, rfl, by rw [Iter.drain_new, World.listing, kept]⟩
  rw [same, List.filter_eq_self]
  constructor
  · intro kept key within stored
    obtain ⟨value, here⟩ := Option.isSome_iff_exists.mp stored
    have member : (key, value) ∈ scan w.store.data inside :=
      ((lists_scan w.store.data inside).mem_iff key value).mpr (by rw [if_pos within, here])
    simpa using kept _ member
  · rintro live ⟨key, value⟩ member
    have here := ((lists_scan w.store.data inside).mem_iff key value).mp member
    by_cases within : inside key
    · rw [if_pos within] at here
      have stored : w.stored key = true := by rw [World.stored, here, Option.isSome_some]
      simp [live key within stored]
    · simp [within] at here

/-- **When the iterators yield what the scans do**, in any state and at any time. -/
theorem iterators_yield_scans_iff (w : State) (low high start : Bytes) :
    (YieldsScan (rangeIter low high) (range low high) w ↔
      ∀ key, Within low high key → w.stored key = true → w.elapsed key = false) ∧
    (YieldsScan iterCollected iter w ↔ ∀ key, w.stored key = true → w.elapsed key = false) ∧
    (YieldsScan (prefixIter start) (prefixScan start) w ↔
      ∀ key, StartsWith start key → w.stored key = true → w.elapsed key = false) := by
  refine ⟨yieldsScan_iff (redb.range_exec low high w), ?_, ?_⟩
  · exact (yieldsScan_iff (redb.iter_exec w)).trans (forall_congr' fun key => true_imp_iff)
  · have scans := exec_prefixScan start w
    -- The bounds of the prefix are those of the keys that start with it.
    have bounded : ∀ (inside : Bytes → Prop) [DecidablePred inside],
        (∀ key, inside key ↔ StartsWith start key) → prefixIter start = collectTable inside →
        (YieldsScan (prefixIter start) (prefixScan start) w ↔
          ∀ key, StartsWith start key → w.stored key = true → w.elapsed key = false) := by
      intro inside _ same text
      rw [text, yieldsScan_iff (scans.trans (by rw [listing_congr w same]))]
      simp only [same]
    cases bound : prefixUpperBound start with
    | some high =>
      exact bounded (Within start high) (prefixUpperBound_some_iff bound) (by rw [prefixIter, bound])
    | none =>
      by_cases empty : start.isEmpty = true
      · refine bounded Anywhere (fun key => ?_) (by simp only [prefixIter, bound, if_pos empty])
        rw [List.isEmpty_iff.mp empty]
        exact iff_of_true trivial List.nil_prefix
      · exact bounded (AtLeast start) (prefixUpperBound_none_iff bound)
          (by simp only [prefixIter, bound, if_neg empty])

theorem rangeIter_yields_elapsed : ∃ w : State, w.elapsed [1] = true ∧ w.visible [1] = none ∧
    (∃ iter, (rangeIter [0] [9]).exec w = (.ok iter, w) ∧ .ok ([1], [2]) ∈ iter.drain) ∧
    ¬ YieldsScan (rangeIter [0] [9]) (range [0] [9]) w := by
  obtain ⟨w, here, elapsed⟩ : ∃ w : State, w.store.data[([1] : Bytes)]? = some [2] ∧
      w.elapsed [1] = true := by
    refine ⟨⟨⟨(∅ : Table Bytes Bytes).insert [1] [2], (∅ : Table Bytes UInt64).insert [1] 0⟩,
      .sinceEpoch 5⟩, by rw [get_insert, if_pos rfl], ?_⟩
    unfold World.elapsed elapsed expiry
    rw [get_insert, if_pos rfl]
    rfl
  have hidden : w.visible [1] = none := by
    unfold World.visible visible
    exact if_pos elapsed
  refine ⟨w, elapsed, hidden, ⟨_, rfl, ?_⟩, fun yields => ?_⟩
  · rw [Iter.drain_new]
    refine List.mem_map.mpr ⟨_, ((lists_scan _ _).mem_iff [1] [2]).mpr ?_, rfl⟩
    rw [if_pos (by decide)]
    exact here
  · have live := (yieldsScan_iff (redb.range_exec [0] [9] w)).mp yields [1] (by decide)
      (by rw [World.stored, here, Option.isSome_some])
    simp [elapsed] at live

end Redb

end OxiStore
