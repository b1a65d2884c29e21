/-
**The two default `prefix_scan`s.**
-/

import OxiStore.Kv.ReadOnly

namespace OxiStore

open ByteString

section

variable {S : Type} {view : Bytes → Option Bytes} {result : Except StoreError RangeIter}
  {inside : Bytes → Prop}

theorem Scans.congr {inside' : Bytes → Prop} [DecidablePred inside] [DecidablePred inside']
    (scans : Scans result view inside) (same : ∀ key, inside key ↔ inside' key) :
    Scans result view inside' := by
  obtain ⟨pairs, answer, lists⟩ := scans
  refine ⟨pairs, answer, lists.congr fun key => ?_⟩
  simp only [same]

theorem Scans.unique {result' : Except StoreError RangeIter} [DecidablePred inside]
    (first : Scans result view inside) (second : Scans result' view inside) :
    result = result' := by
  obtain ⟨pairs, rfl, lists⟩ := first
  obtain ⟨pairs', rfl, lists'⟩ := second
  rw [lists.unique lists']

theorem Scans.other_iff {inside' : Bytes → Prop} [DecidablePred inside] [DecidablePred inside']
    (scans : Scans result view inside) :
    Scans result view inside' ↔
      ∀ key, (if inside key then view key else none) = if inside' key then view key else none := by
  obtain ⟨pairs, rfl, lists⟩ := scans
  constructor
  · rintro ⟨pairs', answer, lists'⟩
    have same : pairs = pairs' :=
      List.map_injective_iff.mpr (fun _ _ => Except.ok.inj) (Except.ok.inj answer)
    rw [← same] at lists'
    exact lists.view_eq lists'
  · exact fun same => ⟨pairs, rfl, lists.congr same⟩

theorem Scans.filter_prefix {items : RangeIter} (start : Bytes)
    (scans : Scans (.ok items) view Anywhere) :
    Scans (.ok (items.filter fun item => match item with
      | .ok (key, _) => start.isPrefixOf key
      | .error _ => true)) view (StartsWith start) := by
  obtain ⟨pairs, answer, lists⟩ := scans
  cases answer
  refine ⟨pairs.filter fun pair => start.isPrefixOf pair.1, ?_, ?_⟩
  · rw [List.filter_map]
    rfl
  · refine (lists.filter fun key => start.isPrefixOf key).congr fun key => ?_
    rw [if_pos (show Anywhere key from trivial)]
    exact if_congr List.isPrefixOf_iff_prefix rfl rfl

variable {range : Bytes → Bytes → Call S RangeIter}

theorem scans_prefixScanByScans {iter : Call S RangeIter} {s : S}
    (ranges : ∀ low high, low ≤ high → Scans ((range low high).exec s).1 view (Within low high))
    (iterates : Scans (iter.exec s).1 view Anywhere) (start : Bytes) :
    Scans ((prefixScanByScans range iter start).exec s).1 view (StartsWith start) := by
  unfold prefixScanByScans
  split_ifs with empty
  · rw [List.isEmpty_iff.mp empty]
    exact iterates.congr fun key => iff_of_true trivial List.nil_prefix
  · cases found : prefixUpperBound start with
    | some high =>
      exact (ranges start high (le_prefixUpperBound found)).congr (prefixUpperBound_some_iff found)
    | none =>
      show Scans ((iter >>= _ : Call S RangeIter).exec s).1 view _
      rw [Call.exec_bind]
      rcases iterated : iter.exec s with ⟨result, after⟩
      rw [iterated] at iterates
      cases result with
      | ok items => exact iterates.filter_prefix start
      | error error => exact absurd iterates (by rintro ⟨_, impossible, _⟩; cases impossible)

/-- **What the `prefix_scan` of a snapshot lists**: nothing under a prefix of `0xFF` only. -/
def SnapshotLists (start key : Bytes) : Prop := StartsWith start key ∧ ¬ ∀ byte ∈ start, byte = 0xFF

instance (start : Bytes) : DecidablePred (SnapshotLists start) := fun _ =>
  inferInstanceAs (Decidable (_ ∧ _))

theorem snapPrefixScanByRange_eq (range : Bytes → Bytes → Call S RangeIter) (start : Bytes) :
    ∃ low high, low ≤ high ∧ snapPrefixScanByRange range start = range low high ∧
      ∀ key, Within low high key ↔ SnapshotLists start key := by
  unfold snapPrefixScanByRange
  cases found : prefixUpperBound start with
  | some high =>
    refine ⟨start, high, le_prefixUpperBound found, rfl, fun key => ?_⟩
    have bounded : ¬ ∀ byte ∈ start, byte = 0xFF := fun full => by
      simp [prefixUpperBound_eq_none_iff.mpr full] at found
    exact (prefixUpperBound_some_iff found key).trans (and_iff_left bounded).symm
  | none =>
    refine ⟨[], [], le_rfl, rfl, fun key => ?_⟩
    refine iff_of_false (fun inside => ?_) fun stated => stated.2 (prefixUpperBound_eq_none_iff.mp found)
    exact absurd inside.2 (List.not_lt_nil key)

theorem scans_snapPrefixScanByRange {s : S}
    (ranges : ∀ low high, low ≤ high → Scans ((range low high).exec s).1 view (Within low high))
    (start : Bytes) :
    Scans ((snapPrefixScanByRange range start).exec s).1 view (SnapshotLists start) := by
  obtain ⟨low, high, ordered, same, inside⟩ := snapPrefixScanByRange_eq range start
  rw [same]
  exact (ranges low high ordered).congr inside

end

/-- **The default `prefix_scan` of a store lists exactly the pairs under the prefix, ascending**, in
any state whose `range` and `iter` list the same map; and what that rests on: the range of a prefix
holds its extensions, and it has no end exactly if the prefix is empty or all `0xFF`. -/
theorem prefix_scan_lists {S T N : Type} (kv : KvStore S T N)
    (inherits : kv.prefixScan = prefixScanByScans kv.range kv.iter) (s : S)
    (view : Bytes → Option Bytes)
    (ranges : ∀ low high, low ≤ high → Scans ((kv.range low high).exec s).1 view (Within low high))
    (iterates : Scans (kv.iter.exec s).1 view Anywhere) (start : Bytes) :
    Scans ((kv.prefixScan start).exec s).1 view (StartsWith start) ∧
      (∀ bound, prefixUpperBound start = some bound →
        ∀ key, (start ≤ key ∧ key < bound) ↔ start <+: key) ∧
      (prefixUpperBound start = none ↔ start = [] ∨ ∀ byte ∈ start, byte = 0xFF) := by
  refine ⟨?_, fun bound found key => prefixUpperBound_some_iff found key, ?_⟩
  · rw [inherits]
    exact scans_prefixScanByScans ranges iterates start
  · rw [prefixUpperBound_eq_none_iff]
    constructor
    · exact Or.inr
    · rintro (rfl | full)
      · exact fun byte member => absurd member List.not_mem_nil
      · exact full

theorem prefix_scan_lists_read_only :
    Scans (((readOnlyStore Redb.store).prefixScan [107]).exec .expiringPair).1
      (World.expiringPair : World UInt64).visible (StartsWith [107]) :=
  (prefix_scan_lists (readOnlyStore Redb.store) rfl .expiringPair
    (World.expiringPair : World UInt64).visible
    (fun low high ordered => (redb.readPathsAgree .expiringPair).range low high ordered)
    (redb.readPathsAgree .expiringPair).iter [107]).1

def SnapshotScansAll {S N : Type} (snap : KvSnapshot S N) (taken : N) (s : S) (start : Bytes) : Prop :=
  (∃ byte ∈ start, byte ≠ 0xFF) ∨
    ∀ key, start <+: key → ((snap.get taken key).exec s).1 = .ok none

theorem snapshotScansAll_iff {S N : Type} {snap : KvSnapshot S N} {taken : N} {s : S}
    {view : Bytes → Option Bytes} (gets : ∀ key, ((snap.get taken key).exec s).1 = .ok (view key))
    (start : Bytes) :
    (∀ key, (if SnapshotLists start key then view key else none) =
        if StartsWith start key then view key else none) ↔ SnapshotScansAll snap taken s start := by
  unfold SnapshotScansAll
  constructor
  · intro same
    by_cases full : ∀ byte ∈ start, byte = 0xFF
    · refine .inr fun key under => ?_
      have absent := same key
      rw [if_neg fun both => both.2 full, if_pos (show StartsWith start key from under)] at absent
      rw [gets, ← absent]
    · simp only [not_forall] at full
      obtain ⟨byte, member, notFull⟩ := full
      exact .inl ⟨byte, member, notFull⟩
  · rintro (⟨byte, member, notFull⟩ | nothing) key
    · exact if_congr (and_iff_left fun full => notFull (full byte member)) rfl rfl
    · by_cases under : StartsWith start key
      · have absent : view key = none := Except.ok.inj ((gets key).symm.trans (nothing key under))
        rw [absent, ite_self, ite_self]
      · rw [if_neg under, if_neg fun both => under both.1]

/-- **The default `prefix_scan` of a snapshot lists the pairs under the prefix exactly when the prefix
has a byte below `0xFF` or nothing is under it**, if the snapshot's `get` and `range` report one map;
and exactly then it answers as the `prefix_scan` of a store with the same contents does. -/
theorem snapshot_prefix_scan_iff {S N : Type} (snap : KvSnapshot S N)
    (inherits : ∀ taken, snap.prefixScan taken = snapPrefixScanByRange (snap.range taken)) (taken : N)
    (s : S) (view : Bytes → Option Bytes)
    (gets : ∀ key, ((snap.get taken key).exec s).1 = .ok (view key))
    (ranges : ∀ low high, low ≤ high →
      Scans ((snap.range taken low high).exec s).1 view (Within low high)) (start : Bytes) :
    (Scans ((snap.prefixScan taken start).exec s).1 view (StartsWith start) ↔
        SnapshotScansAll snap taken s start) ∧
      ∀ {S' T' N' : Type} (kv : KvStore S' T' N') (s' : S'),
        kv.prefixScan = prefixScanByScans kv.range kv.iter →
        (∀ low high, low ≤ high → Scans ((kv.range low high).exec s').1 view (Within low high)) →
        Scans (kv.iter.exec s').1 view Anywhere →
        (((snap.prefixScan taken start).exec s).1 = ((kv.prefixScan start).exec s').1 ↔
          SnapshotScansAll snap taken s start) := by
  have scanned := scans_snapPrefixScanByRange ranges start
  rw [← inherits] at scanned
  have exact_iff : Scans ((snap.prefixScan taken start).exec s).1 view (StartsWith start) ↔
      SnapshotScansAll snap taken s start :=
    scanned.other_iff.trans (snapshotScansAll_iff gets start)
  refine ⟨exact_iff, fun kv s' live liveRanges liveIterates => ?_⟩
  have right := scans_prefixScanByScans liveRanges liveIterates start
  rw [← live] at right
  rw [← exact_iff]
  constructor
  · intro same
    rw [same]
    exact right
  · exact fun scans => scans.unique right

theorem snapshot_prefix_scan_bounded :
    ((Redb.store.snap.prefixScan (redb.captured .expiringPair) [107]).exec .expiringPair).1 =
      (((readOnlyStore Redb.store).prefixScan [107]).exec .expiringPair).1 := by
  have agree := redb.readPathsAgree .expiringPair
  refine ((snapshot_prefix_scan_iff Redb.store.snap (fun _ => rfl) (redb.captured .expiringPair)
    .expiringPair (World.expiringPair : World UInt64).visible
    (fun key => congrArg Prod.fst (redb.snap_get_exec _ _ key))
    (fun low high ordered => ?_) [107]).2 (readOnlyStore Redb.store) .expiringPair rfl
    (fun low high ordered => agree.range low high ordered) agree.iter).mpr
    (Or.inl ⟨107, List.mem_cons_self, by decide⟩)
  exact ⟨_, congrArg Prod.fst (redb.snap_range_exec _ _ ordered), lists_listing _ _⟩

theorem snapshot_prefix_scan_empty_prefix :
    ((Redb.store.prefixScan []).exec .expiringPair).1 = .ok [.ok ([107], [97])] ∧
      ((Redb.store.snap.prefixScan (redb.captured .expiringPair) []).exec .expiringPair).1 = .ok [] ∧
      ((Redb.store.snap.get (redb.captured .expiringPair) [107]).exec .expiringPair).1 =
        .ok (some [97]) := by
  refine ⟨?_, ?_, ?_⟩
  all_goals decide

end OxiStore
