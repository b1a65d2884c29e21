/-
**All read paths see one map.**
-/

import OxiStore.Kv.Engine

namespace OxiStore

open ByteString OrdTable

section

variable {E T N : Type} [Expiry E]

def Scans (result : Except StoreError RangeIter) (view : Bytes → Option Bytes)
    (inside : Bytes → Prop) [DecidablePred inside] : Prop :=
  ∃ pairs : List (Bytes × Bytes), result = .ok (pairs.map .ok) ∧
    Lists pairs fun key => if inside key then view key else none

def ScansDown (result : Except StoreError RangeIter) (view : Bytes → Option Bytes)
    (inside : Bytes → Prop) [DecidablePred inside] : Prop :=
  ∃ pairs : List (Bytes × Bytes), result = .ok (pairs.map .ok) ∧
    (pairs.Pairwise fun first second => second.1 < first.1) ∧
    Lists pairs.reverse fun key => if inside key then view key else none

/-- **Every read path of `kv` reports the same map at the moment `w`.** -/
structure ReadPathsAgree (kv : KvStore (World E) T N) (w : World E) : Prop where
  get (key : Bytes) : ((kv.get key).exec w).1 = .ok (w.visible key)
  getRef (key : Bytes) : ((kv.getRef key).exec w).1 = .ok (w.visible key)
  contains (key : Bytes) : ((kv.contains key).exec w).1 = .ok (w.visible key).isSome
  getMany (keys : List Bytes) : ((kv.getMany keys).exec w).1 = .ok (keys.map w.visible)
  range (low high : Bytes) (ordered : low ≤ high) :
    Scans ((kv.range low high).exec w).1 w.visible (Within low high)
  rangeRev (low high : Bytes) (ordered : low ≤ high) :
    ScansDown ((kv.rangeRev low high).exec w).1 w.visible (Within low high)
  prefixScan (start : Bytes) :
    Scans ((kv.prefixScan start).exec w).1 w.visible (StartsWith start)
  iter : Scans (kv.iter.exec w).1 w.visible Anywhere
  keys : ∃ pairs : List (Bytes × Bytes),
    (kv.keys.exec w).1 = .ok (pairs.map fun pair => .ok pair.1) ∧ Lists pairs w.visible
  count : ∃ pairs : List (Bytes × Bytes),
    (kv.count.exec w).1 = .ok pairs.length ∧ Lists pairs w.visible
  /-- An empty transaction. -/
  transaction : ∃ txn, kv.transaction.exec w = (.ok txn, w) ∧
    (∀ key, ((kv.txn.get txn key).exec w).1 = .ok (w.visible key)) ∧
    ∀ low high, low ≤ high → Scans ((kv.txn.range txn low high).exec w).1 w.visible (Within low high)
  /-- A fresh snapshot. -/
  snapshot : ∃ snap, kv.snapshot.exec w = (.ok snap, w) ∧
    (∀ key, ((kv.snap.get snap key).exec w).1 = .ok (w.visible key)) ∧
    ∀ low high, low ≤ high → Scans ((kv.snap.range snap low high).exec w).1 w.visible (Within low high)

theorem lists_anywhere (w : World E) : Lists (w.listing Anywhere) w.visible :=
  (lists_listing w Anywhere).congr fun _ => if_pos trivial

theorem scansDown_reverse (w : World E) (inside : Bytes → Prop) [DecidablePred inside] :
    ScansDown (.ok ((w.listing inside).map .ok).reverse) w.visible inside := by
  have lists := lists_listing w inside
  refine ⟨(w.listing inside).reverse, by rw [List.map_reverse], ?_, ?_⟩
  · exact List.pairwise_reverse.mpr lists.ascending
  · rw [List.reverse_reverse]
    exact lists

def World.evictElapsedAll (w : World E) (keys : List Bytes) : World E :=
  keys.foldl World.evictElapsed w

variable (b : Backend E T N)

theorem exec_getMany (keys : List Bytes) (w : World E) :
    (b.kv.getMany keys).exec w = (.ok (keys.map w.visible), w.evictElapsedAll keys) := by
  rw [b.getMany_eq]
  induction keys generalizing w with
  | nil => rfl
  | cons key keys ih =>
    -- The eviction of `key` is invisible, so the rest still reports the map of `w`.
    have unseen : (w.evictElapsed key).visible = w.visible := by
      funext other
      exact World.visible_evictElapsed w key other
    rw [List.mapM_cons, Call.exec_bind_ok (b.get_exec key w), Call.exec_bind_ok (ih _), unseen]
    rfl

theorem Backend.readPathsAgree (w : World E) : ReadPathsAgree b.kv w where
  get key := by rw [b.get_exec]
  getRef key := by rw [b.getRef_eq, b.get_exec]
  contains key := by
    rw [b.contains_eq, Call.exec_bind_ok (b.get_exec key w)]
    rfl
  getMany keys := by rw [exec_getMany]
  range low high _ := ⟨_, by rw [b.range_exec], lists_listing w (Within low high)⟩
  rangeRev low high _ := by
    rw [b.rangeRev_eq, Call.exec_bind_ok (b.range_exec low high w)]
    exact scansDown_reverse w (Within low high)
  prefixScan start := ⟨_, by rw [b.prefixScan_exec], lists_listing w (StartsWith start)⟩
  iter := ⟨_, by rw [b.iter_exec], lists_listing w Anywhere⟩
  keys := ⟨_, by rw [b.keys_exec], lists_anywhere w⟩
  count := ⟨_, by rw [b.count_exec], lists_anywhere w⟩
  transaction := by
    refine ⟨b.staged w.store [], b.transaction_exec w, fun key => ?_, fun low high ordered => ?_⟩
    · rw [b.txn_get_exec]
      rfl
    · refine ⟨w.listing (Within low high), ?_, lists_listing w (Within low high)⟩
      rw [b.txn_range_exec [] ordered]
      rfl
  snapshot := by
    refine ⟨b.captured w, b.snapshot_exec w, fun key => ?_, fun low high ordered => ?_⟩
    · rw [b.snap_get_exec]
    · exact ⟨_, by rw [b.snap_range_exec w w ordered], lists_listing w (Within low high)⟩

end

/-- **On every engine, over every pair of tables and at every clock, all read paths agree.** -/
theorem read_paths_agree (engine : Engine) (w : World engine.Entry) :
    ReadPathsAgree engine.kv w := by
  rw [← Engine.backend_kv]
  exact engine.backend.readPathsAgree w

end OxiStore
