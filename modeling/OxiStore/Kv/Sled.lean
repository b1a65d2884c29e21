/-
**`oxistore-kv-sled`.**
-/

import OxiStore.Kv.Sidecar

namespace OxiStore

open ByteString OrdTable Call

namespace Sled

abbrev State := Sidecar.State

/-! ### Point operations -/

def evict (key : Bytes) : Call State Unit := do
  writeStore (·.removeData key)
  writeStore (·.detach key)

def get (key : Bytes) : Call State (Option Bytes) := Sidecar.get evict key

def put (key value : Bytes) : Call State Unit := do
  writeStore (·.insertData key value)
  writeStore (·.detach key)

def delete (key : Bytes) : Call State Unit := do
  writeStore (·.removeData key)
  writeStore (·.detach key)

abbrev MergeOperator := Bytes → Option Bytes → Bytes → Option Bytes

def merge (operator : Option MergeOperator) (key value : Bytes) : Call State Unit :=
  match operator with
  | none => throw (.other ("Unsupported: must set a merge operator on this Tree before calling " ++
      "merge by calling Tree::set_merge_operator"))
  | some operator => writeStore fun s =>
      { s with data := amend s.data (key, operator key s.data[key]? value) }

def compareAndSwap (key : Bytes) (expected : Option Bytes) (newValue : Bytes) : Call State Bool := do
  let swapped ← Call.swap (fun w => decide (w.store.data[key]? = expected))
    (World.onStore fun s => if s.data[key]? = expected then s.insertData key newValue else s)
  if swapped then
    writeStore (·.detach key)
    pure true
  else
    pure false

/-! ### Batches -/

def batchWrite (pairs : List (Bytes × Bytes)) : Call State Unit := do
  writeStore fun s => { s with data := pairs.foldl (fun tree pair => tree.insert pair.1 pair.2) s.data }
  writeStore fun s => { s with ttl := pairs.foldl (fun tree pair => tree.erase pair.1) s.ttl }

def batchDelete (keys : List Bytes) : Call State Unit := do
  writeStore fun s => { s with data := keys.foldl (fun tree key => tree.erase key) s.data }
  writeStore fun s => { s with ttl := keys.foldl (fun tree key => tree.erase key) s.ttl }

/-! ### Expiry -/

def putWithTtl (key value : Bytes) (ttl : Duration) : Call State Unit :=
  putWithTtlBy (fun expiry => do
    writeStore (·.insertData key value)
    writeStore (·.attach key (encodeExpiry expiry))) ttl

def expire (key : Bytes) (ttl : Duration) : Call State Unit := expireStored key ttl

def ttl (key : Bytes) : Call State (Option Duration) := Sidecar.ttl evict key

def persist (key : Bytes) : Call State Bool := do
  let dataExists ← readStore fun s => s.data[key]?.isSome
  if !dataExists then
    throw .keyNotFound
  Call.swap (fun w => w.store.ttl[key]?.isSome) (World.onStore (·.detach key))

def purgeEntries : List (Bytes × Bytes) → Call State ℕ
  | [] => pure 0
  | (key, expiryBytes) :: entries => do
      if ← entryExpired expiryBytes then
        writeStore (·.removeData key)
        writeStore (·.detach key)
        let count ← purgeEntries entries
        pure (count + 1)
      else
        purgeEntries entries

def purgeExpired : Call State ℕ := do
  let entries ← readStore (·.ttl.toList)
  purgeEntries entries

/-! ### `SledTxn` -/

structure Txn where
  ops : List (Bytes × TxnOp)
  overlay : Overlay
  rolledBack : Bool

namespace Txn

def get (txn : Txn) (key : Bytes) : Call State (Option Bytes) := Sidecar.txnGet txn.overlay key

def put (txn : Txn) (key value : Bytes) : Call State Txn :=
  pure { txn with
    overlay := txn.overlay.insert key (.put value)
    ops := txn.ops ++ [(key, .put value)] }

def delete (txn : Txn) (key : Bytes) : Call State Txn :=
  pure { txn with
    overlay := txn.overlay.insert key .delete
    ops := txn.ops ++ [(key, .delete)] }

def range (txn : Txn) (low high : Bytes) : Call State RangeIter :=
  Sidecar.txnRange txn.overlay low high

def ahead (inside : Bytes → Prop) [DecidablePred inside] (last : Option Bytes) (s : Store Bytes) :
    List (Bytes × Bytes) :=
  (scan s.data inside).filter fun pair => last.all (· < pair.1)

def scanPages (inside : Bytes → Prop) [DecidablePred inside] :
    List ℕ → Option Bytes → Call State (List (Bytes × Bytes))
  | [], _ => throw (.other "scanning")
  | size :: sizes, last => do
      let page ← readStore fun s => (ahead inside last s).take (size + 1)
      match page.getLast? with
      | none => pure []
      | some pair => do
          let kept ← keepUnexpired Sidecar.isTtlExpired page
          let rest ← scanPages inside sizes (some pair.1)
          pure (kept ++ rest)

def rangeInPages (sizes : List ℕ) (txn : Txn) (low high : Bytes) : Call State RangeIter :=
  Sidecar.txnRangeOver (scanPages (Within low high) sizes none) txn.overlay low high

def closure (txn : Txn) (s : Store Bytes) : Store Bytes :=
  { s with data := amendAll s.data (txn.ops.map fun op => (op.1, op.2.change)) }

def clearTtl : List (Bytes × TxnOp) → Call State Unit
  | [] => pure ()
  | op :: ops => do
      writeStore (·.detach op.1)
      clearTtl ops

def commit (txn : Txn) : Call State Unit :=
  if txn.rolledBack then pure ()
  else do
    writeStore txn.closure
    clearTtl txn.ops

def rollback (_ : Txn) : Call State Unit := pure ()

end Txn

def transaction : Call State Txn := pure ⟨[], ∅, false⟩

/-! ### `SledSnapshot` -/

structure Snapshot where
  data : Table Bytes Bytes

namespace Snapshot

def get (snap : Snapshot) (key : Bytes) : Call State (Option Bytes) := pure snap.data[key]?

def range (snap : Snapshot) (low high : Bytes) : Call State RangeIter :=
  if high < low then throw (.panicked "range start is greater than range end in BTreeMap")
  else pure ((scan snap.data (Within low high)).map .ok)

end Snapshot

def snapshot : Call State Snapshot := do
  let entries ← readStore (·.ttl.toList)
  let expired ← collectExpired entries
  let items ← readStore (·.data.toList)
  let kept := items.filter fun item => !expired.contains item.1
  pure ⟨amendAll ∅ (kept.map fun item => (item.1, some item.2))⟩

/-! ### The `KvStore` -/

def store : KvStore State Txn Snapshot where
  get := get
  put := put
  delete := delete
  range := Sidecar.range
  iter := Sidecar.iter
  transaction := transaction
  txn :=
    { get := Txn.get
      put := Txn.put
      delete := Txn.delete
      range := Txn.range
      commit := Txn.commit
      rollback := Txn.rollback }
  snapshot := snapshot
  snap := { get := Snapshot.get, range := Snapshot.range }
  flush := pure ()
  prefixScan := Sidecar.prefixScan
  batchWrite := batchWrite
  batchDelete := batchDelete
  count := Sidecar.count
  keys := Sidecar.keys
  compareAndSwap := compareAndSwap
  putWithTtl := putWithTtl
  expire := expire
  ttl := ttl
  persist := persist
  purgeExpired := purgeExpired

/-! ### What each method does alone -/

theorem exec_compareAndSwap (key : Bytes) (expected : Option Bytes) (newValue : Bytes) (w : State) :
    (compareAndSwap key expected newValue).exec w =
      if w.store.data[key]? = expected then (.ok true, w.onStore (·.write key newValue))
      else (.ok false, w) := by
  unfold compareAndSwap
  rw [exec_bind_ok (exec_swap _ _ w)]
  by_cases matching : w.store.data[key]? = expected
  · rw [if_pos matching, if_pos (decide_eq_true matching)]
    show (_, ({ store := _, clock := w.clock } : State)) = _
    simp only [World.onStore, if_pos matching]
    rfl
  · rw [if_neg matching, if_neg (by simpa using matching)]
    show (_, ({ store := _, clock := w.clock } : State)) = _
    simp only [if_neg matching]

theorem exec_purgeEntries (entries : List (Bytes × Bytes)) (w : State) :
    (purgeEntries entries).exec w =
      (.ok (entries.filter fun entry => (decodeExpiry entry.2).any (isExpired w.clock)).length,
        w.onStore (·.evictAll ((entries.filter fun entry =>
          (decodeExpiry entry.2).any (isExpired w.clock)).map Prod.fst))) := by
  induction entries generalizing w with
  | nil => rfl
  | cons entry entries ih =>
    obtain ⟨key, expiryBytes⟩ := entry
    unfold purgeEntries
    rw [exec_bind_ok (exec_entryExpired expiryBytes w)]
    change (if (decodeExpiry expiryBytes).any (isExpired w.clock) = true then _ else _ :
      Call State ℕ).exec w = _
    cases expired : (decodeExpiry expiryBytes).any (isExpired w.clock) with
    | false =>
      rw [if_neg Bool.false_ne_true, ih w, List.filter_cons_of_neg (by simp [expired])]
    | true =>
      rw [if_pos rfl, List.filter_cons_of_pos (by simp [expired])]
      rw [exec_bind_ok (exec_writeStore _ w), exec_bind_ok (exec_writeStore _ _),
        exec_bind_ok (ih _)]
      rfl

theorem exec_clearTtl (ops : List (Bytes × TxnOp)) (w : State) : (Txn.clearTtl ops).exec w =
    (.ok (), w.onStore fun s => { s with ttl := ops.foldl (fun ttl op => ttl.erase op.1) s.ttl }) := by
  induction ops generalizing w with
  | nil => rfl
  | cons op ops ih =>
    unfold Txn.clearTtl
    rw [exec_bind_ok (exec_writeStore _ w), ih]
    rfl

def staged (ops : List (Bytes × TxnOp)) : Txn := ⟨ops, overlayOf ops, false⟩

theorem exec_txn_commit (ops : List (Bytes × TxnOp)) (w : State) :
    ((staged ops).commit).exec w = (.ok (), w.onStore (·.stageAll ops)) := by
  show (writeStore (staged ops).closure >>= _ : Call State _).exec w = _
  rw [exec_bind_ok (exec_writeStore _ w), exec_clearTtl]
  show _ = (Except.ok (), (⟨w.store.stageAll ops, w.clock⟩ : State))
  rw [Store.stageAll_eq]
  rfl

theorem exec_batchWrite (pairs : List (Bytes × Bytes)) (w : State) : (batchWrite pairs).exec w =
    (.ok (), w.onStore (·.stageAll (pairs.map fun pair => (pair.1, .put pair.2)))) := by
  show _ = (Except.ok (), (⟨w.store.stageAll _, w.clock⟩ : State))
  rw [Store.stageAll_eq, List.map_map, List.foldl_map, amendAll, List.foldl_map]
  rfl

theorem exec_batchDelete (keys : List Bytes) (w : State) : (batchDelete keys).exec w =
    (.ok (), w.onStore (·.stageAll (keys.map fun key => (key, .delete)))) := by
  show _ = (Except.ok (), (⟨w.store.stageAll _, w.clock⟩ : State))
  rw [Store.stageAll_eq, List.map_map, List.foldl_map, amendAll, List.foldl_map]
  rfl

theorem exec_persist (key : Bytes) (w : State) : (persist key).exec w =
    if w.stored key then (.ok w.store.ttl[key]?.isSome, w.onStore (·.detach key))
    else (.error .keyNotFound, w) := by
  unfold persist World.stored
  rw [exec_bind_ok (exec_readStore _ w)]
  cases w.store.data[key]? <;> rfl

def captured (w : State) : Snapshot :=
  ⟨amendAll ∅ ((w.store.data.toList.filter fun item => !w.expiredKeys.contains item.1).map
    fun item => (item.1, some item.2))⟩

theorem exec_snapshot (w : State) : snapshot.exec w = (.ok (captured w), w) := by
  unfold snapshot
  rw [exec_bind_ok (exec_readStore _ w), exec_bind_ok (exec_collectExpired w)]
  rfl

theorem get_captured (w : State) (key : Bytes) : (captured w).data[key]? = w.visible key := by
  have kept := (lists_toList w.store.data).filter fun key => !w.expiredKeys.contains key
  unfold captured World.visible Store.visible
  rw [get_amendAll, latest_map, kept.latest]
  have tested : w.expiredKeys.contains key = w.elapsed key := by
    rw [Bool.eq_iff_iff, List.contains_iff_mem, mem_expiredKeys]
  rw [tested]
  show _ = if w.elapsed key = true then none else w.store.data[key]?
  cases w.elapsed key with
  | true => rfl
  | false =>
    cases w.store.data[key]? <;> rfl

theorem exec_snap_range (w w' : State) {low high : Bytes} (ordered : low ≤ high) :
    ((captured w).range low high).exec w' = (.ok ((w.listing (Within low high)).map .ok), w') := by
  have same : scan (captured w).data (Within low high) = w.listing (Within low high) := by
    refine ((lists_scan (captured w).data (Within low high)).congr fun key => ?_).unique
      (lists_listing w (Within low high))
    rw [get_captured]
  unfold Snapshot.range
  rw [if_neg (not_lt.mpr ordered), same]
  rfl

end Sled

def sled : Backend Bytes Sled.Txn Sled.Snapshot where
  kv := Sled.store
  casSees w key := w.store.data[key]?
  remaining := Sidecar.remaining
  staged _ := Sled.staged
  captured := Sled.captured
  get_exec := Sidecar.exec_get fun _ _ => rfl
  getRef_eq := rfl
  getMany_eq _ := rfl
  contains_eq _ := rfl
  put_exec _ _ _ := rfl
  delete_exec _ _ := rfl
  range_exec _ _ := Sidecar.exec_scanned rfl
  rangeRev_eq _ _ := rfl
  prefixScan_exec _ := Sidecar.exec_scanned rfl
  iter_exec := Sidecar.exec_scanned rfl
  keys_exec := Sidecar.exec_scanned rfl
  count_exec := Sidecar.exec_scanned rfl
  batchWrite_exec := Sled.exec_batchWrite
  batchDelete_exec := Sled.exec_batchDelete
  compareAndSwap_exec := Sled.exec_compareAndSwap
  putWithTtl_exec _ _ ttl w := exec_putWithTtlBy (fun _ _ => rfl) ttl w
  expire_exec := exec_expireStored
  ttl_exec := Sidecar.exec_ttl fun _ _ => rfl
  persist_exec := Sled.exec_persist
  purgeExpired_exec w := by
    show (readStore _ >>= _ : Call Sled.State ℕ).exec w = _
    rw [Call.exec_bind_ok (exec_readStore _ w), Sled.exec_purgeEntries, ← List.length_map Prod.fst]
    rfl
  transaction_exec _ := rfl
  txn_put_exec s ops key value _ := by
    rw [Sled.staged, Sled.staged, overlayOf_concat]
    rfl
  txn_delete_exec s ops key _ := by
    rw [Sled.staged, Sled.staged, overlayOf_concat]
    rfl
  txn_get_exec := Sidecar.exec_txnGet
  txn_range_exec ops _ _ ordered w := Sidecar.exec_txnRange ops ordered w
  txn_range_panics := Sidecar.exec_txnRange_reversed
  txn_commit_exec := Sled.exec_txn_commit
  txn_rollback_exec _ _ _ := rfl
  snapshot_exec := Sled.exec_snapshot
  snap_get_exec w w' key := by
    show (Except.ok (Sled.captured w).data[key]?, w') = _
    rw [Sled.get_captured]
  snap_range_exec w w' _ _ ordered := Sled.exec_snap_range w w' ordered
  snap_range_quiet w w' low high := by
    show ((if high < low then _ else _ : Call Sled.State RangeIter).exec w').2 = w'
    split_ifs with reversed
    all_goals rfl
  flush_exec _ := rfl
  compact_exec _ := rfl

end OxiStore
