/-
**`oxistore-kv-fjall`.**
-/

import OxiStore.Kv.Sidecar

namespace OxiStore

open ByteString OrdTable

namespace Fjall

abbrev State := Sidecar.State

/-! ### Write batches -/

inductive BatchItem where
  | insert (key value : Bytes)
  | remove (key : Bytes)
  | insertTtl (key entry : Bytes)
  | removeTtl (key : Bytes)
deriving DecidableEq

def BatchItem.apply (s : Store Bytes) : BatchItem → Store Bytes
  | .insert key value => s.insertData key value
  | .remove key => s.removeData key
  | .insertTtl key entry => s.attach key entry
  | .removeTtl key => s.detach key

def commitBatch (items : List BatchItem) : Call State Unit :=
  writeStore fun s => items.foldl BatchItem.apply s

def itemsOf (op : Bytes × TxnOp) : List BatchItem :=
  match op.2 with
  | .put value => [.insert op.1 value, .removeTtl op.1]
  | .delete => [.remove op.1, .removeTtl op.1]

/-! ### Point operations -/

def evict (key : Bytes) : Call State Unit := commitBatch [.remove key, .removeTtl key]

def get (key : Bytes) : Call State (Option Bytes) := Sidecar.get evict key

def put (key value : Bytes) : Call State Unit := commitBatch [.insert key value, .removeTtl key]

def delete (key : Bytes) : Call State Unit := commitBatch [.remove key, .removeTtl key]

def putReturning (key value : Bytes) : Call State (Option Bytes) := do
  let prev ← get key
  put key value
  pure prev

def deleteReturning (key : Bytes) : Call State (Option Bytes) := do
  let prev ← get key
  if prev.isSome then
    delete key
  pure prev

/-! ### Batches -/

def batchWrite (pairs : List (Bytes × Bytes)) : Call State Unit :=
  commitBatch (pairs.flatMap fun pair => [.insert pair.1 pair.2, .removeTtl pair.1])

def batchDelete (keys : List Bytes) : Call State Unit :=
  commitBatch (keys.flatMap fun key => [.remove key, .removeTtl key])

def batchWriteAcross (keyspace : String) (writes : List (String × List (Bytes × Bytes))) :
    Call State Unit :=
  commitBatch (writes.flatMap fun write => write.2.flatMap fun pair =>
    if write.1 = keyspace then [.insert pair.1 pair.2]
    else if write.1 = "__ttl__" then [.insertTtl pair.1 pair.2]
    else [])

/-! ### Expiry -/

def putWithTtl (key value : Bytes) (ttl : Duration) : Call State Unit :=
  putWithTtlBy (fun expiry => commitBatch
    [.insert key value, .insertTtl key (encodeExpiry expiry)]) ttl

def expire (key : Bytes) (ttl : Duration) : Call State Unit := expireStored key ttl

def ttl (key : Bytes) : Call State (Option Duration) := Sidecar.ttl evict key

def persist (key : Bytes) : Call State Bool := do
  let dataExists ← readStore fun s => s.data[key]?.isSome
  if !dataExists then
    throw .keyNotFound
  let hadTtl ← readStore fun s => s.ttl[key]?.isSome
  if hadTtl then
    writeStore (·.detach key)
  pure hadTtl

def purgeExpired : Call State ℕ := do
  let entries ← readStore (·.ttl.toList)
  let expiredKeys ← collectExpired entries
  if expiredKeys.isEmpty then
    return 0
  commitBatch (expiredKeys.flatMap fun key => [.remove key, .removeTtl key])
  pure expiredKeys.length

/-! ### `FjallTxn` -/

structure Txn where
  batch : Option (List BatchItem)
  overlay : Overlay

namespace Txn

def get (txn : Txn) (key : Bytes) : Call State (Option Bytes) := Sidecar.txnGet txn.overlay key

def record (txn : Txn) (key : Bytes) (op : TxnOp) : Call State Txn :=
  match txn.batch with
  | none => throw (.other "transaction already consumed")
  | some batch => pure ⟨some (batch ++ itemsOf (key, op)), txn.overlay.insert key op⟩

def put (txn : Txn) (key value : Bytes) : Call State Txn := txn.record key (.put value)

def delete (txn : Txn) (key : Bytes) : Call State Txn := txn.record key .delete

def range (txn : Txn) (low high : Bytes) : Call State RangeIter :=
  Sidecar.txnRange txn.overlay low high

def commit (txn : Txn) : Call State Unit :=
  match txn.batch with
  | none => throw (.other "transaction already consumed")
  | some batch => commitBatch batch

def rollback (_ : Txn) : Call State Unit := pure ()

end Txn

def transaction : Call State Txn := pure ⟨some [], ∅⟩

/-! ### `FjallSnap` -/

structure Snapshot where
  snap : Store Bytes
  capturedAtMillis : UInt64

namespace Snapshot

def expiredAtCapture (snap : Snapshot) (key : Bytes) : Bool :=
  match snap.snap.ttl[key]? with
  | some expiryBytes =>
      match decodeExpiry expiryBytes with
      | some expiryMillis => decide (expiryMillis ≤ snap.capturedAtMillis)
      | none => false
  | none => false

def get (snap : Snapshot) (key : Bytes) : Call State (Option Bytes) :=
  if snap.expiredAtCapture key then pure none
  else pure snap.snap.data[key]?

def range (snap : Snapshot) (low high : Bytes) : Call State RangeIter := do
  let pairs ← keepUnexpired (fun key => pure (snap.expiredAtCapture key))
    (scan snap.snap.data (Within low high))
  pure (pairs.map .ok)

end Snapshot

def snapshot : Call State Snapshot := do
  let snap ← readStore id
  let now ← systemTimeNow
  pure ⟨snap, nowEpochMillis now⟩

/-! ### The `KvStore` -/

def store : KvStore State Txn Snapshot where
  get := get
  put := put
  delete := delete
  range := Sidecar.range
  iter := Sidecar.iter
  transaction := transaction
  txn :=
    { get := Txn.get
      put := Txn.put
      delete := Txn.delete
      range := Txn.range
      commit := Txn.commit
      rollback := Txn.rollback }
  snapshot := snapshot
  snap := { get := Snapshot.get, range := Snapshot.range }
  flush := pure ()
  prefixScan := Sidecar.prefixScan
  batchWrite := batchWrite
  batchDelete := batchDelete
  count := Sidecar.count
  keys := Sidecar.keys
  putWithTtl := putWithTtl
  expire := expire
  ttl := ttl
  persist := persist
  purgeExpired := purgeExpired

/-! ### What each method does alone -/

theorem foldl_itemsOf (s : Store Bytes) (op : Bytes × TxnOp) :
    (itemsOf op).foldl BatchItem.apply s = s.stage op := by
  obtain ⟨key, value | -⟩ := op
  all_goals rfl

theorem exec_commitBatch (ops : List (Bytes × TxnOp)) (w : State) :
    (commitBatch (ops.flatMap itemsOf)).exec w = (.ok (), w.onStore (·.stageAll ops)) := by
  have folded : (ops.flatMap itemsOf).foldl BatchItem.apply w.store = w.store.stageAll ops := by
    rw [List.foldl_flatMap]
    unfold Store.stageAll
    simp only [foldl_itemsOf]
  show (Except.ok (), (⟨(ops.flatMap itemsOf).foldl BatchItem.apply w.store, w.clock⟩ : State)) = _
  rw [folded]
  rfl

theorem exec_batchWrite (pairs : List (Bytes × Bytes)) (w : State) : (batchWrite pairs).exec w =
    (.ok (), w.onStore (·.stageAll (pairs.map fun pair => (pair.1, .put pair.2)))) := by
  rw [← exec_commitBatch, List.flatMap_map]
  rfl

theorem exec_batchDelete (keys : List Bytes) (w : State) : (batchDelete keys).exec w =
    (.ok (), w.onStore (·.stageAll (keys.map fun key => (key, .delete)))) := by
  rw [← exec_commitBatch, List.flatMap_map]
  rfl

theorem exec_persist (key : Bytes) (w : State) : (persist key).exec w =
    if w.stored key then (.ok w.store.ttl[key]?.isSome, w.onStore (·.detach key))
    else (.error .keyNotFound, w) := by
  unfold persist World.stored
  rw [Call.exec_bind_ok (exec_readStore _ w)]
  cases w.store.data[key]? with
  | none => rfl
  | some value =>
    show (readStore _ >>= _ : Call State _).exec w = _
    rw [Call.exec_bind_ok (exec_readStore _ w)]
    cases entry : w.store.ttl[key]? with
    | some expiryBytes => rfl
    | none =>
      show _ = (Except.ok false, (⟨w.store.detach key, w.clock⟩ : State))
      rw [Store.detach_absent entry]
      rfl

theorem purgeExpired_eq : purgeExpired = purgeCollected := by
  simp only [purgeExpired, commitBatch, List.foldl_flatMap]
  rfl

theorem exec_purgeExpired (w : State) : purgeExpired.exec w =
    (.ok w.expiredKeys.length, w.onStore (·.evictAll w.expiredKeys)) :=
  purgeExpired_eq ▸ exec_purgeCollected w

/-! ### Transactions and snapshots -/

def staged (ops : List (Bytes × TxnOp)) : Txn := ⟨some (ops.flatMap itemsOf), overlayOf ops⟩

theorem exec_record (ops : List (Bytes × TxnOp)) (key : Bytes) (op : TxnOp) (w : State) :
    ((staged ops).record key op).exec w = (.ok (staged (ops ++ [(key, op)])), w) := by
  rw [staged, staged, overlayOf_concat, List.flatMap_append, List.flatMap_singleton]
  rfl

def captured (w : State) : Snapshot := ⟨w.store, nowEpochMillis w.clock⟩

theorem expiredAtCapture_eq (w : State) (key : Bytes) :
    (captured w).expiredAtCapture key = w.elapsed key := by
  unfold Snapshot.expiredAtCapture captured World.elapsed Store.elapsed Store.expiry
  cases w.store.ttl[key]? with
  | none => rfl
  | some expiryBytes =>
    show (match decodeExpiry expiryBytes with
      | some expiryMillis => decide (expiryMillis ≤ nowEpochMillis w.clock)
      | none => false) = (decodeExpiry expiryBytes).any (isExpired w.clock)
    cases decodeExpiry expiryBytes <;> rfl

theorem exec_snap_get (w w' : State) (key : Bytes) :
    ((captured w).get key).exec w' = (.ok (w.visible key), w') := by
  unfold Snapshot.get World.visible Store.visible
  rw [expiredAtCapture_eq]
  change (if w.elapsed key = true then _ else _ : Call State _).exec w' =
    (Except.ok (if w.elapsed key = true then _ else _), w')
  split_ifs with elapsed
  all_goals rfl

theorem exec_snap_range (w w' : State) (low high : Bytes) :
    ((captured w).range low high).exec w' = (.ok ((w.listing (Within low high)).map .ok), w') := by
  unfold Snapshot.range
  refine Call.exec_bind_ok (exec_keepUnexpired (fun key => ?_) _)
  rw [expiredAtCapture_eq]
  rfl

end Fjall

def fjall : Backend Bytes Fjall.Txn Fjall.Snapshot where
  kv := Fjall.store
  casSees := World.visible
  remaining := Sidecar.remaining
  staged _ := Fjall.staged
  captured := Fjall.captured
  get_exec := Sidecar.exec_get fun _ _ => rfl
  getRef_eq := rfl
  getMany_eq _ := rfl
  contains_eq _ := rfl
  put_exec _ _ _ := rfl
  delete_exec _ _ := rfl
  range_exec _ _ := Sidecar.exec_scanned rfl
  rangeRev_eq _ _ := rfl
  prefixScan_exec _ := Sidecar.exec_scanned rfl
  iter_exec := Sidecar.exec_scanned rfl
  keys_exec := Sidecar.exec_scanned rfl
  count_exec := Sidecar.exec_scanned rfl
  batchWrite_exec := Fjall.exec_batchWrite
  batchDelete_exec := Fjall.exec_batchDelete
  compareAndSwap_exec key _ newValue w :=
    exec_compareAndSwapByTxn (Fjall.staged []) (Fjall.staged [(key, .put newValue)])
      rfl (Sidecar.exec_txnGet [] key w) rfl rfl rfl
  putWithTtl_exec _ _ ttl w := exec_putWithTtlBy (fun _ _ => rfl) ttl w
  expire_exec := exec_expireStored
  ttl_exec := Sidecar.exec_ttl fun _ _ => rfl
  persist_exec := Fjall.exec_persist
  purgeExpired_exec := Fjall.exec_purgeExpired
  transaction_exec _ := rfl
  txn_put_exec _ ops key value w := Fjall.exec_record ops key (.put value) w
  txn_delete_exec _ ops key w := Fjall.exec_record ops key .delete w
  txn_get_exec := Sidecar.exec_txnGet
  txn_range_exec ops _ _ ordered w := Sidecar.exec_txnRange ops ordered w
  txn_range_panics := Sidecar.exec_txnRange_reversed
  txn_commit_exec := Fjall.exec_commitBatch
  txn_rollback_exec _ _ _ := rfl
  snapshot_exec _ := rfl
  snap_get_exec := Fjall.exec_snap_get
  snap_range_exec w w' _ _ _ := Fjall.exec_snap_range w w' _ _
  snap_range_quiet w w' low high := congrArg Prod.snd (Fjall.exec_snap_range w w' low high)
  flush_exec _ := rfl
  compact_exec _ := rfl

end OxiStore
