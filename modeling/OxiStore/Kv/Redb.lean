/-
**`oxistore-kv-redb`.**
-/

import OxiStore.Kv.Backend

namespace OxiStore

open ByteString OrdTable Store

namespace Redb

abbrev State := World UInt64

def isTtlExpired (ttlTable : Table Bytes UInt64) (key : Bytes) : Call State Bool :=
  match ttlTable[key]? with
  | some expiryMillis => do
      let now ← systemTimeNow
      pure (isExpired now expiryMillis)
  | none => pure false

def isTtlExpiredAt (ttlTable : Table Bytes UInt64) (key : Bytes) (capturedAt : UInt64) : Bool :=
  match ttlTable[key]? with
  | some expiryMillis => decide (expiryMillis ≤ capturedAt)
  | none => false

/-! ### Point operations -/

def get (key : Bytes) : Call State (Option Bytes) := do
  let (value, expiry) ← readStore fun s => (s.data[key]?, s.ttl[key]?)
  match expiry with
  | some expiryMillis =>
      let now ← systemTimeNow
      if isExpired now expiryMillis then
        writeStore (·.evict key)
        pure none
      else
        pure value
  | none => pure value

def put (key value : Bytes) : Call State Unit := writeStore (·.write key value)

def delete (key : Bytes) : Call State Unit := writeStore (·.evict key)

def putReturningOld (key value : Bytes) : Call State (Option Bytes) :=
  Call.swap (fun w => w.store.data[key]?) (World.onStore (·.insertData key value))

def deleteReturningOld (key : Bytes) : Call State (Option Bytes) :=
  Call.swap (fun w => w.store.data[key]?) (World.onStore (·.removeData key))

/-! ### Scans -/

def scanTable (inside : Bytes → Prop) [DecidablePred inside] : Call State (List (Bytes × Bytes)) := do
  let tables ← readStore id
  keepUnexpired (isTtlExpired tables.ttl) (scan tables.data inside)

def range (low high : Bytes) : Call State RangeIter := do
  let pairs ← scanTable (Within low high)
  pure (pairs.map .ok)

def prefixScan (start : Bytes) : Call State RangeIter :=
  match prefixUpperBound start with
  | some high => do
      let pairs ← scanTable (Within start high)
      pure (pairs.map .ok)
  | none =>
      if start.isEmpty then do
        let pairs ← scanTable Anywhere
        pure (pairs.map .ok)
      else do
        let pairs ← scanTable (AtLeast start)
        pure (pairs.map .ok)

def iter : Call State RangeIter := do
  let pairs ← scanTable Anywhere
  pure (pairs.map .ok)

def keys : Call State KeysIter := do
  let pairs ← scanTable Anywhere
  pure (pairs.map fun pair => .ok pair.1)

def count : Call State ℕ := do
  let pairs ← scanTable Anywhere
  pure pairs.length

/-! ### Batches -/

def batchWrite (pairs : List (Bytes × Bytes)) : Call State Unit :=
  writeStore fun s => pairs.foldl (fun s pair => s.write pair.1 pair.2) s

def batchDelete (keys : List Bytes) : Call State Unit :=
  writeStore fun s => keys.foldl Store.evict s

/-! ### Expiry -/

def putWithTtl (key value : Bytes) (ttl : Duration) : Call State Unit :=
  putWithTtlBy (fun expiry => writeStore (·.writeTtl key value expiry)) ttl

def expire (key : Bytes) (ttl : Duration) : Call State Unit := expireStored key ttl

def ttl (key : Bytes) : Call State (Option Duration) := do
  let (dataExists, expiry) ← readStore fun s => (s.data[key]?.isSome, s.ttl[key]?)
  if !dataExists then
    throw .keyNotFound
  match expiry with
  | none => pure none
  | some expiryMillis =>
      let now ← systemTimeNow
      if isExpired now expiryMillis then
        writeStore (·.evict key)
        throw .keyNotFound
      else
        match (← systemTimeNow).durationSinceEpoch with
        | .error message => throw (.other message)
        | .ok elapsed => pure (some (Duration.fromMillis
            (saturatingSub expiryMillis (UInt64.ofNat elapsed.asMillis))))

def persist (key : Bytes) : Call State Bool := do
  let (dataExists, hasTtl) ← readStore fun s => (s.data[key]?.isSome, s.ttl[key]?.isSome)
  if !dataExists then
    throw .keyNotFound
  if !hasTtl then
    return false
  writeStore (·.detach key)
  pure true

def purgeExpired : Call State ℕ := do
  let entries ← readStore (·.ttl.toList)
  let expiredKeys ← collectExpired entries
  if expiredKeys.isEmpty then
    return 0
  writeStore fun s => expiredKeys.foldl Store.evict s
  pure expiredKeys.length

/-! ### `RedbTxn` -/

structure Txn where
  inner : Option (Store UInt64)
  overlay : Overlay

namespace Txn

def tables (txn : Txn) : Call State (Store UInt64) :=
  match txn.inner with
  | some tables => pure tables
  | none => throw (.other "transaction already consumed")

def committedKeyExpired (txn : Txn) (key : Bytes) : Call State Bool := do
  let tables ← txn.tables
  isTtlExpired tables.ttl key

def get (txn : Txn) (key : Bytes) : Call State (Option Bytes) :=
  match txn.overlay[key]? with
  | some op => pure op.change
  | none => do
      if ← txn.committedKeyExpired key then
        pure none
      else
        let tables ← txn.tables
        pure tables.data[key]?

def put (txn : Txn) (key value : Bytes) : Call State Txn := do
  let tables ← txn.tables
  pure ⟨some (tables.write key value), txn.overlay.insert key (.put value)⟩

def delete (txn : Txn) (key : Bytes) : Call State Txn := do
  let tables ← txn.tables
  pure ⟨some (tables.evict key), txn.overlay.insert key .delete⟩

def range (txn : Txn) (low high : Bytes) : Call State RangeIter := do
  let tables ← txn.tables
  let committed ← keepUnexpired (isTtlExpired tables.ttl) (scan tables.data (Within low high))
  let pairs ← Call.ofExcept (mergeOverlay committed txn.overlay low high)
  pure (pairs.map .ok)

def commit (txn : Txn) : Call State Unit := do
  let tables ← txn.tables
  writeStore fun _ => tables

def rollback (_ : Txn) : Call State Unit := pure ()

end Txn

def transaction : Call State Txn := readStore fun s => ⟨some s, ∅⟩

/-! ### `RedbSnapshot` -/

structure Snapshot where
  tables : Store UInt64
  capturedAtMillis : UInt64

namespace Snapshot

def get (snap : Snapshot) (key : Bytes) : Call State (Option Bytes) :=
  if isTtlExpiredAt snap.tables.ttl key snap.capturedAtMillis then pure none
  else pure snap.tables.data[key]?

def range (snap : Snapshot) (low high : Bytes) : Call State RangeIter := do
  let pairs ← keepUnexpired
    (fun key => pure (isTtlExpiredAt snap.tables.ttl key snap.capturedAtMillis))
    (scan snap.tables.data (Within low high))
  pure (pairs.map .ok)

end Snapshot

def snapshot : Call State Snapshot := do
  let tables ← readStore id
  let now ← systemTimeNow
  pure ⟨tables, nowEpochMillis now⟩

/-! ### The `KvStore` -/

def store : KvStore State Txn Snapshot where
  get := get
  put := put
  delete := delete
  range := range
  iter := iter
  transaction := transaction
  txn :=
    { get := Txn.get
      put := Txn.put
      delete := Txn.delete
      range := Txn.range
      commit := Txn.commit
      rollback := Txn.rollback }
  snapshot := snapshot
  snap := { get := Snapshot.get, range := Snapshot.range }
  flush := pure ()
  prefixScan := prefixScan
  batchWrite := batchWrite
  batchDelete := batchDelete
  count := count
  keys := keys
  putWithTtl := putWithTtl
  expire := expire
  ttl := ttl
  persist := persist
  purgeExpired := purgeExpired

/-! ### What each method does alone -/

variable (s : Store UInt64)

theorem exec_isTtlExpired (key : Bytes) (w : State) :
    (isTtlExpired s.ttl key).exec w = (.ok (s.elapsed w.clock key), w) := by
  unfold isTtlExpired elapsed expiry
  cases s.ttl[key]? <;> rfl

theorem isTtlExpiredAt_eq (key : Bytes) (now : SystemTime) :
    isTtlExpiredAt s.ttl key (nowEpochMillis now) = s.elapsed now key := by
  unfold isTtlExpiredAt elapsed expiry
  cases s.ttl[key]? <;> rfl

theorem exec_get (key : Bytes) (w : State) :
    (get key).exec w = (.ok (w.visible key), w.evictElapsed key) := by
  unfold get World.evictElapsed World.visible visible World.elapsed elapsed expiry
  rw [Call.exec_bind_ok (exec_readStore _ w)]
  cases w.store.ttl[key]? with
  | none => rfl
  | some expiryMillis =>
    show (systemTimeNow >>= _ : Call State _).exec w = _
    rw [Call.exec_bind_ok (exec_systemTimeNow w)]
    show _ = (Except.ok (if isExpired w.clock expiryMillis = true then none else _),
      if isExpired w.clock expiryMillis = true then _ else _)
    split_ifs with expired
    all_goals rfl

theorem exec_scanTable (inside : Bytes → Prop) [DecidablePred inside] (w : State) :
    (scanTable inside).exec w = (.ok (w.listing inside), w) := by
  unfold scanTable
  rw [Call.exec_bind_ok (exec_readStore id w)]
  exact exec_keepUnexpired (fun key => exec_isTtlExpired w.store key w) _

theorem exec_prefixScan (start : Bytes) (w : State) :
    (prefixScan start).exec w = (.ok ((w.listing (StartsWith start)).map .ok), w) := by
  unfold prefixScan
  cases bound : prefixUpperBound start with
  | some high =>
    rw [show w.listing (StartsWith start) = w.listing (Within start high) from
      listing_congr w fun key => (prefixUpperBound_some_iff bound key).symm]
    exact Call.exec_bind_ok (exec_scanTable _ w)
  | none =>
    by_cases empty : start.isEmpty = true
    · rw [show w.listing (StartsWith start) = w.listing Anywhere from
        listing_congr w fun key => by
          rw [List.isEmpty_iff.mp empty]
          exact iff_of_true List.nil_prefix trivial]
      simp only [if_pos empty]
      exact Call.exec_bind_ok (exec_scanTable _ w)
    · rw [show w.listing (StartsWith start) = w.listing (AtLeast start) from
        listing_congr w fun key => (prefixUpperBound_none_iff bound key).symm]
      simp only [if_neg empty]
      exact Call.exec_bind_ok (exec_scanTable _ w)

def remaining (now : SystemTime) (expiryMillis : UInt64) : Except StoreError (Option Duration) :=
  match now.durationSinceEpoch with
  | .error message => .error (.other message)
  | .ok elapsed => .ok (some (Duration.fromMillis
      (saturatingSub expiryMillis (UInt64.ofNat elapsed.asMillis))))

theorem exec_ttl (key : Bytes) (w : State) : (ttl key).exec w =
    (w.lifetime remaining key, if w.stored key then w.evictElapsed key else w) := by
  unfold ttl World.lifetime remaining World.evictElapsed World.stored World.elapsed elapsed
    expiry
  rw [Call.exec_bind_ok (exec_readStore _ w)]
  cases w.store.data[key]? with
  | none => rfl
  | some value =>
    cases w.store.ttl[key]? with
    | none => rfl
    | some expiryMillis =>
      show (systemTimeNow >>= _ : Call State _).exec w = _
      rw [Call.exec_bind_ok (exec_systemTimeNow w)]
      cases expired : isExpired w.clock expiryMillis with
      | true => simp [Expiry.decode, expired, Call.exec_bind]
      | false =>
        cases since : w.clock.durationSinceEpoch with
        | error message | ok elapsed => simp [Expiry.decode, expired, Call.exec_bind, since]

theorem exec_persist (key : Bytes) (w : State) : (persist key).exec w =
    if w.stored key then (.ok w.store.ttl[key]?.isSome, w.onStore (·.detach key))
    else (.error .keyNotFound, w) := by
  unfold persist World.stored
  rw [Call.exec_bind_ok (exec_readStore _ w)]
  cases w.store.data[key]? with
  | none => rfl
  | some value =>
    cases entry : w.store.ttl[key]? with
    | some expiryMillis => rfl
    | none =>
      show _ = (Except.ok false, (⟨w.store.detach key, w.clock⟩ : State))
      rw [detach_absent entry]
      rfl

theorem exec_purgeExpired (w : State) : purgeExpired.exec w =
    (.ok w.expiredKeys.length, w.onStore (·.evictAll w.expiredKeys)) := exec_purgeCollected w

/-! ### Transactions and snapshots -/

def staged (s : Store UInt64) (ops : List (Bytes × TxnOp)) : Txn := ⟨some (s.stageAll ops), overlayOf ops⟩

variable (ops : List (Bytes × TxnOp))

theorem exec_txn_get (key : Bytes) (w : State) :
    ((staged w.store ops).get key).exec w = (.ok ((w.onStore (·.stageAll ops)).visible key), w) := by
  unfold Txn.get staged World.visible
  rw [get_overlayOf]
  show _ = (Except.ok ((w.store.stageAll ops).visible w.clock key), w)
  cases found : latest ops key with
  | some op =>
    rw [visible_stageAll, found]
    rfl
  | none =>
    have test : (Txn.committedKeyExpired ⟨some (w.store.stageAll ops), overlayOf ops⟩ key).exec w =
        (.ok ((w.store.stageAll ops).elapsed w.clock key), w) := exec_isTtlExpired _ key w
    show (Txn.committedKeyExpired _ key >>= _ : Call State _).exec w = _
    rw [Call.exec_bind_ok test]
    unfold visible
    split_ifs with elapsed
    all_goals rfl

theorem exec_txn_committed (low high : Bytes) (w : State) :
    (keepUnexpired (isTtlExpired (s.stageAll ops).ttl)
      (scan (s.stageAll ops).data (Within low high))).exec w =
      (.ok (World.listing ⟨s.stageAll ops, w.clock⟩ (Within low high)), w) :=
  exec_keepUnexpired (fun key => exec_isTtlExpired (s.stageAll ops) key w) _

theorem exec_txn_range {low high : Bytes} (ordered : low ≤ high) (w : State) :
    ((staged s ops).range low high).exec w =
      (.ok ((World.listing ⟨s.stageAll ops, w.clock⟩ (Within low high)).map .ok), w) := by
  have merged : mergeOverlay (World.listing ⟨s.stageAll ops, w.clock⟩ (Within low high))
      (overlayOf ops) low high = .ok (World.listing ⟨s.stageAll ops, w.clock⟩ (Within low high)) := by
    -- The staged tables already show what the overlay would write over them.
    refine mergeOverlay_listing ordered fun key => ?_
    show (s.stageAll ops).visible w.clock key = (Option.map _ _).getD ((s.stageAll ops).visible w.clock key)
    rw [visible_stageAll]
    cases latest ops key <;> rfl
  show (keepUnexpired _ _ >>= _ : Call State _).exec w = _
  rw [Call.exec_bind_ok (exec_txn_committed s ops low high w)]
  show (Call.ofExcept (mergeOverlay _ (overlayOf ops) low high) >>= _ : Call State _).exec w = _
  rw [merged]
  rfl

theorem exec_txn_range_reversed {low high : Bytes} (reversed : high < low) (w : State) :
    ((staged s ops).range low high).exec w =
      (.error (.panicked "range start is greater than range end in BTreeMap"), w) := by
  show (keepUnexpired _ _ >>= _ : Call State _).exec w = _
  rw [Call.exec_bind_ok (exec_txn_committed s ops low high w)]
  unfold mergeOverlay
  rw [if_pos reversed]
  rfl

theorem exec_snap_get (w w' : State) (key : Bytes) :
    (Snapshot.get ⟨w.store, nowEpochMillis w.clock⟩ key).exec w' = (.ok (w.visible key), w') := by
  unfold Snapshot.get World.visible visible
  rw [isTtlExpiredAt_eq]
  split_ifs with elapsed
  all_goals rfl

theorem exec_snap_range (w w' : State) (low high : Bytes) :
    (Snapshot.range ⟨w.store, nowEpochMillis w.clock⟩ low high).exec w' =
      (.ok ((w.listing (Within low high)).map .ok), w') := by
  unfold Snapshot.range
  refine Call.exec_bind_ok (exec_keepUnexpired (fun key => ?_) _)
  rw [isTtlExpiredAt_eq]
  rfl

end Redb

def redb : Backend UInt64 Redb.Txn Redb.Snapshot where
  kv := Redb.store
  casSees := World.visible
  remaining := Redb.remaining
  staged := Redb.staged
  captured w := ⟨w.store, nowEpochMillis w.clock⟩
  get_exec := Redb.exec_get
  getRef_eq := rfl
  getMany_eq _ := rfl
  contains_eq _ := rfl
  put_exec _ _ _ := rfl
  delete_exec _ _ := rfl
  range_exec low high w := Call.exec_bind_ok (Redb.exec_scanTable (Within low high) w)
  rangeRev_eq _ _ := rfl
  prefixScan_exec := Redb.exec_prefixScan
  iter_exec w := Call.exec_bind_ok (Redb.exec_scanTable Anywhere w)
  keys_exec w := Call.exec_bind_ok (Redb.exec_scanTable Anywhere w)
  count_exec w := Call.exec_bind_ok (Redb.exec_scanTable Anywhere w)
  batchWrite_exec pairs w := by
    unfold Store.stageAll
    simp only [List.foldl_map]
    rfl
  batchDelete_exec keys w := by
    unfold Store.stageAll
    simp only [List.foldl_map]
    rfl
  compareAndSwap_exec key _ newValue w :=
    exec_compareAndSwapByTxn (Redb.staged w.store []) (Redb.staged w.store [(key, .put newValue)])
      rfl (Redb.exec_txn_get [] key w) rfl rfl rfl
  putWithTtl_exec _ _ ttl w := exec_putWithTtlBy (fun _ _ => rfl) ttl w
  expire_exec := exec_expireStored
  ttl_exec := Redb.exec_ttl
  persist_exec := Redb.exec_persist
  purgeExpired_exec := Redb.exec_purgeExpired
  transaction_exec _ := rfl
  txn_put_exec s ops key value _ := by
    rw [Redb.staged, Redb.staged, Store.stageAll_concat, overlayOf_concat]
    rfl
  txn_delete_exec s ops key _ := by
    rw [Redb.staged, Redb.staged, Store.stageAll_concat, overlayOf_concat]
    rfl
  txn_get_exec := Redb.exec_txn_get
  txn_range_exec ops _ _ ordered w := Redb.exec_txn_range w.store ops ordered w
  txn_range_panics ops _ _ reversed w := Redb.exec_txn_range_reversed w.store ops reversed w
  txn_commit_exec _ _ := rfl
  txn_rollback_exec _ _ _ := rfl
  snapshot_exec _ := rfl
  snap_get_exec := Redb.exec_snap_get
  snap_range_exec w w' _ _ _ := Redb.exec_snap_range w w' _ _
  snap_range_quiet w w' low high := congrArg Prod.snd (Redb.exec_snap_range w w' low high)
  flush_exec _ := rfl
  compact_exec _ := rfl

end OxiStore
