/-
**What a TTL backend has to do.**
-/

import OxiStore.Kv.Overlay

namespace OxiStore

open ByteString Call

section

variable {E : Type} [Expiry E]

def World.stored (w : World E) (key : Bytes) : Bool := w.store.data[key]?.isSome

theorem World.visible_none_of_not_stored {w : World E} {key : Bytes} (gone : w.stored key = false) :
    w.visible key = none := by
  unfold visible Store.visible
  unfold stored at gone
  rw [Option.isSome_eq_false_iff, Option.isNone_iff_eq_none] at gone
  rw [gone, ite_self]

def Store.evictAll (s : Store E) (keys : List Bytes) : Store E := keys.foldl Store.evict s

/-- **`purge_expired`** of redb and fjall. -/
def purgeCollected : Call (World E) ℕ := do
  let entries ← readStore (·.ttl.toList)
  let expiredKeys ← collectExpired entries
  if expiredKeys.isEmpty then
    return 0
  writeStore (·.evictAll expiredKeys)
  pure expiredKeys.length

theorem exec_purgeCollected (w : World E) : purgeCollected.exec w =
    (.ok w.expiredKeys.length, w.onStore (·.evictAll w.expiredKeys)) := by
  unfold purgeCollected
  rw [exec_bind_ok (exec_readStore _ w), exec_bind_ok (exec_collectExpired w)]
  cases w.expiredKeys <;> rfl

def World.recordExpiry (w : World E) (ttl : Duration) (record : Store E → E → Store E) :
    Except StoreError Unit × World E :=
  match expiryEpochMillis w.clock ttl with
  | .error error => (.error error, w)
  | .ok millis => (.ok (), w.onStore fun s => record s (Expiry.encode millis))

def expireStored (key : Bytes) (ttl : Duration) : Call (World E) Unit := do
  let dataExists ← readStore fun s => s.data[key]?.isSome
  if !dataExists then
    throw .keyNotFound
  let now ← systemTimeNow
  let expiry ← Call.ofExcept (expiryEpochMillis now ttl)
  writeStore (·.attach key (Expiry.encode expiry))

theorem exec_expireStored (key : Bytes) (ttl : Duration) (w : World E) :
    (expireStored key ttl).exec w =
      if w.stored key then w.recordExpiry ttl fun s entry => s.attach key entry
      else (.error .keyNotFound, w) := by
  unfold expireStored World.recordExpiry World.stored
  rw [exec_bind_ok (exec_readStore _ w)]
  cases w.store.data[key]? with
  | none => rfl
  | some value =>
    show (systemTimeNow >>= _ : Call (World E) _).exec w = _
    rw [exec_bind_ok (exec_systemTimeNow w), exec_bind, exec_ofExcept]
    cases expiryEpochMillis w.clock ttl <;> rfl

def putWithTtlBy (record : UInt64 → Call (World E) Unit) (ttl : Duration) : Call (World E) Unit := do
  let now ← systemTimeNow
  let expiry ← Call.ofExcept (expiryEpochMillis now ttl)
  record expiry

theorem exec_putWithTtlBy {record : UInt64 → Call (World E) Unit} {update : Store E → E → Store E}
    (records : ∀ millis w, (record millis).exec w =
      (.ok (), w.onStore fun s => update s (Expiry.encode millis)))
    (ttl : Duration) (w : World E) :
    (putWithTtlBy record ttl).exec w = w.recordExpiry ttl update := by
  unfold putWithTtlBy World.recordExpiry
  rw [exec_bind_ok (exec_systemTimeNow w), exec_bind, exec_ofExcept]
  cases expiryEpochMillis w.clock ttl with
  | error error => rfl
  | ok millis => exact records millis w

def World.lifetime (remaining : SystemTime → E → Except StoreError (Option Duration)) (w : World E)
    (key : Bytes) : Except StoreError (Option Duration) :=
  if !w.stored key || w.elapsed key then .error .keyNotFound
  else match w.store.ttl[key]? with
    | none => .ok none
    | some entry => remaining w.clock entry

variable {remaining : SystemTime → E → Except StoreError (Option Duration)}

theorem World.lifetime_invisible {w : World E} {key : Bytes} (invisible : w.visible key = none) :
    w.lifetime remaining key = .error .keyNotFound := by
  unfold lifetime
  refine if_pos ?_
  unfold visible Store.visible at invisible
  split_ifs at invisible with elapsed
  · rw [show w.elapsed key = true from elapsed, Bool.or_true]
  · rw [stored, invisible]
    rfl

theorem World.lifetime_congr {w w' : World E} {key : Bytes} (clock : w.clock = w'.clock)
    (data : w.store.data[key]? = w'.store.data[key]?) (ttl : w.store.ttl[key]? = w'.store.ttl[key]?) :
    w.lifetime remaining key = w'.lifetime remaining key := by
  unfold lifetime stored elapsed
  rw [data, ttl, clock, Store.elapsed_congr ttl]

end

/-- **A backend: its methods, and what each of them does alone.** -/
structure Backend (E T N : Type) [Expiry E] where
  kv : KvStore (World E) T N
  /-- The current value that `compare_and_swap` compares with. -/
  casSees : World E → Bytes → Option Bytes
  /-- What `ttl` answers for a visible key with this sidecar entry. -/
  remaining : SystemTime → E → Except StoreError (Option Duration)
  /-- A transaction opened on these tables, with these operations staged. -/
  staged : Store E → List (Bytes × TxnOp) → T
  /-- A snapshot taken in this world. -/
  captured : World E → N
  get_exec (key : Bytes) (w : World E) :
    (kv.get key).exec w = (.ok (w.visible key), w.evictElapsed key)
  getRef_eq : kv.getRef = kv.get
  getMany_eq (keys : List Bytes) : kv.getMany keys = keys.mapM kv.get
  contains_eq (key : Bytes) : kv.contains key = do
    let value ← kv.get key
    pure value.isSome
  put_exec (key value : Bytes) (w : World E) :
    (kv.put key value).exec w = (.ok (), w.onStore (·.write key value))
  delete_exec (key : Bytes) (w : World E) :
    (kv.delete key).exec w = (.ok (), w.onStore (·.evict key))
  range_exec (low high : Bytes) (w : World E) :
    (kv.range low high).exec w = (.ok ((w.listing (Within low high)).map .ok), w)
  rangeRev_eq (low high : Bytes) : kv.rangeRev low high = do
    let items ← kv.range low high
    pure items.reverse
  prefixScan_exec (start : Bytes) (w : World E) :
    (kv.prefixScan start).exec w = (.ok ((w.listing (StartsWith start)).map .ok), w)
  iter_exec (w : World E) : kv.iter.exec w = (.ok ((w.listing Anywhere).map .ok), w)
  keys_exec (w : World E) :
    kv.keys.exec w = (.ok ((w.listing Anywhere).map fun pair => .ok pair.1), w)
  count_exec (w : World E) : kv.count.exec w = (.ok (w.listing Anywhere).length, w)
  batchWrite_exec (pairs : List (Bytes × Bytes)) (w : World E) : (kv.batchWrite pairs).exec w =
    (.ok (), w.onStore (·.stageAll (pairs.map fun pair => (pair.1, .put pair.2))))
  batchDelete_exec (keys : List Bytes) (w : World E) : (kv.batchDelete keys).exec w =
    (.ok (), w.onStore (·.stageAll (keys.map fun key => (key, .delete))))
  compareAndSwap_exec (key : Bytes) (expected : Option Bytes) (newValue : Bytes) (w : World E) :
    (kv.compareAndSwap key expected newValue).exec w =
      if casSees w key = expected then (.ok true, w.onStore (·.write key newValue))
      else (.ok false, w)
  putWithTtl_exec (key value : Bytes) (ttl : Duration) (w : World E) :
    (kv.putWithTtl key value ttl).exec w =
      w.recordExpiry ttl fun s entry => s.writeTtl key value entry
  expire_exec (key : Bytes) (ttl : Duration) (w : World E) : (kv.expire key ttl).exec w =
    if w.stored key then w.recordExpiry ttl fun s entry => s.attach key entry
    else (.error .keyNotFound, w)
  ttl_exec (key : Bytes) (w : World E) : (kv.ttl key).exec w =
    (w.lifetime remaining key, if w.stored key then w.evictElapsed key else w)
  persist_exec (key : Bytes) (w : World E) : (kv.persist key).exec w =
    if w.stored key then (.ok w.store.ttl[key]?.isSome, w.onStore (·.detach key))
    else (.error .keyNotFound, w)
  purgeExpired_exec (w : World E) : kv.purgeExpired.exec w =
    (.ok w.expiredKeys.length, w.onStore (·.evictAll w.expiredKeys))
  transaction_exec (w : World E) : kv.transaction.exec w = (.ok (staged w.store []), w)
  txn_put_exec (s : Store E) (ops : List (Bytes × TxnOp)) (key value : Bytes) (w : World E) :
    (kv.txn.put (staged s ops) key value).exec w = (.ok (staged s (ops ++ [(key, .put value)])), w)
  txn_delete_exec (s : Store E) (ops : List (Bytes × TxnOp)) (key : Bytes) (w : World E) :
    (kv.txn.delete (staged s ops) key).exec w = (.ok (staged s (ops ++ [(key, .delete)])), w)
  txn_get_exec (ops : List (Bytes × TxnOp)) (key : Bytes) (w : World E) :
    (kv.txn.get (staged w.store ops) key).exec w =
      (.ok ((w.onStore (·.stageAll ops)).visible key), w)
  txn_range_exec (ops : List (Bytes × TxnOp)) {low high : Bytes} (ordered : low ≤ high)
    (w : World E) : (kv.txn.range (staged w.store ops) low high).exec w =
      (.ok (((w.onStore (·.stageAll ops)).listing (Within low high)).map .ok), w)
  txn_range_panics (ops : List (Bytes × TxnOp)) {low high : Bytes} (reversed : high < low)
    (w : World E) : (kv.txn.range (staged w.store ops) low high).exec w =
      (.error (.panicked "range start is greater than range end in BTreeMap"), w)
  txn_commit_exec (ops : List (Bytes × TxnOp)) (w : World E) :
    (kv.txn.commit (staged w.store ops)).exec w = (.ok (), w.onStore (·.stageAll ops))
  txn_rollback_exec (s : Store E) (ops : List (Bytes × TxnOp)) (w : World E) :
    (kv.txn.rollback (staged s ops)).exec w = (.ok (), w)
  snapshot_exec (w : World E) : kv.snapshot.exec w = (.ok (captured w), w)
  snap_get_exec (w w' : World E) (key : Bytes) :
    (kv.snap.get (captured w) key).exec w' = (.ok (w.visible key), w')
  snap_range_exec (w w' : World E) {low high : Bytes} (ordered : low ≤ high) :
    (kv.snap.range (captured w) low high).exec w' = (.ok ((w.listing (Within low high)).map .ok), w')
  snap_range_quiet (w w' : World E) (low high : Bytes) :
    ((kv.snap.range (captured w) low high).exec w').2 = w'
  flush_exec (w : World E) : kv.flush.exec w = (.ok (), w)
  compact_exec (w : World E) : kv.compact.exec w = (.ok (), w)

/-! ### The default `compare_and_swap` -/

theorem exec_compareAndSwapByTxn {S T : Type} {transaction : Call S T} {txn : KvTxn S T}
    {key : Bytes} {expected : Option Bytes} {newValue : Bytes} {s s' : S} (opened staged : T)
    {current : Option Bytes} (opens : transaction.exec s = (.ok opened, s))
    (gets : (txn.get opened key).exec s = (.ok current, s))
    (puts : (txn.put opened key newValue).exec s = (.ok staged, s))
    (commits : (txn.commit staged).exec s = (.ok (), s'))
    (rollsBack : (txn.rollback opened).exec s = (.ok (), s)) :
    (compareAndSwapByTxn transaction txn key expected newValue).exec s =
      if current = expected then (.ok true, s') else (.ok false, s) := by
  unfold compareAndSwapByTxn
  rw [exec_bind_ok opens, exec_bind_ok gets]
  by_cases matching : current = expected
  · rw [if_pos (casMatches_iff.mpr matching), if_pos matching, exec_bind_ok puts,
      exec_bind_ok commits]
    rfl
  · rw [if_neg (fun found => matching (casMatches_iff.mp found)), if_neg matching,
      exec_bind_ok rollsBack]
    rfl

end OxiStore
