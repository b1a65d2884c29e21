/-
**What sled and fjall have in common.**
-/

import OxiStore.Kv.Backend

namespace OxiStore

open ByteString OrdTable

namespace Sidecar

abbrev State := World Bytes

/-! ### The shared texts -/

def isTtlExpired (key : Bytes) : Call State Bool := do
  match ← readStore (·.ttl[key]?) with
  | some expiryBytes => entryExpired expiryBytes
  | none => pure false

def get (evict : Bytes → Call State Unit) (key : Bytes) : Call State (Option Bytes) := do
  if ← isTtlExpired key then
    evict key
    pure none
  else
    readStore (·.data[key]?)

def ttl (evict : Bytes → Call State Unit) (key : Bytes) : Call State (Option Duration) := do
  let dataExists ← readStore fun s => s.data[key]?.isSome
  if !dataExists then
    throw .keyNotFound
  match ← readStore (·.ttl[key]?) with
  | none => pure none
  | some expiryBytes =>
      match decodeExpiry expiryBytes with
      | none => throw (.other "invalid TTL encoding")
      | some expiryMillis =>
          let now ← systemTimeNow
          if isExpired now expiryMillis then
            evict key
            throw .keyNotFound
          else
            let now ← systemTimeNow
            pure (some (Duration.fromMillis (saturatingSub expiryMillis (nowEpochMillis now))))

def remaining (now : SystemTime) (expiryBytes : Bytes) : Except StoreError (Option Duration) :=
  match decodeExpiry expiryBytes with
  | none => .error (.other "invalid TTL encoding")
  | some expiryMillis =>
      .ok (some (Duration.fromMillis (saturatingSub expiryMillis (nowEpochMillis now))))

def scanKeyspace (inside : Bytes → Prop) [DecidablePred inside] :
    Call State (List (Bytes × Bytes)) := do
  let items ← readStore fun s => scan s.data inside
  keepUnexpired isTtlExpired items

def range (low high : Bytes) : Call State RangeIter := do
  let pairs ← scanKeyspace (Within low high)
  pure (pairs.map .ok)

def prefixScan (start : Bytes) : Call State RangeIter := do
  let pairs ← scanKeyspace (StartsWith start)
  pure (pairs.map .ok)

def iter : Call State RangeIter := do
  let pairs ← scanKeyspace Anywhere
  pure (pairs.map .ok)

def keys : Call State KeysIter := do
  let pairs ← scanKeyspace Anywhere
  pure (pairs.map fun pair => .ok pair.1)

def count : Call State ℕ := do
  let pairs ← scanKeyspace Anywhere
  pure pairs.length

def txnGet (overlay : Overlay) (key : Bytes) : Call State (Option Bytes) :=
  match overlay[key]? with
  | some op => pure op.change
  | none => do
      if ← isTtlExpired key then
        pure none
      else
        readStore (·.data[key]?)

def txnRangeOver (scanned : Call State (List (Bytes × Bytes))) (overlay : Overlay) (low high : Bytes) :
    Call State RangeIter := do
  let committed ← scanned
  let pairs ← Call.ofExcept (mergeOverlay committed overlay low high)
  pure (pairs.map .ok)

def txnRange (overlay : Overlay) (low high : Bytes) : Call State RangeIter :=
  txnRangeOver (scanKeyspace (Within low high)) overlay low high

/-! ### What they do alone -/

theorem exec_isTtlExpired (key : Bytes) (w : State) :
    (isTtlExpired key).exec w = (.ok (w.elapsed key), w) := by
  unfold isTtlExpired World.elapsed Store.elapsed Store.expiry
  rw [Call.exec_bind_ok (exec_readStore _ w)]
  cases w.store.ttl[key]? with
  | none => rfl
  | some expiryBytes => exact exec_entryExpired expiryBytes w

section

variable {evict : Bytes → Call State Unit}
  (evicts : ∀ key w, (evict key).exec w = (.ok (), w.onStore (·.evict key)))

include evicts

theorem exec_get (key : Bytes) (w : State) :
    (get evict key).exec w = (.ok (w.visible key), w.evictElapsed key) := by
  unfold get World.visible Store.visible World.evictElapsed
  rw [Call.exec_bind_ok (exec_isTtlExpired key w)]
  show _ = (Except.ok (if w.elapsed key = true then none else _),
    if w.elapsed key = true then _ else _)
  split_ifs with elapsed
  · rw [Call.exec_bind_ok (evicts key w)]
    rfl
  · rfl

theorem exec_ttl (key : Bytes) (w : State) : (ttl evict key).exec w =
    (w.lifetime remaining key, if w.stored key then w.evictElapsed key else w) := by
  unfold ttl World.lifetime remaining World.evictElapsed World.stored World.elapsed Store.elapsed
    Store.expiry
  rw [Call.exec_bind_ok (exec_readStore _ w)]
  cases w.store.data[key]? with
  | none => rfl
  | some value =>
    show (readStore _ >>= _ : Call State _).exec w = _
    rw [Call.exec_bind_ok (exec_readStore _ w)]
    cases w.store.ttl[key]? with
    | none => rfl
    | some expiryBytes =>
      cases decoded : decodeExpiry expiryBytes with
      | none => simp [Expiry.decode, decoded]
      | some expiryMillis =>
        cases expired : isExpired w.clock expiryMillis with
        | true => simp [Expiry.decode, decoded, expired, Call.exec_bind, evicts]
        | false => simp [Expiry.decode, decoded, expired, Call.exec_bind, Except.map]

end

theorem exec_scanKeyspace (inside : Bytes → Prop) [DecidablePred inside] (w : State) :
    (scanKeyspace inside).exec w = (.ok (w.listing inside), w) := by
  unfold scanKeyspace
  rw [Call.exec_bind_ok (exec_readStore _ w)]
  exact exec_keepUnexpired (fun key => exec_isTtlExpired key w) _

theorem exec_scanned {β : Type} {inside : Bytes → Prop} [DecidablePred inside] {call : Call State β}
    {finish : List (Bytes × Bytes) → β}
    (text : call = scanKeyspace inside >>= fun pairs => pure (finish pairs)) (w : State) :
    call.exec w = (.ok (finish (w.listing inside)), w) := by
  rw [text, Call.exec_bind_ok (exec_scanKeyspace inside w)]
  rfl

variable (ops : List (Bytes × TxnOp))

theorem exec_txnGet (key : Bytes) (w : State) :
    (txnGet (overlayOf ops) key).exec w = (.ok ((w.onStore (·.stageAll ops)).visible key), w) := by
  unfold txnGet
  rw [get_overlayOf, show (w.onStore (·.stageAll ops)).visible key =
    (w.store.stageAll ops).visible w.clock key from rfl, Store.visible_stageAll]
  cases latest ops key with
  | some op => rfl
  | none =>
    show (isTtlExpired key >>= _ : Call State _).exec w = (Except.ok (w.visible key), w)
    rw [Call.exec_bind_ok (exec_isTtlExpired key w)]
    unfold World.visible Store.visible
    change (if w.elapsed key = true then _ else _ : Call State _).exec w =
      (Except.ok (if w.elapsed key = true then _ else _), w)
    split_ifs with elapsed
    all_goals rfl

theorem exec_txnRange {low high : Bytes} (ordered : low ≤ high) (w : State) :
    (txnRange (overlayOf ops) low high).exec w =
      (.ok (((w.onStore (·.stageAll ops)).listing (Within low high)).map .ok), w) := by
  have merged : mergeOverlay (w.listing (Within low high)) (overlayOf ops) low high =
      .ok ((w.onStore (·.stageAll ops)).listing (Within low high)) :=
    mergeOverlay_listing ordered fun key => Store.visible_stageAll w.store ops w.clock key
  unfold txnRange txnRangeOver
  rw [Call.exec_bind_ok (exec_scanKeyspace (Within low high) w), merged]
  rfl

theorem exec_txnRange_reversed {low high : Bytes} (reversed : high < low) (w : State) :
    (txnRange (overlayOf ops) low high).exec w =
      (.error (.panicked "range start is greater than range end in BTreeMap"), w) := by
  unfold txnRange txnRangeOver mergeOverlay
  rw [Call.exec_bind_ok (exec_scanKeyspace (Within low high) w), if_pos reversed]
  rfl

end Sidecar

end OxiStore
