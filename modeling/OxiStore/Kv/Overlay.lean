/-
**What the backends share: the scan loop, and the overlay of a transaction.**
-/

import OxiStore.Kv.Store

namespace OxiStore

open ByteString OrdTable

def Within (low high key : Bytes) : Prop := low ≤ key ∧ key < high

instance (low high : Bytes) : DecidablePred (Within low high) :=
  fun _ => inferInstanceAs (Decidable (_ ∧ _))

def AtLeast (start key : Bytes) : Prop := start ≤ key

instance (start : Bytes) : DecidablePred (AtLeast start) := fun _ => inferInstanceAs (Decidable (_ ≤ _))

def Anywhere (_ : Bytes) : Prop := True

instance : DecidablePred Anywhere := fun _ => inferInstanceAs (Decidable True)

def StartsWith (start key : Bytes) : Prop := start <+: key

instance (start : Bytes) : DecidablePred (StartsWith start) :=
  fun key => inferInstanceAs (Decidable (start <+: key))

/-! ### Scans -/

section

variable {E : Type} [Expiry E]

def World.listing (w : World E) (inside : Bytes → Prop) [DecidablePred inside] :
    List (Bytes × Bytes) :=
  (scan w.store.data inside).filter fun pair => !w.elapsed pair.1

theorem lists_listing (w : World E) (inside : Bytes → Prop) [DecidablePred inside] :
    Lists (w.listing inside) fun key => if inside key then w.visible key else none := by
  refine ((lists_scan w.store.data inside).filter fun key => !w.elapsed key).congr fun key => ?_
  unfold World.visible Store.visible
  change (if (!w.elapsed key) = true then _ else _) = if inside key then
    (if w.elapsed key = true then none else _) else none
  cases w.elapsed key <;> simp

theorem listing_congr (w : World E) {inside inside' : Bytes → Prop} [DecidablePred inside]
    [DecidablePred inside'] (same : ∀ key, inside key ↔ inside' key) :
    w.listing inside = w.listing inside' := by
  refine (lists_listing w inside).unique ((lists_listing w inside').congr fun key => ?_)
  simp only [same key]

def keepUnexpired {S : Type} (expired : Bytes → Call S Bool) :
    List (Bytes × Bytes) → Call S (List (Bytes × Bytes))
  | [] => pure []
  | (key, value) :: items => do
      if ← expired key then
        keepUnexpired expired items
      else
        let pairs ← keepUnexpired expired items
        pure ((key, value) :: pairs)

theorem exec_keepUnexpired {S : Type} {expired : Bytes → Call S Bool} {test : Bytes → Bool} {s : S}
    (tests : ∀ key, (expired key).exec s = (.ok (test key), s)) (items : List (Bytes × Bytes)) :
    (keepUnexpired expired items).exec s = (.ok (items.filter fun pair => !test pair.1), s) := by
  induction items with
  | nil => rfl
  | cons pair items ih =>
    obtain ⟨key, value⟩ := pair
    unfold keepUnexpired
    rw [Call.exec_bind_ok (tests key)]
    cases tested : test key with
    | true =>
      rw [if_pos rfl, ih, List.filter_cons_of_neg (by simp [tested])]
    | false =>
      rw [if_neg Bool.false_ne_true, Call.exec_bind_ok ih,
        List.filter_cons_of_pos (by simp [tested])]
      rfl

def entryExpired (entry : E) : Call (World E) Bool :=
  match Expiry.decode entry with
  | some expiryMillis => do
      let now ← systemTimeNow
      pure (isExpired now expiryMillis)
  | none => pure false

theorem exec_entryExpired (entry : E) (w : World E) :
    (entryExpired entry).exec w = (.ok ((Expiry.decode entry).any (isExpired w.clock)), w) := by
  unfold entryExpired
  cases Expiry.decode entry <;> rfl

def World.expiredKeys (w : World E) : List Bytes :=
  (w.store.ttl.toList.filter fun entry => (Expiry.decode entry.2).any (isExpired w.clock)).map
    Prod.fst

theorem mem_expiredKeys {w : World E} {key : Bytes} :
    key ∈ w.expiredKeys ↔ w.elapsed key = true := by
  unfold World.expiredKeys World.elapsed Store.elapsed Store.expiry
  constructor
  · intro member
    obtain ⟨⟨found, entry⟩, listed, rfl⟩ := List.mem_map.mp member
    obtain ⟨inTable, expired⟩ := List.mem_filter.mp listed
    rw [((lists_toList w.store.ttl).mem_iff found entry).mp inTable]
    exact expired
  · intro elapsed
    cases found : w.store.ttl[key]? with
    | none => simp [found] at elapsed
    | some entry =>
      rw [found] at elapsed
      refine List.mem_map.mpr ⟨(key, entry), List.mem_filter.mpr ⟨?_, elapsed⟩, rfl⟩
      exact ((lists_toList w.store.ttl).mem_iff key entry).mpr found

def collectExpired : List (Bytes × E) → Call (World E) (List Bytes)
  | [] => pure []
  | (key, entry) :: entries => do
      let expired ← entryExpired entry
      let keys ← collectExpired entries
      pure (if expired then key :: keys else keys)

theorem exec_collectExpired (w : World E) :
    (collectExpired w.store.ttl.toList).exec w = (.ok w.expiredKeys, w) := by
  unfold World.expiredKeys
  induction w.store.ttl.toList with
  | nil => rfl
  | cons entry entries ih =>
    obtain ⟨key, entry⟩ := entry
    unfold collectExpired
    rw [Call.exec_bind_ok (exec_entryExpired entry w), Call.exec_bind_ok ih]
    cases expired : (Expiry.decode entry).any (isExpired w.clock) with
    | true | false => simp [expired]

end

/-! ### Buffered operations -/

inductive TxnOp where
  | put (value : Bytes)
  | delete
deriving DecidableEq

def TxnOp.change : TxnOp → Option Bytes
  | .put value => some value
  | .delete => none

abbrev Overlay := Table Bytes TxnOp

def overlayOf (ops : List (Bytes × TxnOp)) : Overlay :=
  ops.foldl (fun overlay op => overlay.insert op.1 op.2) ∅

theorem overlayOf_concat (ops : List (Bytes × TxnOp)) (key : Bytes) (op : TxnOp) :
    overlayOf (ops ++ [(key, op)]) = (overlayOf ops).insert key op := by
  unfold overlayOf
  rw [List.foldl_append]
  rfl

theorem get_overlayOf (ops : List (Bytes × TxnOp)) (key : Bytes) :
    (overlayOf ops)[key]? = latest ops key := by
  induction ops using List.reverseRecOn with
  | nil => rfl
  | append_singleton ops op ih =>
    rw [show op = (op.1, op.2) from rfl, overlayOf_concat, get_insert, latest_append_singleton, ih]

section

variable {E : Type}

def Store.stage (s : Store E) (op : Bytes × TxnOp) : Store E :=
  match op.2 with
  | .put value => s.write op.1 value
  | .delete => s.evict op.1

def Store.stageAll (s : Store E) (ops : List (Bytes × TxnOp)) : Store E := ops.foldl Store.stage s

variable (s : Store E) (ops : List (Bytes × TxnOp)) (op : Bytes × TxnOp)

theorem Store.stageAll_concat :
    s.stageAll (ops ++ [op]) = (s.stageAll ops).stage op := by
  unfold stageAll
  rw [List.foldl_append]
  rfl

theorem Store.stage_data :
    (s.stage op).data = amend s.data (op.1, op.2.change) := by
  obtain ⟨key, value | -⟩ := op
  all_goals rfl

theorem Store.stage_ttl : (s.stage op).ttl = s.ttl.erase op.1 := by
  obtain ⟨key, value | -⟩ := op
  all_goals rfl

theorem Store.stageAll_data :
    (s.stageAll ops).data = amendAll s.data (ops.map fun op => (op.1, op.2.change)) := by
  induction ops using List.reverseRecOn with
  | nil => rfl
  | append_singleton ops op ih =>
    rw [stageAll_concat, stage_data, ih, List.map_append, amendAll_append]
    rfl

theorem Store.stageAll_ttl :
    (s.stageAll ops).ttl = ops.foldl (fun ttl op => ttl.erase op.1) s.ttl := by
  induction ops using List.reverseRecOn with
  | nil => rfl
  | append_singleton ops op ih =>
    rw [stageAll_concat, stage_ttl, ih, List.foldl_append]
    rfl

theorem Store.get_stageAll_data (key : Bytes) :
    (s.stageAll ops).data[key]? = ((latest ops key).map TxnOp.change).getD s.data[key]? := by
  rw [stageAll_data, get_amendAll, latest_map]

theorem Store.get_stageAll_ttl (key : Bytes) :
    (s.stageAll ops).ttl[key]? = if (latest ops key).isSome then none else s.ttl[key]? := by
  induction ops using List.reverseRecOn with
  | nil => rfl
  | append_singleton ops op ih =>
    rw [stageAll_concat, stage_ttl, get_erase, latest_append_singleton, ih]
    by_cases same : op.1 = key
    · rw [if_pos same, if_pos same]
      rfl
    · rw [if_neg same, if_neg same]

theorem Store.stageAll_eq : s.stageAll ops =
    ⟨amendAll s.data (ops.map fun op => (op.1, op.2.change)),
      ops.foldl (fun ttl op => ttl.erase op.1) s.ttl⟩ :=
  Store.ext (stageAll_data s ops) (stageAll_ttl s ops)

variable [Expiry E]

theorem Store.visible_stage (now : SystemTime) (key : Bytes) :
    (s.stage op).visible now key = if op.1 = key then op.2.change else s.visible now key := by
  obtain ⟨changed, value | -⟩ := op
  · exact visible_write s changed value now key
  · exact visible_evict s changed now key

theorem Store.visible_stageAll (now : SystemTime) (key : Bytes) :
    (s.stageAll ops).visible now key = ((latest ops key).map TxnOp.change).getD (s.visible now key) := by
  induction ops using List.reverseRecOn with
  | nil => rfl
  | append_singleton ops op ih =>
    rw [stageAll_concat, visible_stage, latest_append_singleton, ih]
    split_ifs with same
    all_goals rfl

end

/-! ### A range of a transaction -/

def mergeOverlay (committed : List (Bytes × Bytes)) (overlay : Overlay) (low high : Bytes) :
    Except StoreError (List (Bytes × Bytes)) :=
  if high < low then
    .error (.panicked "range start is greater than range end in BTreeMap")
  else
    let merged := amendAll ∅ (committed.map fun pair => (pair.1, some pair.2))
    .ok (amendAll merged
      ((scan overlay (Within low high)).map fun op => (op.1, op.2.change))).toList

theorem lists_mergeOverlay {committed : List (Bytes × Bytes)} {view : Bytes → Option Bytes}
    {low high : Bytes} (ordered : low ≤ high)
    (lists : Lists committed fun key => if Within low high key then view key else none)
    (overlay : Overlay) :
    ∃ pairs, mergeOverlay committed overlay low high = .ok pairs ∧
      Lists pairs fun key => if Within low high key then
        (overlay[key]?.map TxnOp.change).getD (view key) else none := by
  refine ⟨_, if_neg (not_lt.mpr ordered), (lists_toList _).congr fun key => ?_⟩
  rw [get_amendAll, latest_map, (lists_scan overlay (Within low high)).latest, get_amendAll,
    latest_map, lists.latest]
  by_cases within : Within low high key
  · simp only [if_pos within, Std.ExtTreeMap.getElem?_empty]
    cases overlay[key]? with
    | some op => rfl
    | none =>
      cases view key <;> rfl
  · simp only [if_neg within, Std.ExtTreeMap.getElem?_empty]
    rfl

theorem mergeOverlay_listing {E : Type} [Expiry E] {w target : World E} {ops : List (Bytes × TxnOp)}
    {low high : Bytes} (ordered : low ≤ high)
    (shows : ∀ key, target.visible key = ((latest ops key).map TxnOp.change).getD (w.visible key)) :
    mergeOverlay (w.listing (Within low high)) (overlayOf ops) low high =
      .ok (target.listing (Within low high)) := by
  have committed := lists_listing w (Within low high)
  obtain ⟨pairs, merges, listed⟩ := lists_mergeOverlay ordered committed (overlayOf ops)
  rw [merges, listed.unique ((lists_listing target (Within low high)).congr fun key => ?_)]
  rw [get_overlayOf, shows]

end OxiStore
