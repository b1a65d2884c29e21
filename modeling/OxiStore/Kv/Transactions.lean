/-
**A transaction shows the store it would commit.**
-/

import OxiStore.Kv.Engine

namespace OxiStore

open ByteString OrdTable

section

variable {S T N : Type}

def KvTxn.stage (txn : KvTxn S T) (opened : T) (op : Bytes × TxnOp) : Call S T :=
  match op.2 with
  | .put value => txn.put opened op.1 value
  | .delete => txn.delete opened op.1

def KvStore.begin (kv : KvStore S T N) (ops : List (Bytes × TxnOp)) : Call S T := do
  let opened ← kv.transaction
  ops.foldlM kv.txn.stage opened

variable {E : Type} [Expiry E] (b : Backend E T N)

theorem Backend.txn_stage_exec (s : Store E) (ops : List (Bytes × TxnOp)) (op : Bytes × TxnOp)
    (w : World E) :
    (b.kv.txn.stage (b.staged s ops) op).exec w = (.ok (b.staged s (ops ++ [op])), w) := by
  obtain ⟨key, value | -⟩ := op
  · exact b.txn_put_exec s ops key value w
  · exact b.txn_delete_exec s ops key w

theorem Backend.foldlM_stage_exec (s : Store E) (done ops : List (Bytes × TxnOp)) (w : World E) :
    (ops.foldlM b.kv.txn.stage (b.staged s done)).exec w = (.ok (b.staged s (done ++ ops)), w) := by
  induction ops generalizing done with
  | nil =>
    rw [List.append_nil]
    rfl
  | cons op ops ih =>
    rw [List.foldlM_cons, Call.exec_bind_ok (b.txn_stage_exec s done op w), ih, List.append_assoc]
    rfl

theorem Backend.begin_exec (ops : List (Bytes × TxnOp)) (w : World E) :
    (b.kv.begin ops).exec w = (.ok (b.staged w.store ops), w) := by
  unfold KvStore.begin
  rw [Call.exec_bind_ok (b.transaction_exec w)]
  exact b.foldlM_stage_exec w.store [] ops w

end

/-- **A transaction with `ops` staged, against the store it would commit.** -/
structure ShowsCommit {E T N : Type} [Expiry E] (kv : KvStore (World E) T N)
    (ops : List (Bytes × TxnOp)) (w : World E) (txn : T) : Prop where
  /-- At any clock, the transaction's `get` is the store's after the commit. -/
  get (now : SystemTime) (key : Bytes) :
    ((kv.txn.get txn key).exec (w.setClock now)).1 =
      ((kv.get key).exec ((kv.txn.commit txn).exec (w.setClock now)).2).1
  /-- Likewise its `range`. -/
  range (now : SystemTime) (low high : Bytes) (ordered : low ≤ high) :
    ((kv.txn.range txn low high).exec (w.setClock now)).1 =
      ((kv.range low high).exec ((kv.txn.commit txn).exec (w.setClock now)).2).1
  /-- Reading through the transaction changes nothing. -/
  reads (key low high : Bytes) (ordered : low ≤ high) :
    ((kv.txn.get txn key).exec w).2 = w ∧ ((kv.txn.range txn low high).exec w).2 = w
  rollback : (kv.txn.rollback txn).exec w = (.ok (), w)
  commit : (kv.txn.commit txn).exec w = (.ok (), w.onStore (·.stageAll ops))

theorem Backend.showsCommit {E T N : Type} [Expiry E] (b : Backend E T N)
    (ops : List (Bytes × TxnOp)) (w : World E) :
    ShowsCommit b.kv ops w (b.staged w.store ops) where
  get now key := by
    have reads := b.txn_get_exec ops key (w.setClock now)
    have commits := b.txn_commit_exec ops (w.setClock now)
    rw [World.setClock_store] at reads commits
    rw [reads, commits, b.get_exec]
  range now low high ordered := by
    have reads := b.txn_range_exec ops ordered (w.setClock now)
    have commits := b.txn_commit_exec ops (w.setClock now)
    rw [World.setClock_store] at reads commits
    rw [reads, commits, b.range_exec]
  reads key low high ordered := by
    rw [b.txn_get_exec, b.txn_range_exec ops ordered]
    exact ⟨rfl, rfl⟩
  rollback := b.txn_rollback_exec w.store ops w
  commit := b.txn_commit_exec ops w

/-- **On every engine, a transaction is the store it would commit.** Opening and staging leave the
tables alone, so a transaction that is dropped at this point leaves no trace. -/
theorem txn_shows_commit (engine : Engine) (w : World engine.Entry) (ops : List (Bytes × TxnOp)) :
    ∃ txn, (engine.kv.begin ops).exec w = (.ok txn, w) ∧ ShowsCommit engine.kv ops w txn := by
  rw [← Engine.backend_kv]
  exact ⟨_, engine.backend.begin_exec ops w, engine.backend.showsCommit ops w⟩

/-! ### Ranges with any bounds -/

def RangeReturns (low high : Bytes) (answer : Except StoreError RangeIter) : Prop :=
  ∃ items, answer = .ok items ∧ (high ≤ low → items = [])

theorem rangeReturns_listing {E : Type} [Expiry E] (w : World E) (low high : Bytes) :
    RangeReturns low high (.ok ((w.listing (Within low high)).map .ok)) := by
  refine ⟨_, rfl, fun reversed => ?_⟩
  have nothing : w.listing (Within low high) = [] := by
    refine List.eq_nil_iff_forall_not_mem.mpr fun pair listed => ?_
    have here := ((lists_listing w (Within low high)).mem_iff pair.1 pair.2).mp listed
    have outside : ¬ Within low high pair.1 := fun inside =>
      absurd (inside.1.trans_lt inside.2) (not_lt.mpr reversed)
    simp [outside] at here
  rw [nothing]
  rfl

theorem txn_range_cases (engine : Engine) (s : Store engine.Entry) (ops : List (Bytes × TxnOp))
    (low high : Bytes) (later : World engine.Entry) :
    (low ≤ high ∧ ∃ target : World engine.Entry,
      ((engine.kv.txn.range (engine.backend.staged s ops) low high).exec later).1 =
        .ok ((target.listing (Within low high)).map .ok)) ∨
    (high < low ∧ ((engine.kv.txn.range (engine.backend.staged s ops) low high).exec later).1 =
      .error (.panicked "range start is greater than range end in BTreeMap")) := by
  rcases le_or_gt low high with ordered | reversed
  · refine Or.inl ⟨ordered, ?_⟩
    cases engine with
    | redb => exact ⟨_, congrArg Prod.fst (Redb.exec_txn_range s ops ordered later)⟩
    | sled | fjall => exact ⟨_, congrArg Prod.fst (Sidecar.exec_txnRange ops ordered later)⟩
  · refine Or.inr ⟨reversed, ?_⟩
    cases engine with
    | redb => exact congrArg Prod.fst (Redb.exec_txn_range_reversed s ops reversed later)
    | sled | fjall => exact congrArg Prod.fst (Sidecar.exec_txnRange_reversed ops reversed later)

theorem snap_range_cases (engine : Engine) (w later : World engine.Entry) (low high : Bytes) :
    ((engine = .sled → low ≤ high) ∧
      ((engine.kv.snap.range (engine.backend.captured w) low high).exec later).1 =
        .ok ((w.listing (Within low high)).map .ok)) ∨
    (engine = .sled ∧ high < low ∧
      ((engine.kv.snap.range (engine.backend.captured w) low high).exec later).1 =
        .error (.panicked "range start is greater than range end in BTreeMap")) := by
  cases engine with
  | redb => exact Or.inl ⟨nofun, congrArg Prod.fst (Redb.exec_snap_range w later low high)⟩
  | fjall => exact Or.inl ⟨nofun, congrArg Prod.fst (Fjall.exec_snap_range w later low high)⟩
  | sled =>
    rcases le_or_gt low high with ordered | reversed
    · exact Or.inl ⟨fun _ => ordered, congrArg Prod.fst (Sled.exec_snap_range w later ordered)⟩
    · refine Or.inr ⟨rfl, reversed, ?_⟩
      show ((if high < low then _ else _ : Call Sidecar.State RangeIter).exec later).1 = _
      rw [if_pos reversed]
      rfl

/-- **Which ranges return**: on every engine, of a transaction with any staged operations and of a snapshot,
whatever is stored when they are asked for. -/
theorem ranges_return_iff (engine : Engine) (w later : World engine.Entry) (ops : List (Bytes × TxnOp))
    (low high : Bytes) :
    (∃ txn, (engine.kv.begin ops).exec w = (.ok txn, w) ∧
      (RangeReturns low high ((engine.kv.txn.range txn low high).exec later).1 ↔ low ≤ high)) ∧
    ∃ snap, engine.kv.snapshot.exec w = (.ok snap, w) ∧
      (RangeReturns low high ((engine.kv.snap.range snap low high).exec later).1 ↔
        (engine = .sled → low ≤ high)) := by
  constructor
  · rw [← Engine.backend_kv]
    refine ⟨_, engine.backend.begin_exec ops w, ?_⟩
    rw [Engine.backend_kv]
    rcases txn_range_cases engine w.store ops low high later with ⟨ordered, target, done⟩ | ⟨reversed, done⟩
    · rw [done]
      exact iff_of_true (rangeReturns_listing target low high) ordered
    · rw [done]
      exact iff_of_false (fun ⟨_, returned, _⟩ => nomatch returned) (not_le.mpr reversed)
  · rw [← Engine.backend_kv]
    refine ⟨_, engine.backend.snapshot_exec w, ?_⟩
    rw [Engine.backend_kv]
    rcases snap_range_cases engine w later low high with ⟨ordered, done⟩ | ⟨own, reversed, done⟩
    · rw [done]
      exact iff_of_true (rangeReturns_listing w low high) ordered
    · rw [done]
      exact iff_of_false (fun ⟨_, returned, _⟩ => nomatch returned)
        fun ordered => not_le.mpr reversed (ordered own)

theorem reversed_ranges_panic :
    (∀ engine : Engine, ∃ (w : World engine.Entry) (txn : engine.Txn),
      (engine.kv.begin [([1], .put [5])]).exec w = (.ok txn, w) ∧
        ¬ RangeReturns [2] [1] ((engine.kv.txn.range txn [2] [1]).exec w).1) ∧
    ∃ (w : World Bytes) (snap : Sled.Snapshot), Sled.store.snapshot.exec w = (.ok snap, w) ∧
      ¬ RangeReturns [2] [1] ((Sled.store.snap.range snap [2] [1]).exec w).1 := by
  refine ⟨fun engine => ⟨⟨⟨∅, ∅⟩, .sinceEpoch 0⟩, ?_⟩,
    ⟨⟨(∅ : Table Bytes Bytes).insert [1] [5], ∅⟩, .sinceEpoch 0⟩, _, Sled.exec_snapshot _, ?_⟩
  · rw [← Engine.backend_kv]
    refine ⟨_, engine.backend.begin_exec _ _, fun ⟨_, returned, _⟩ => ?_⟩
    rw [engine.backend.txn_range_panics _ (by decide)] at returned
    cases returned
  · rintro ⟨_, returned, _⟩
    cases returned

end OxiStore
