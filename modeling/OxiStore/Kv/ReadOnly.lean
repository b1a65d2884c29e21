/-
**`ReadOnlyStore`: reads through a wrapper that refuses writes.**
-/

import OxiStore.Kv.Ops

namespace OxiStore

open ByteString OrdTable Call

def readOnlyStore {S T N : Type} (inner : KvStore S T N) : KvStore S T N where
  get := inner.get
  put _ _ := throw .readOnly
  delete _ := throw .readOnly
  contains := inner.contains
  range := inner.range
  iter := inner.iter
  transaction := throw .readOnly
  txn := inner.txn
  snapshot := inner.snapshot
  snap := inner.snap
  flush := inner.flush

def KvOp.lookups : KvOp → List Bytes
  | .get key | .getRef key | .contains key => [key]
  | .getMany listed => listed
  | _ => []

section

variable {E T N : Type} [Expiry E] (b : Backend E T N)

/-! ### One operation -/

theorem Backend.readOnly_prefixScan_state (start : Bytes) (w : World E) :
    (((readOnlyStore b.kv).prefixScan start).exec w).2 = w := by
  show ((prefixScanByScans b.kv.range b.kv.iter start).exec w).2 = w
  unfold prefixScanByScans
  split_ifs with empty
  · rw [b.iter_exec]
  · cases prefixUpperBound start with
    | some high =>
      show ((b.kv.range start high).exec w).2 = w
      rw [b.range_exec]
    | none =>
      show ((b.kv.iter >>= _ : Call (World E) _).exec w).2 = w
      rw [exec_bind_ok (b.iter_exec w)]
      rfl

theorem Backend.readOnly_perform_state (op : KvOp) (w : World E) :
    (((readOnlyStore b.kv).perform op).exec w).2 = w.evictElapsedAll op.lookups := by
  cases op with
  | get key | getRef key =>
    rw [KvStore.perform, exec_done_state]
    exact congrArg Prod.snd (b.get_exec key w)
  | contains key =>
    rw [KvStore.perform, exec_done_state]
    show ((b.kv.contains key).exec w).2 = _
    rw [b.contains_eq, exec_bind_ok (b.get_exec key w)]
    rfl
  | getMany listed =>
    rw [KvStore.perform, exec_done_state]
    show ((listed.mapM b.kv.get).exec w).2 = _
    rw [← b.getMany_eq, exec_getMany]
    rfl
  | range low high =>
    rw [KvStore.perform, exec_done_state]
    exact congrArg Prod.snd (b.range_exec low high w)
  | rangeRev low high =>
    rw [KvStore.perform, exec_done_state]
    exact congrArg Prod.snd (exec_bind_ok (b.range_exec low high w))
  | prefixScan start =>
    rw [KvStore.perform, exec_done_state]
    exact b.readOnly_prefixScan_state start w
  | iter =>
    rw [KvStore.perform, exec_done_state]
    exact congrArg Prod.snd (b.iter_exec w)
  | keys =>
    rw [KvStore.perform, exec_done_state]
    exact congrArg Prod.snd (exec_bind_ok (b.iter_exec w))
  | count =>
    rw [KvStore.perform, exec_done_state]
    show ((b.kv.iter >>= countItems : Call (World E) ℕ).exec w).2 = w
    rw [exec_bind_ok (b.iter_exec w), exec_countItems]
  | snapshotGet key =>
    refine (congrArg Prod.snd (exec_bind_ok (b.snapshot_exec w))).trans ?_
    rw [exec_done_state]
    exact congrArg Prod.snd (b.snap_get_exec w w key)
  | snapshotRange low high =>
    refine (congrArg Prod.snd (exec_bind_ok (b.snapshot_exec w))).trans ?_
    rw [exec_done_state]
    exact b.snap_range_quiet w w low high
  | flush => exact congrArg Prod.snd (b.flush_exec w)
  -- What is left is refused by the wrapper or by the trait, before it reaches the store inside.
  | put | delete | batchWrite | batchDelete | compareAndSwap | txn | putWithTtl | expire
  | ttl | persist | purgeExpired | compact => rfl

/-! ### Runs -/

def Store.meets (s : Store E) (ops : List (SystemTime × KvOp)) : List Bytes :=
  ops.flatMap fun step => step.2.lookups.filter (s.elapsed step.1)

theorem Store.mem_meets {s : Store E} {ops : List (SystemTime × KvOp)} {key : Bytes} :
    key ∈ s.meets ops ↔ ∃ step ∈ ops, key ∈ step.2.lookups ∧ s.elapsed step.1 key = true := by
  simp only [meets, List.mem_flatMap, List.mem_filter]

theorem Store.elapsed_evictAll (s : Store E) (listed : List Bytes) (now : SystemTime) (key : Bytes) :
    (s.evictAll listed).elapsed now key = true ↔ s.elapsed now key = true ∧ key ∉ listed := by
  have entry := (s.get_evictAll listed key).2
  by_cases member : key ∈ listed
  · rw [if_pos member] at entry
    rw [elapsed_of_expiry_none (show Store.expiry _ key = none by rw [expiry, entry]; rfl)]
    simp [member]
  · rw [if_neg member] at entry
    rw [elapsed_congr entry]
    simp [member]

theorem Store.mem_meets_evictAll {s : Store E} {listed : List Bytes}
    {ops : List (SystemTime × KvOp)} {key : Bytes} :
    key ∈ (s.evictAll listed).meets ops ↔ key ∈ s.meets ops ∧ key ∉ listed := by
  simp only [mem_meets, elapsed_evictAll]
  constructor
  · rintro ⟨step, member, looked, elapsed, apart⟩
    exact ⟨⟨step, member, looked, elapsed⟩, apart⟩
  · rintro ⟨⟨step, member, looked, elapsed⟩, apart⟩
    exact ⟨step, member, looked, elapsed, apart⟩

theorem Backend.readOnly_run_store (w : World E) (ops : List (SystemTime × KvOp)) :
    (runOps (readOnlyStore b.kv) w ops).store = w.store.evictAll (w.store.meets ops) := by
  induction ops generalizing w with
  | nil => rfl
  | cons step ops ih =>
    obtain ⟨now, op⟩ := step
    have stepped := (World.evictElapsedAll_store (w.setClock now) op.lookups).1
    have rest := ih (((readOnlyStore b.kv).perform op).exec (w.setClock now)).2
    rw [b.readOnly_perform_state, stepped] at rest
    refine (show _ = _ from ?_).trans (rest.trans ?_)
    · rw [← b.readOnly_perform_state]
      rfl
    · -- What the first operation evicts is no longer met later; evicting it once is enough.
      have split : w.store.meets ((now, op) :: ops) =
          op.lookups.filter (w.store.elapsed now) ++ w.store.meets ops := rfl
      show (w.store.evictAll (op.lookups.filter (w.store.elapsed now))).evictAll
        ((w.store.evictAll (op.lookups.filter (w.store.elapsed now))).meets ops) = _
      rw [split]
      refine Store.ext (table_ext fun key => ?_) (table_ext fun key => ?_)
      · simp only [(Store.get_evictAll _ _ key).1, Store.mem_meets_evictAll, List.mem_append]
        by_cases first : key ∈ op.lookups.filter (w.store.elapsed now)
        all_goals simp [first]
      · simp only [(Store.get_evictAll _ _ key).2, Store.mem_meets_evictAll, List.mem_append]
        by_cases first : key ∈ op.lookups.filter (w.store.elapsed now)
        all_goals simp [first]

theorem Store.evictAll_meets_eq_iff (s : Store E) (ops : List (SystemTime × KvOp)) :
    s.evictAll (s.meets ops) = s ↔
      ∀ step ∈ ops, ∀ key ∈ step.2.lookups, s.elapsed step.1 key = false := by
  constructor
  · intro same step member key looked
    by_contra live
    have elapsed : s.elapsed step.1 key = true := by simpa using live
    have kept := (s.elapsed_evictAll (s.meets ops) step.1 key).mp (by rw [same]; exact elapsed)
    exact kept.2 (mem_meets.mpr ⟨step, member, looked, elapsed⟩)
  · intro live
    have none : s.meets ops = [] := by
      refine List.eq_nil_iff_forall_not_mem.mpr fun key met => ?_
      obtain ⟨step, member, looked, elapsed⟩ := mem_meets.mp met
      simp [live step member key looked] at elapsed
    rw [none]
    rfl

end

/-- **A read-only run leaves both tables as they were exactly when no lookup of it meets an elapsed
expiry**, over every engine, tables, clock and sequence of calls. -/
theorem read_only_frame_iff (engine : Engine) (w : World engine.Entry)
    (ops : List (SystemTime × KvOp)) :
    (runOps (readOnlyStore engine.kv) w ops).store = w.store ↔
      ∀ step ∈ ops, ∀ key ∈ step.2.lookups, w.store.elapsed step.1 key = false := by
  rw [← Engine.backend_kv, Backend.readOnly_run_store]
  exact w.store.evictAll_meets_eq_iff ops

theorem read_only_get_removes_expired :
    (runOps (readOnlyStore Redb.store) .expiredPair
      [(.ofMillis 0, .get [107])]).store ≠ World.expiredPair.store := by
  intro same
  have entry := congrArg (fun s : Store UInt64 => s.ttl[([107] : Bytes)]?) same
  exact absurd entry (by decide)

end OxiStore
