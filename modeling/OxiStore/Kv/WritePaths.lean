/-
**A write without a TTL must last.**
-/

import OxiStore.Kv.Ops

namespace OxiStore

open ByteString OrdTable Store

/-! ### The paths -/

inductive WritePath : Engine → Type where
  | put (engine : Engine) (value : Bytes) : WritePath engine
  | batchWrite (engine : Engine) (pairs : List (Bytes × Bytes)) : WritePath engine
  | txn (engine : Engine) (ops : List (Bytes × TxnOp)) : WritePath engine
  | compareAndSwap (engine : Engine) (expected : Option Bytes) (newValue : Bytes) : WritePath engine
  | putReturningOld (value : Bytes) : WritePath .redb
  | merge (operator : Option Sled.MergeOperator) (operand : Bytes) : WritePath .sled
  | putReturning (value : Bytes) : WritePath .fjall
  /-- Nothing is written into the sidecar itself. -/
  | batchWriteAcross (keyspace : String) (writes : List (String × List (Bytes × Bytes)))
      (plain : ∀ write ∈ writes, write.1 ≠ "__ttl__") : WritePath .fjall

def Fjall.pairsFor (keyspace : String) (writes : List (String × List (Bytes × Bytes))) :
    List (Bytes × Bytes) :=
  writes.flatMap fun write => if write.1 = keyspace then write.2 else []

namespace WritePath

variable {engine : Engine}

def call (key : Bytes) : WritePath engine → Call (World engine.Entry) Unit
  | .put engine value => engine.kv.put key value
  | .batchWrite engine pairs => engine.kv.batchWrite pairs
  | .txn engine ops => do
      let staged ← engine.kv.begin ops
      engine.kv.txn.commit staged
  | .compareAndSwap engine expected newValue => (engine.kv.compareAndSwap key expected newValue).done
  | .putReturningOld value => (Redb.putReturningOld key value).done
  | .merge operator operand => Sled.merge operator key operand
  | .putReturning value => (Fjall.putReturning key value).done
  | .batchWriteAcross keyspace writes _ => Fjall.batchWriteAcross keyspace writes

def written (key : Bytes) (w : World engine.Entry) : WritePath engine → Option Bytes
  | .put _ value => some value
  | .batchWrite _ pairs => latest pairs key
  | .txn _ ops => (latest ops key).bind TxnOp.change
  | .compareAndSwap engine expected newValue =>
      if engine.backend.casSees w key = expected then some newValue else none
  | .putReturningOld value => some value
  | .merge operator operand => operator.bind fun merge => merge key w.store.data[key]? operand
  | .putReturning value => some value
  | .batchWriteAcross keyspace writes _ => latest (Fjall.pairsFor keyspace writes) key

def clears : WritePath engine → Bool
  | .put _ _ | .batchWrite _ _ | .txn _ _ | .compareAndSwap _ _ _ | .putReturning _ => true
  | .putReturningOld _ | .merge _ _ | .batchWriteAcross _ _ _ => false

end WritePath

/-! ### What a path leaves -/

theorem Store.stageAll_put {E : Type} (s : Store E) {ops : List (Bytes × TxnOp)} {key value : Bytes}
    (last : (latest ops key).bind TxnOp.change = some value) :
    (s.stageAll ops).data[key]? = some value ∧ (s.stageAll ops).ttl[key]? = none := by
  rw [get_stageAll_data, get_stageAll_ttl]
  cases staged : latest ops key with
  | none => simp [staged] at last
  | some op =>
    rw [staged] at last
    exact ⟨last, rfl⟩

theorem latest_puts (pairs : List (Bytes × Bytes)) (key : Bytes) :
    (latest (pairs.map fun pair => (pair.1, TxnOp.put pair.2)) key).bind TxnOp.change =
      latest pairs key := by
  rw [latest_map TxnOp.put]
  cases latest pairs key <;> rfl

namespace Fjall

theorem batchWriteAcross_eq (keyspace : String) (writes : List (String × List (Bytes × Bytes)))
    (plain : ∀ write ∈ writes, write.1 ≠ "__ttl__") :
    batchWriteAcross keyspace writes =
      commitBatch ((pairsFor keyspace writes).map fun pair => .insert pair.1 pair.2) := by
  have items : (writes.flatMap fun write => write.2.flatMap fun pair =>
      if write.1 = keyspace then [BatchItem.insert pair.1 pair.2]
      else if write.1 = "__ttl__" then [.insertTtl pair.1 pair.2] else []) =
      (pairsFor keyspace writes).map fun pair => .insert pair.1 pair.2 := by
    unfold pairsFor
    rw [List.map_flatMap]
    refine List.flatMap_congr fun write member => ?_
    by_cases here : write.1 = keyspace
    · simp only [if_pos here]
      exact List.map_eq_flatMap.symm
    · simp only [if_neg here, if_neg (plain write member)]
      simp
  unfold batchWriteAcross
  rw [items]

theorem foldl_inserts (pairs : List (Bytes × Bytes)) (s : Store Bytes) :
    ((pairs.map fun pair => BatchItem.insert pair.1 pair.2).foldl BatchItem.apply s) =
      ⟨amendAll s.data (pairs.map fun pair => (pair.1, some pair.2)), s.ttl⟩ := by
  induction pairs generalizing s with
  | nil => rfl
  | cons pair pairs ih => exact ih _

end Fjall

theorem Store.get_write {E : Type} (s : Store E) (key value : Bytes) :
    (s.write key value).data[key]? = some value ∧ (s.write key value).ttl[key]? = none :=
  ⟨(get_insert s.data key key value).trans (if_pos rfl), (get_erase s.ttl key key).trans (if_pos rfl)⟩

namespace WritePath

variable {engine : Engine}

theorem after (path : WritePath engine) {key value : Bytes} {w : World engine.Entry}
    (writes : path.written key w = some value) :
    ((path.call key).exec w).2.store.data[key]? = some value ∧
      ((path.call key).exec w).2.store.ttl[key]? =
        if path.clears then none else w.store.ttl[key]? := by
  cases path with
  | put =>
    obtain rfl := Option.some.inj writes
    rw [call, ← Engine.backend_kv, Backend.put_exec]
    exact get_write w.store key _
  | batchWrite _ pairs =>
    rw [call, ← Engine.backend_kv, Backend.batchWrite_exec]
    exact stageAll_put w.store ((latest_puts pairs key).trans writes)
  | txn _ ops =>
    rw [call, ← Engine.backend_kv, Call.exec_bind_ok (Backend.begin_exec _ ops w),
      Backend.txn_commit_exec]
    exact stageAll_put w.store writes
  | compareAndSwap _ expected newValue =>
    rw [written] at writes
    split_ifs at writes with sees
    obtain rfl := Option.some.inj writes
    rw [call, Call.exec_done_state, ← Engine.backend_kv, Backend.compareAndSwap_exec, if_pos sees]
    exact get_write w.store key _
  | putReturningOld =>
    obtain rfl := Option.some.inj writes
    exact ⟨(get_insert w.store.data key key _).trans (if_pos rfl), rfl⟩
  | merge operator operand =>
    cases operator with
    | none => cases writes
    | some merge =>
      refine ⟨?_, rfl⟩
      show (amend w.store.data (key, merge key w.store.data[key]? operand))[key]? = some value
      rw [get_amend, if_pos rfl]
      exact writes
  | putReturning put =>
    obtain rfl := Option.some.inj writes
    have reads : (Fjall.get key).exec w = _ := fjall.get_exec key w
    have puts : (Fjall.put key put).exec (w.evictElapsed key) = _ := fjall.put_exec key put _
    have left : ((Fjall.putReturning key put).exec w).2 =
        (w.evictElapsed key).onStore (·.write key put) := by
      unfold Fjall.putReturning
      rw [Call.exec_bind_ok reads, Call.exec_bind_ok puts]
      rfl
    rw [call, Call.exec_done_state, left]
    exact get_write _ key put
  | batchWriteAcross keyspace across plain =>
    have folded := Fjall.foldl_inserts (Fjall.pairsFor keyspace across) w.store
    rw [call, Fjall.batchWriteAcross_eq keyspace across plain]
    show (List.foldl _ w.store _).data[key]? = _ ∧ (List.foldl _ w.store _).ttl[key]? = _
    rw [folded]
    refine ⟨?_, rfl⟩
    show (amendAll w.store.data _)[key]? = _
    rw [get_amendAll, latest_map some, show latest (Fjall.pairsFor keyspace across) key = some value
      from writes]
    rfl

end WritePath

/-! ### Sticking -/

/-- **The write of `value` under `key` lasts**: after any operations on other keys, at any time that
has not gone back, `get` returns it. -/
def Sticks {engine : Engine} (path : WritePath engine) (key value : Bytes) (w : World engine.Entry) :
    Prop :=
  ∀ (ops : List (SystemTime × KvOp)) (later : SystemTime), (∀ op ∈ ops, ¬ op.2.names key) →
    Forward w.clock (ops ++ [(later, .get key)]) →
    ((engine.kv.get key).exec
      ((runOps engine.kv ((path.call key).exec w).2 ops).setClock later)).1 = .ok (some value)

/-- **A write sticks exactly when its path clears the sidecar or there is no expiry to inherit.** -/
theorem write_sticks_iff {engine : Engine} (path : WritePath engine) (key value : Bytes)
    (w : World engine.Entry) (writes : path.written key w = some value) :
    Sticks path key value w ↔ path.clears = true ∨ w.store.expiry key = none := by
  obtain ⟨data, ttl⟩ := path.after writes
  unfold Sticks
  simp only [← Engine.backend_kv, Backend.get_exec]
  constructor
  · intro sticks
    by_contra inherits
    obtain ⟨keeps, present⟩ := not_or.mp inherits
    rw [if_neg keeps] at ttl
    -- Read at the last representable time, when every recorded expiry has elapsed.
    have reads := sticks [] .last (fun op member => absurd member List.not_mem_nil)
      ⟨le_nowEpochMillis_last _, trivial⟩
    obtain ⟨millis, expiry⟩ := Option.ne_none_iff_exists'.mp present
    have elapsed : ((path.call key).exec w).2.store.elapsed .last key = true := by
      rw [elapsed_congr ttl]
      exact elapsed_iff.mpr ⟨millis, expiry, isExpired_last millis⟩
    have hidden : ((path.call key).exec w).2.store.visible .last key = none :=
      visible_of_elapsed elapsed
    exact absurd (hidden.symm.trans (Except.ok.inj reads)) (Option.some_ne_none value).symm
  · intro fresh ops later apart _
    have lasting : ((path.call key).exec w).2.store.expiry key = none := by
      unfold expiry
      rw [ttl]
      rcases fresh with clears | none
      · rw [if_pos clears]
        rfl
      · split_ifs with clears
        · rfl
        · exact none
    obtain ⟨dataKept, ttlKept⟩ := engine.backend.runOps_untouched _ ops apart lasting
    have live : (runOps engine.backend.kv ((path.call key).exec w).2 ops).store.elapsed later key =
        false := by
      rw [elapsed_congr ttlKept]
      exact elapsed_of_expiry_none lasting later
    show Except.ok ((runOps engine.backend.kv ((path.call key).exec w).2 ops).store.visible later key)
      = _
    rw [visible_of_not_elapsed live, dataKept, data]

theorem put_sticks_over_expiry : Sticks (.put .redb [98]) [107] [98] .expiringPair :=
  (write_sticks_iff (.put .redb [98]) [107] [98] .expiringPair rfl).mpr (.inl rfl)

theorem write_lost_at_old_expiry :
    (((Redb.store.get [107]).exec
        (((Redb.putReturningOld [107] [98]).exec .expiringPair).2.setClock
          (.ofMillis 1))).1 = .ok none ∧
      ¬ Sticks (.putReturningOld [98]) [107] [98] .expiringPair) ∧
    (((Sled.store.get [107]).exec
        (((Sled.merge (some fun _ _ operand => some operand) [107] [98]).exec .expiringPair).2.setClock
          (.ofMillis 1))).1 = .ok none ∧
      ¬ Sticks (.merge (some fun _ _ operand => some operand) [98]) [107] [98] .expiringPair) ∧
    (((Fjall.store.get [107]).exec
        (((Fjall.batchWriteAcross "default" [("default", [([107], [98])])]).exec
          .expiringPair).2.setClock (.ofMillis 1))).1 = .ok none ∧
      ¬ Sticks (.batchWriteAcross "default" [("default", [([107], [98])])] (by decide)) [107] [98]
        .expiringPair) := by
  have later : Forward (.ofMillis 0)
      ([] ++ [(.ofMillis 1, .get [107])]) := ⟨by decide, trivial⟩
  refine ⟨⟨rfl, fun sticks => ?_⟩, ⟨rfl, fun sticks => ?_⟩, ⟨rfl, fun sticks => ?_⟩⟩
  · have reads : (Except.ok none : Except StoreError (Option Bytes)) = .ok (some [98]) :=
      sticks [] _ (fun _ member => absurd member List.not_mem_nil) later
    cases reads
  · have reads : (Except.ok none : Except StoreError (Option Bytes)) = .ok (some [98]) :=
      sticks [] _ (fun _ member => absurd member List.not_mem_nil) later
    cases reads
  · have reads : (Except.ok none : Except StoreError (Option Bytes)) = .ok (some [98]) :=
      sticks [] _ (fun _ member => absurd member List.not_mem_nil) later
    cases reads

end OxiStore
