/- **Stores in place of each other.** -/

import OxiStore.Kv.Adapter

namespace OxiStore

open ByteString OrdTable StepProg World

variable {S T N F : Type} (view : MapView S T N) {inner : DiskStore S T N F}

def AgreesBoxed (session : Session S T N) (p : PlainSession) (op : SessionOp) (reply : Reply)
    (session' : Session S T N) (p' : PlainSession) : Prop :=
  Agrees (view.faults session.state < view.faults session'.state) p op reply p' ∧
    view.shows session'.state p'.state

variable {view}

theorem adapter_mapLike (like : MapLike view inner.toKvStore) :
    MapLike view (boxStoreAdapter inner).toKvStore := { like with }

theorem adapter_inherits : (boxStoreAdapter inner).toKvStore.Inherits :=
  ⟨fun _ => rfl, rfl, fun _ _ => rfl, rfl, fun _ => rfl, fun _ => rfl, rfl, rfl, rfl⟩

theorem sled_fjall_same_tables {w : World Bytes} {ops : List (SystemTime × KvOp)}
    (met : Along sled.kv (fun w op => ∀ key expected newValue,
      op = .compareAndSwap key expected newValue → w.elapsed key = false) w ops) :
    runOps sled.kv w ops = runOps fjall.kv w ops := by
  induction ops generalizing w with
  | nil => rfl
  | cons op ops ih =>
    obtain ⟨sees, rest⟩ := met
    -- The backend decides only what `compare_and_swap` compares with.
    have edited : sled.edits (w.setClock op.1) op.2 = fjall.edits (w.setClock op.1) op.2 := by
      cases kind : op.2 with
      | compareAndSwap key expected newValue =>
        have same : sled.casSees (w.setClock op.1) key = fjall.casSees (w.setClock op.1) key :=
          (Store.visible_of_not_elapsed (sees key expected newValue kind)).symm
        simp only [Backend.edits, same]
      | _ => rfl
    have step := sled.perform_state op.2 (w.setClock op.1)
    rw [edited, ← fjall.perform_state] at step
    exact (ih rest).trans (congrArg (runOps fjall.kv · ops) step)

theorem sled_fjall_same_tables_swap :
    let ops := [(SystemTime.last, KvOp.put [107] []), (.last, .compareAndSwap [107] (some []) [98])]
    runOps sled.kv ⟨.empty, .last⟩ ops = runOps fjall.kv ⟨.empty, .last⟩ ops := by
  refine sled_fjall_same_tables ⟨fun _ _ _ other => ?_, fun key _ _ _ => ?_, trivial⟩
  · cases other
  · unfold KvStore.performAt
    rw [sled.perform_state]
    rfl

theorem purge_removes_expired (engine : Engine) (w : World engine.Entry) :
    ∃ (keys : List Bytes) (purged : World engine.Entry),
      engine.kv.purgeExpired.exec w = (.ok keys.length, purged) ∧ keys.Nodup ∧
      ∀ key : Bytes, (key ∈ keys ↔ w.elapsed key = true) ∧ purged.store.data[key]? = w.visible key ∧
        purged.visible key = w.visible key ∧ purged.elapsed key = false := by
  refine ⟨w.expiredKeys, _, engine.backend_kv ▸ engine.backend.purgeExpired_exec w, ?_, fun key =>
    ⟨mem_expiredKeys, ?_⟩⟩
  · exact List.pairwise_map.mpr (((lists_toList w.store.ttl).ascending.filter _).imp ne_of_lt)
  · obtain ⟨data, ttl⟩ := w.store.get_evictAll w.expiredKeys key
    simp only [mem_expiredKeys] at data ttl
    simp only [visible, Store.visible, elapsed, Store.elapsed, Store.expiry, onStore, data, ttl]
    split_ifs with expired <;> simp [expired]

end OxiStore
