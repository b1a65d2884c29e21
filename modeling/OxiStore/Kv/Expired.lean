/-
**A key whose time is up.**
-/

import OxiStore.Kv.Ops

namespace OxiStore

open ByteString

def KvOp.writes : KvOp → Bool
  | .put _ _ | .delete _ | .batchWrite _ | .batchDelete _ => true
  | .compareAndSwap _ _ _ | .putWithTtl _ _ _ => true
  | .txn steps commits => commits && (steps.filterMap TxnStep.staged).length ≠ 0
  | _ => false

def KvOp.renews (key : Bytes) : KvOp → Bool
  | .expire other _ | .persist other => decide (other = key)
  | _ => false

theorem KvOp.writes_of_stores {key : Bytes} (op : KvOp) (stores : op.stores key) :
    op.writes = true := by
  cases op with
  | txn steps commits =>
    obtain ⟨committed, step, given, op, stages, -⟩ := stores
    have some : (steps.filterMap TxnStep.staged).length ≠ 0 := by
      have staged := List.mem_filterMap.mpr ⟨step, given, stages⟩
      exact fun none => absurd (List.eq_nil_of_length_eq_zero none ▸ staged) List.not_mem_nil
    simp [writes, some, committed]
  | put | delete | compareAndSwap | batchWrite | batchDelete => rfl
  | _ => exact stores.elim

section

variable {E T N : Type} [Expiry E]

/-- **The contract of a step**, in the world before it. -/
structure Refused (kv : KvStore (World E) T N) (key : Bytes) (before : World E) (op : KvOp) :
    Prop where
  expire : ∀ ttl, op = .expire key ttl → ((kv.expire key ttl).exec before).1 = .error .keyNotFound
  persist : op = .persist key → ((kv.persist key).exec before).1 = .error .keyNotFound
  absent : ((kv.get key).exec ((kv.perform op).exec before).2).1 = .ok none

def RenewsEvicted (key : Bytes) (before : World E) (op : KvOp) : Prop :=
  op.renews key = true → before.stored key = false

variable {key : Bytes}

theorem Store.visible_none_editAll {now : SystemTime} (edits : List (Edit E))
    (evicting : ∀ edit ∈ edits, edit.key = key → edit = .evict key) {s : Store E}
    (hidden : s.visible now key = none) : (s.editAll edits).visible now key = none := by
  induction edits generalizing s with
  | nil => exact hidden
  | cons edit edits ih =>
    have step : (s.edit edit).visible now key = none := by
      by_cases same : edit.key = key
      · rw [evicting edit List.mem_cons_self same]
        exact (visible_evict s key now key).trans (if_pos rfl)
      · obtain ⟨data, ttl⟩ := s.edit_other same
        exact (visible_congr data ttl).trans hidden
    exact ih (fun later member => evicting later (List.mem_cons_of_mem _ member)) step

variable (b : Backend E T N)

theorem Backend.edits_evict {w : World E} {op : KvOp} (quiet : op.writes = false)
    (met : RenewsEvicted key w op) {edit : Edit E} (member : edit ∈ b.edits w op) (same : edit.key = key) :
    edit = .evict key := by
  subst same
  cases b.edits_cause member with
  | stale evicts elapsed => rfl
  | write stores => exact absurd (op.writes_of_stores stores) (by rw [quiet]; decide)
  | delete stores => rfl
  | writeTtl same =>
    subst same
    cases quiet
  | attach same stored | detach same stored =>
    subst same
    exact absurd (stored.symm.trans (met (decide_eq_true rfl))) (by decide)

theorem Backend.hidden_step {w : World E} {op : KvOp} (quiet : op.writes = false)
    (hidden : w.visible key = none) (met : RenewsEvicted key w op) :
    ((b.kv.perform op).exec w).2.visible key = none := by
  rw [b.perform_state]
  exact Store.visible_none_editAll _ (fun edit member => b.edits_evict quiet met member) hidden

theorem Backend.expire_keyNotFound_iff (key : Bytes) (ttl : Duration) (w : World E) :
    ((b.kv.expire key ttl).exec w).1 = .error .keyNotFound ↔ w.stored key = false := by
  rw [b.expire_exec]
  cases w.stored key with
  | false => simp
  | true =>
    unfold World.recordExpiry expiryEpochMillis
    cases w.clock.durationSinceEpoch <;> simp

theorem Backend.persist_keyNotFound_iff (key : Bytes) (w : World E) :
    ((b.kv.persist key).exec w).1 = .error .keyNotFound ↔ w.stored key = false := by
  rw [b.persist_exec]
  cases w.stored key <;> simp

theorem Backend.refused_iff {w : World E} {op : KvOp} (quiet : op.writes = false)
    (hidden : w.visible key = none) : Refused b.kv key w op ↔ RenewsEvicted key w op := by
  constructor
  · intro refused renews
    cases op with
    | expire other ttl =>
      obtain rfl := of_decide_eq_true renews
      exact (b.expire_keyNotFound_iff other ttl w).mp (refused.expire ttl rfl)
    | persist other =>
      obtain rfl := of_decide_eq_true renews
      exact (b.persist_keyNotFound_iff other w).mp (refused.persist rfl)
    | _ => cases renews
  · intro met
    refine ⟨?_, ?_, ?_⟩
    · rintro ttl rfl
      exact (b.expire_keyNotFound_iff key ttl w).mpr (met (decide_eq_true rfl))
    · rintro rfl
      exact (b.persist_keyNotFound_iff key w).mpr (met (decide_eq_true rfl))
    · rw [b.get_exec, b.hidden_step quiet hidden met]

end

/-- **An expired key stays absent along a run exactly when nobody renews it before it is evicted.**
The run starts where the key has expired and is still stored; its operations write no values. -/
theorem stays_expired_iff (engine : Engine) (key : Bytes) (w : World engine.Entry)
    (expired : w.stored key = true ∧ w.elapsed key = true) (ops : List (SystemTime × KvOp))
    (forward : Forward w.clock ops) (quiet : ∀ op ∈ ops, op.2.writes = false) :
    Along engine.kv (Refused engine.kv key) w ops ↔ Along engine.kv (RenewsEvicted key) w ops := by
  rw [← Engine.backend_kv]
  exact engine.backend.along_iff (fun w => w.visible key = none) (fun op => op.writes = false)
    (fun w now later hidden => World.visible_none_setClock later hidden)
    (fun w op allowed hidden => engine.backend.refused_iff allowed hidden)
    (fun w op allowed hidden met => engine.backend.hidden_step allowed hidden met)
    w ops forward quiet (Store.visible_of_elapsed expired.2)

theorem stays_expired_after_get :
    Along Sled.store (Refused Sled.store [107]) .expiredPair
      [(.last, .get [107]), (.last, .persist [107])] := by
  refine (stays_expired_iff .sled [107] .expiredPair ⟨rfl, rfl⟩
    [(.last, .get [107]), (.last, .persist [107])] ?_ ?_).mpr ?_
  · exact ⟨le_nowEpochMillis_last _, UInt64.le_refl _, trivial⟩
  · decide
  · exact ⟨fun renews => absurd renews (by decide), fun _ => rfl, trivial⟩

theorem persist_revives_expired :
    (((Redb.store.get [107]).exec .expiredPair).1 = .ok none ∧
      ((Redb.store.persist [107]).exec .expiredPair).1 = .ok true ∧
      ((Redb.store.get [107]).exec ((Redb.store.persist [107]).exec .expiredPair).2).1 =
        .ok (some [97])) ∧
    (((Sled.store.get [107]).exec .expiredPair).1 = .ok none ∧
      ((Sled.store.persist [107]).exec .expiredPair).1 = .ok true ∧
      ((Sled.store.get [107]).exec ((Sled.store.persist [107]).exec .expiredPair).2).1 =
        .ok (some [97])) ∧
    (((Fjall.store.get [107]).exec .expiredPair).1 = .ok none ∧
      ((Fjall.store.persist [107]).exec .expiredPair).1 = .ok true ∧
      ((Fjall.store.get [107]).exec ((Fjall.store.persist [107]).exec .expiredPair).2).1 =
        .ok (some [97])) :=
  ⟨⟨rfl, rfl, rfl⟩, ⟨rfl, rfl, rfl⟩, ⟨rfl, rfl, rfl⟩⟩

end OxiStore
