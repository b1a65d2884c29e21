/-
**Operations, the table updates they amount to, and runs of them.**
-/

import OxiStore.Lib.Lockstep
import OxiStore.Kv.ReadPaths
import OxiStore.Kv.Transactions

namespace OxiStore

open ByteString OrdTable Call Store World List

/-! ### Operations -/

inductive TxnStep where
  | get (key : Bytes)
  | range (low high : Bytes)
  | put (key value : Bytes)
  | delete (key : Bytes)
deriving DecidableEq

inductive KvOp where
  | get (key : Bytes)
  | getRef (key : Bytes)
  | contains (key : Bytes)
  | getMany (keys : List Bytes)
  | range (low high : Bytes)
  | rangeRev (low high : Bytes)
  | prefixScan (start : Bytes)
  | iter
  | keys
  | count
  | put (key value : Bytes)
  | delete (key : Bytes)
  | batchWrite (pairs : List (Bytes × Bytes))
  | batchDelete (keys : List Bytes)
  | compareAndSwap (key : Bytes) (expected : Option Bytes) (newValue : Bytes)
  | txn (steps : List TxnStep) (commits : Bool)
  | snapshotGet (key : Bytes)
  | snapshotRange (low high : Bytes)
  | putWithTtl (key value : Bytes) (ttl : Duration)
  | expire (key : Bytes) (ttl : Duration)
  | ttl (key : Bytes)
  | persist (key : Bytes)
  | purgeExpired
  | flush
  | compact
deriving DecidableEq

def Call.done {S α : Type} (call : Call S α) : Call S Unit := do
  let _ ← call
  pure ()

@[simp] theorem Call.exec_done_state {S α : Type} (call : Call S α) (s : S) :
    (call.done.exec s).2 = (call.exec s).2 := by
  unfold done
  rw [exec_bind]
  rcases call.exec s with ⟨value | error, after⟩
  all_goals rfl

section

variable {S T N : Type}

def KvTxn.perform (txn : KvTxn S T) (opened : T) : TxnStep → Call S T
  | .get key => do
      let _ ← txn.get opened key
      pure opened
  | .range low high => do
      let _ ← txn.range opened low high
      pure opened
  | .put key value => txn.put opened key value
  | .delete key => txn.delete opened key

def KvStore.perform (kv : KvStore S T N) : KvOp → Call S Unit
  | .get key => (kv.get key).done
  | .getRef key => (kv.getRef key).done
  | .contains key => (kv.contains key).done
  | .getMany keys => (kv.getMany keys).done
  | .range low high => (kv.range low high).done
  | .rangeRev low high => (kv.rangeRev low high).done
  | .prefixScan start => (kv.prefixScan start).done
  | .iter => kv.iter.done
  | .keys => kv.keys.done
  | .count => kv.count.done
  | .put key value => kv.put key value
  | .delete key => kv.delete key
  | .batchWrite pairs => kv.batchWrite pairs
  | .batchDelete keys => kv.batchDelete keys
  | .compareAndSwap key expected newValue => (kv.compareAndSwap key expected newValue).done
  | .txn steps commits => do
      let opened ← kv.transaction
      let finished ← steps.foldlM kv.txn.perform opened
      if commits then kv.txn.commit finished else kv.txn.rollback finished
  | .snapshotGet key => do
      let snap ← kv.snapshot
      (kv.snap.get snap key).done
  | .snapshotRange low high => do
      let snap ← kv.snapshot
      (kv.snap.range snap low high).done
  | .putWithTtl key value ttl => kv.putWithTtl key value ttl
  | .expire key ttl => kv.expire key ttl
  | .ttl key => (kv.ttl key).done
  | .persist key => (kv.persist key).done
  | .purgeExpired => kv.purgeExpired.done
  | .flush => kv.flush
  | .compact => kv.compact

end

def TxnStep.staged : TxnStep → Option (Bytes × TxnOp)
  | .get _ => none
  | .range _ _ => none
  | .put key value => some (key, .put value)
  | .delete key => some (key, .delete)

def TxnStep.panics : TxnStep → Bool
  | .range low high => decide (high < low)
  | _ => false

def KvOp.names (key : Bytes) : KvOp → Prop
  | .get other | .getRef other | .contains other | .snapshotGet other => key = other
  | .getMany listed | .batchDelete listed => key ∈ listed
  | .put other _ | .delete other | .compareAndSwap other _ _ => key = other
  | .batchWrite pairs => ∃ pair ∈ pairs, key = pair.1
  | .txn steps _ => ∃ step ∈ steps, ∃ op, step.staged = some op ∧ key = op.1
  | .putWithTtl other _ _ | .expire other _ | .ttl other | .persist other => key = other
  | .range _ _ | .rangeRev _ _ | .prefixScan _ | .iter | .keys | .count => False
  | .snapshotRange _ _ | .purgeExpired | .flush | .compact => False

def KvOp.stores (key : Bytes) : KvOp → Prop
  | .put other _ | .delete other | .compareAndSwap other _ _ => key = other
  | .batchWrite pairs => ∃ pair ∈ pairs, key = pair.1
  | .batchDelete listed => key ∈ listed
  | .txn steps commits => commits = true ∧ ∃ step ∈ steps, ∃ op, step.staged = some op ∧ key = op.1
  | _ => False

def KvOp.evicts (key : Bytes) : KvOp → Prop
  | .get other | .getRef other | .contains other | .ttl other => key = other
  | .getMany listed => key ∈ listed
  | .purgeExpired => True
  | _ => False

/-! ### Edits -/

inductive Edit (E : Type) where
  | write (key value : Bytes)
  | evict (key : Bytes)
  | writeTtl (key value : Bytes) (entry : E)
  | attach (key : Bytes) (entry : E)
  | detach (key : Bytes)

namespace Edit

variable {E : Type}

def key : Edit E → Bytes
  | .write key _ | .evict key | .writeTtl key _ _ | .attach key _ | .detach key => key

def ofOp (op : Bytes × TxnOp) : Edit E :=
  match op.2 with
  | .put value => .write op.1 value
  | .delete => .evict op.1

end Edit

namespace Store

variable {E : Type}

def edit (s : Store E) : Edit E → Store E
  | .write key value => s.write key value
  | .evict key => s.evict key
  | .writeTtl key value entry => s.writeTtl key value entry
  | .attach key entry => s.attach key entry
  | .detach key => s.detach key

def editAll (s : Store E) (edits : List (Edit E)) : Store E := edits.foldl edit s

variable (s : Store E)

theorem edit_other {edit : Edit E} {key : Bytes} (apart : edit.key ≠ key) :
    (s.edit edit).data[key]? = s.data[key]? ∧ (s.edit edit).ttl[key]? = s.ttl[key]? := by
  cases edit with
  | write changed value =>
    exact ⟨(get_insert s.data changed key value).trans (if_neg apart),
      (get_erase s.ttl changed key).trans (if_neg apart)⟩
  | evict changed =>
    exact ⟨(get_erase s.data changed key).trans (if_neg apart),
      (get_erase s.ttl changed key).trans (if_neg apart)⟩
  | writeTtl changed value entry =>
    exact ⟨(get_insert s.data changed key value).trans (if_neg apart),
      (get_insert s.ttl changed key entry).trans (if_neg apart)⟩
  | attach changed entry => exact ⟨rfl, (get_insert s.ttl changed key entry).trans (if_neg apart)⟩
  | detach changed => exact ⟨rfl, (get_erase s.ttl changed key).trans (if_neg apart)⟩

theorem editAll_other (edits : List (Edit E)) {key : Bytes} (apart : ∀ edit ∈ edits, edit.key ≠ key) :
    (s.editAll edits).data[key]? = s.data[key]? ∧ (s.editAll edits).ttl[key]? = s.ttl[key]? := by
  induction edits generalizing s with
  | nil => exact ⟨rfl, rfl⟩
  | cons edit edits ih =>
    obtain ⟨data, ttl⟩ := s.edit_other (apart edit mem_cons_self)
    obtain ⟨data', ttl'⟩ := ih (s.edit edit) fun later member =>
      apart later (mem_cons_of_mem _ member)
    exact ⟨data'.trans data, ttl'.trans ttl⟩

theorem editAll_ofOp (ops : List (Bytes × TxnOp)) :
    s.editAll (ops.map Edit.ofOp) = s.stageAll ops := by
  have each : ∀ (s : Store E) (op : Bytes × TxnOp), s.edit (Edit.ofOp op) = s.stage op := by
    rintro s ⟨key, value | -⟩
    all_goals rfl
  unfold editAll stageAll
  rw [foldl_map]
  simp only [each]

theorem editAll_evict (keys : List Bytes) :
    s.editAll (keys.map Edit.evict) = s.evictAll keys := by
  unfold editAll evictAll
  rw [foldl_map]
  rfl

theorem get_evictAll (keys : List Bytes) (key : Bytes) :
    (s.evictAll keys).data[key]? = (if key ∈ keys then none else s.data[key]?) ∧
      (s.evictAll keys).ttl[key]? = if key ∈ keys then none else s.ttl[key]? := by
  induction keys generalizing s with
  | nil => simp [evictAll]
  | cons first keys ih =>
    obtain ⟨data, ttl⟩ := ih (s.evict first)
    unfold evictAll at data ttl ⊢
    rw [foldl_cons, data, ttl]
    unfold evict
    rw [get_erase, get_erase]
    simp only [mem_cons]
    by_cases later : key ∈ keys
    · simp [later]
    · by_cases here : first = key
      · simp [here]
      · simp [later, here, Ne.symm here]

end Store

/-! ### What an operation leaves -/

section

variable {E T N : Type} [Expiry E]

def World.evictions (w : World E) (keys : List Bytes) : List (Edit E) :=
  (keys.filter w.elapsed).map .evict

def World.recording (w : World E) (ttl : Duration) (edit : E → Edit E) : List (Edit E) :=
  match expiryEpochMillis w.clock ttl with
  | .error _ => []
  | .ok millis => [edit (Expiry.encode millis)]

theorem World.elapsed_evictElapsed (w : World E) (key other : Bytes) :
    (w.evictElapsed key).elapsed other = (w.elapsed other && decide (key ≠ other)) := by
  unfold evictElapsed
  by_cases expired : w.elapsed key = true
  · rw [if_pos expired]
    show (w.store.evict key).elapsed w.clock other = _
    rw [elapsed_evict]
    by_cases same : key = other
    · simp [same]
    · simp [same, elapsed]
  · rw [if_neg expired]
    by_cases same : key = other
    · simp [← same, expired]
    · simp [same]

theorem World.evictElapsed_eq (w : World E) (key : Bytes) :
    w.evictElapsed key = w.onStore (·.editAll (w.evictions [key])) := by
  unfold evictElapsed evictions
  by_cases expired : w.elapsed key = true
  · rw [if_pos expired, filter_cons_of_pos expired]
    rfl
  · rw [if_neg expired, filter_cons_of_neg expired]
    rfl

theorem World.evictElapsedAll_store (w : World E) (keys : List Bytes) :
    (w.evictElapsedAll keys).store = w.store.evictAll (keys.filter w.elapsed) ∧
      (w.evictElapsedAll keys).clock = w.clock := by
  induction keys generalizing w with
  | nil => exact ⟨rfl, rfl⟩
  | cons key keys ih =>
    obtain ⟨store, clock⟩ := ih (w.evictElapsed key)
    refine ⟨?_, clock.trans (evictElapsed_clock w key)⟩
    unfold evictElapsedAll at store ⊢
    rw [foldl_cons, store]
    by_cases expired : w.elapsed key = true
    · -- A second visit of `key` finds it no longer elapsed; evicting it twice is evicting it once.
      have first : (w.evictElapsed key).store = w.store.evict key := by
        rw [evictElapsed, if_pos expired]
        rfl
      rw [first, filter_cons_of_pos expired]
      refine ext (table_ext fun other => ?_) (table_ext fun other => ?_)
      · rw [(get_evictAll _ _ other).1, (get_evictAll _ _ other).1]
        simp only [mem_filter, elapsed_evictElapsed, mem_cons, evict, get_erase]
        by_cases same : key = other
        · simp [same]
        · simp [same, Ne.symm same]
      · rw [(get_evictAll _ _ other).2, (get_evictAll _ _ other).2]
        simp only [mem_filter, elapsed_evictElapsed, mem_cons, evict, get_erase]
        by_cases same : key = other
        · simp [same]
        · simp [same, Ne.symm same]
    · have first : w.evictElapsed key = w := by rw [evictElapsed, if_neg expired]
      rw [first, filter_cons_of_neg expired]

theorem World.recordExpiry_state (w : World E) (ttl : Duration) (record : Store E → E → Store E)
    (edit : E → Edit E) (same : ∀ s entry, record s entry = s.edit (edit entry)) :
    (w.recordExpiry ttl record).2 = w.onStore (·.editAll (w.recording ttl edit)) := by
  unfold recordExpiry recording
  cases expiryEpochMillis w.clock ttl with
  | error error => rfl
  | ok millis =>
    show w.onStore (fun s => record s (Expiry.encode millis)) = _
    simp only [same]
    rfl

variable (b : Backend E T N)

def Backend.edits (w : World E) : KvOp → List (Edit E)
  | .get key | .getRef key | .contains key => w.evictions [key]
  | .getMany keys => w.evictions keys
  | .put key value => [.write key value]
  | .delete key => [.evict key]
  | .batchWrite pairs => (pairs.map fun pair => (pair.1, .put pair.2)).map Edit.ofOp
  | .batchDelete keys => (keys.map fun key => (key, .delete)).map Edit.ofOp
  | .compareAndSwap key expected newValue =>
      if b.casSees w key = expected then [.write key newValue] else []
  | .txn steps commits =>
      if commits && !steps.any TxnStep.panics then (steps.filterMap TxnStep.staged).map Edit.ofOp
      else []
  | .putWithTtl key value ttl => w.recording ttl (.writeTtl key value)
  | .expire key ttl => if w.stored key then w.recording ttl (.attach key) else []
  | .ttl key => if w.stored key then w.evictions [key] else []
  | .persist key => if w.stored key then [.detach key] else []
  | .purgeExpired => w.expiredKeys.map .evict
  | .range _ _ | .rangeRev _ _ | .prefixScan _ | .iter | .keys | .count => []
  | .snapshotGet _ | .snapshotRange _ _ | .flush | .compact => []

theorem Backend.foldlM_perform_exec (done : List (Bytes × TxnOp)) (steps : List TxnStep)
    (w : World E) :
    (steps.foldlM b.kv.txn.perform (b.staged w.store done)).exec w =
      if steps.any TxnStep.panics then
        (.error (.panicked "range start is greater than range end in BTreeMap"), w)
      else (.ok (b.staged w.store (done ++ steps.filterMap TxnStep.staged)), w) := by
  induction steps generalizing done with
  | nil =>
    rw [filterMap_nil, append_nil]
    rfl
  | cons step steps ih =>
    rw [foldlM_cons, any_cons, filterMap_cons]
    cases step with
    | get key =>
      have reads : (b.kv.txn.perform (b.staged w.store done) (.get key)).exec w =
          (.ok (b.staged w.store done), w) := exec_bind_ok (b.txn_get_exec done key w)
      rw [exec_bind_ok reads]
      exact ih done
    | range low high =>
      by_cases reversed : high < low
      · have fails : (b.kv.txn.perform (b.staged w.store done) (.range low high)).exec w =
            (.error (.panicked "range start is greater than range end in BTreeMap"), w) := by
          show (b.kv.txn.range (b.staged w.store done) low high >>= _ : Call _ _).exec w = _
          rw [exec_bind, b.txn_range_panics done reversed]
        rw [exec_bind, fails, show TxnStep.panics (.range low high) = true from
          decide_eq_true reversed]
        rfl
      · have reads : (b.kv.txn.perform (b.staged w.store done) (.range low high)).exec w =
            (.ok (b.staged w.store done), w) :=
          exec_bind_ok (b.txn_range_exec done (not_lt.mp reversed) w)
        rw [exec_bind_ok reads, show TxnStep.panics (.range low high) = false from
          decide_eq_false reversed]
        exact ih done
    | put key value =>
      have puts : (b.kv.txn.perform (b.staged w.store done) (.put key value)).exec w =
          (.ok (b.staged w.store (done ++ [(key, .put value)])), w) :=
        b.txn_put_exec w.store done key value w
      rw [exec_bind_ok puts, ih, append_assoc]
      rfl
    | delete key =>
      have deletes : (b.kv.txn.perform (b.staged w.store done) (.delete key)).exec w =
          (.ok (b.staged w.store (done ++ [(key, .delete)])), w) :=
        b.txn_delete_exec w.store done key w
      rw [exec_bind_ok deletes, ih, append_assoc]
      rfl

theorem Backend.perform_txn_state (steps : List TxnStep) (commits : Bool) (w : World E) :
    ((b.kv.perform (.txn steps commits)).exec w).2 =
      w.onStore (·.editAll (b.edits w (.txn steps commits))) := by
  have stepped := b.foldlM_perform_exec [] steps w
  show _ = w.onStore (·.editAll (if commits && !steps.any TxnStep.panics then
    (steps.filterMap TxnStep.staged).map Edit.ofOp else []))
  unfold KvStore.perform
  rw [exec_bind_ok (b.transaction_exec w), exec_bind, stepped]
  cases steps.any TxnStep.panics with
  | true =>
    rw [Bool.not_true, Bool.and_false]
    rfl
  | false =>
    rw [Bool.not_false, Bool.and_true, nil_append]
    cases commits with
    | true =>
      show ((b.kv.txn.commit _).exec w).2 = _
      rw [b.txn_commit_exec, if_pos rfl]
      simp only [editAll_ofOp]
    | false =>
      show ((b.kv.txn.rollback _).exec w).2 = _
      rw [b.txn_rollback_exec]
      rfl

theorem Backend.perform_state (op : KvOp) (w : World E) :
    ((b.kv.perform op).exec w).2 = w.onStore (·.editAll (b.edits w op)) := by
  cases op with
  | txn steps commits => exact b.perform_txn_state steps commits w
  | get key => rw [KvStore.perform, exec_done_state, b.get_exec, evictElapsed_eq, edits]
  | getRef key =>
    rw [KvStore.perform, exec_done_state, b.getRef_eq, b.get_exec, evictElapsed_eq, edits]
  | contains key =>
    rw [KvStore.perform, exec_done_state, b.contains_eq, exec_bind_ok (b.get_exec key w),
      exec_pure, evictElapsed_eq, edits]
  | getMany keys =>
    obtain ⟨store, clock⟩ := w.evictElapsedAll_store keys
    rw [KvStore.perform, exec_done_state, exec_getMany, edits, evictions]
    simp only [editAll_evict]
    show _ = (⟨w.store.evictAll _, w.clock⟩ : World E)
    rw [← store, ← clock]
  | range low high => rw [KvStore.perform, exec_done_state, b.range_exec]; rfl
  | rangeRev low high =>
    rw [KvStore.perform, exec_done_state, b.rangeRev_eq, exec_bind_ok (b.range_exec low high w)]
    rfl
  | prefixScan start => rw [KvStore.perform, exec_done_state, b.prefixScan_exec]; rfl
  | iter => rw [KvStore.perform, exec_done_state, b.iter_exec]; rfl
  | keys => rw [KvStore.perform, exec_done_state, b.keys_exec]; rfl
  | count => rw [KvStore.perform, exec_done_state, b.count_exec]; rfl
  | put key value => rw [KvStore.perform, b.put_exec]; rfl
  | delete key => rw [KvStore.perform, b.delete_exec]; rfl
  | batchWrite pairs =>
    rw [KvStore.perform, b.batchWrite_exec, edits]
    simp only [editAll_ofOp]
  | batchDelete keys =>
    rw [KvStore.perform, b.batchDelete_exec, edits]
    simp only [editAll_ofOp]
  | compareAndSwap key expected newValue =>
    rw [KvStore.perform, exec_done_state, b.compareAndSwap_exec, edits]
    by_cases sees : b.casSees w key = expected
    · rw [if_pos sees, if_pos sees]
      rfl
    · rw [if_neg sees, if_neg sees]
      rfl
  | snapshotGet key =>
    rw [KvStore.perform, exec_bind_ok (b.snapshot_exec w), exec_done_state, b.snap_get_exec]
    rfl
  | snapshotRange low high =>
    rw [KvStore.perform, exec_bind_ok (b.snapshot_exec w), exec_done_state,
      b.snap_range_quiet]
    rfl
  | putWithTtl key value ttl =>
    rw [KvStore.perform, b.putWithTtl_exec, edits]
    exact w.recordExpiry_state ttl _ _ fun _ _ => rfl
  | expire key ttl =>
    rw [KvStore.perform, b.expire_exec, edits]
    cases w.stored key with
    | false => rfl
    | true => exact w.recordExpiry_state ttl _ _ fun _ _ => rfl
  | ttl key =>
    rw [KvStore.perform, exec_done_state, b.ttl_exec, edits]
    cases w.stored key with
    | false => rfl
    | true => exact w.evictElapsed_eq key
  | persist key =>
    rw [KvStore.perform, exec_done_state, b.persist_exec, edits]
    cases w.stored key <;> rfl
  | purgeExpired =>
    rw [KvStore.perform, exec_done_state, b.purgeExpired_exec, edits]
    simp only [editAll_evict]
  | flush => rw [KvStore.perform, b.flush_exec]; rfl
  | compact => rw [KvStore.perform, b.compact_exec]; rfl

variable {w : World E} {edit : Edit E}

theorem World.mem_evictions {keys : List Bytes} (member : edit ∈ w.evictions keys) :
    ∃ key ∈ keys, w.elapsed key = true ∧ edit = .evict key := by
  obtain ⟨key, listed, rfl⟩ := mem_map.mp member
  obtain ⟨given, elapsed⟩ := mem_filter.mp listed
  exact ⟨key, given, elapsed, rfl⟩

theorem World.mem_recording {ttl : Duration} {make : E → Edit E} (member : edit ∈ w.recording ttl make) :
    ∃ entry, edit = make entry := by
  unfold recording at member
  cases recorded : expiryEpochMillis w.clock ttl with
  | error error => simp [recorded] at member
  | ok millis =>
    rw [recorded] at member
    exact ⟨_, mem_singleton.mp member⟩

inductive Edit.Cause (w : World E) (op : KvOp) : Edit E → Prop where
  | stale {key : Bytes} (evicts : op.evicts key) (elapsed : w.elapsed key = true) :
      Cause w op (.evict key)
  | write {key value : Bytes} (stores : op.stores key) : Cause w op (.write key value)
  | delete {key : Bytes} (stores : op.stores key) : Cause w op (.evict key)
  | writeTtl {key value : Bytes} {ttl : Duration} {entry : E} (same : op = .putWithTtl key value ttl) :
      Cause w op (.writeTtl key value entry)
  | attach {key : Bytes} {ttl : Duration} {entry : E} (same : op = .expire key ttl)
      (stored : w.stored key = true) : Cause w op (.attach key entry)
  | detach {key : Bytes} (same : op = .persist key) (stored : w.stored key = true) :
      Cause w op (.detach key)

variable {op : KvOp}

theorem Edit.Cause.ofOp {staged : Bytes × TxnOp} (stores : op.stores staged.1) :
    Cause w op (.ofOp staged) := by
  obtain ⟨key, value | -⟩ := staged
  · exact .write stores
  · exact .delete stores

theorem Backend.edits_cause (member : edit ∈ b.edits w op) :
    edit.Cause w op := by
  cases op with
  | get key | getRef key | contains key =>
    obtain ⟨found, listed, elapsed, rfl⟩ := mem_evictions member
    exact .stale (mem_singleton.mp listed) elapsed
  | getMany keys =>
    obtain ⟨found, listed, elapsed, rfl⟩ := mem_evictions member
    exact .stale listed elapsed
  | put key value =>
    rw [mem_singleton.mp member]
    exact .write rfl
  | delete key =>
    rw [mem_singleton.mp member]
    exact .delete rfl
  | batchWrite pairs =>
    obtain ⟨op, staged, rfl⟩ := mem_map.mp member
    obtain ⟨pair, given, rfl⟩ := mem_map.mp staged
    exact .ofOp ⟨pair, given, rfl⟩
  | batchDelete keys =>
    obtain ⟨op, staged, rfl⟩ := mem_map.mp member
    obtain ⟨key, given, rfl⟩ := mem_map.mp staged
    exact .ofOp given
  | compareAndSwap key expected newValue =>
    obtain ⟨-, swapped⟩ := mem_ite_nil_right.mp member
    rw [mem_singleton.mp swapped]
    exact .write rfl
  | txn steps commits =>
    obtain ⟨finishes, committed⟩ := mem_ite_nil_right.mp member
    obtain ⟨op, staged, rfl⟩ := mem_map.mp committed
    obtain ⟨step, given, stages⟩ := mem_filterMap.mp staged
    exact .ofOp ⟨(Bool.and_eq_true_iff.mp finishes).1, step, given, op, stages, rfl⟩
  | putWithTtl key value ttl =>
    obtain ⟨entry, rfl⟩ := mem_recording member
    exact .writeTtl rfl
  | expire key ttl =>
    obtain ⟨stored, recorded⟩ := mem_ite_nil_right.mp member
    obtain ⟨entry, rfl⟩ := mem_recording recorded
    exact .attach rfl stored
  | ttl key =>
    obtain ⟨-, evicted⟩ := mem_ite_nil_right.mp member
    obtain ⟨found, listed, elapsed, rfl⟩ := mem_evictions evicted
    exact .stale (mem_singleton.mp listed) elapsed
  | persist key =>
    obtain ⟨stored, detached⟩ := mem_ite_nil_right.mp member
    rw [mem_singleton.mp detached]
    exact .detach rfl stored
  | purgeExpired =>
    obtain ⟨key, listed, rfl⟩ := mem_map.mp member
    exact .stale trivial (mem_expiredKeys.mp listed)
  | range | rangeRev | prefixScan | iter | keys | count | snapshotGet | snapshotRange | flush
  | compact => cases member

theorem KvOp.names_of_stores {key : Bytes} (stores : op.stores key) : op.names key := by
  cases op with
  | txn steps commits => exact stores.2
  | put | delete | compareAndSwap | batchWrite | batchDelete => exact stores
  | _ => exact stores.elim

theorem Edit.Cause.names (cause : edit.Cause w op) :
    op.names edit.key ∨ w.elapsed edit.key = true := by
  cases cause with
  | stale evicts elapsed => exact .inr elapsed
  | write stores | delete stores => exact .inl (KvOp.names_of_stores stores)
  | writeTtl same | attach same | detach same =>
    subst same
    exact .inl rfl

/-! ### Runs -/

variable (kv : KvStore (World E) T N)

def KvStore.performAt (w : World E) (op : SystemTime × KvOp) : Except StoreError Unit × World E :=
  (kv.perform op.2).exec (w.setClock op.1)

def runOps (w : World E) (ops : List (SystemTime × KvOp)) : World E := StepProg.afterRun kv.performAt w ops

def Along (holds : World E → KvOp → Prop) : World E → List (SystemTime × KvOp) → Prop :=
  StepProg.AlongRun kv.performAt fun w op => holds (w.setClock op.1) op.2

def Forward : SystemTime → List (SystemTime × KvOp) → Prop
  | _, [] => True
  | start, (now, _) :: ops => nowEpochMillis start ≤ nowEpochMillis now ∧ Forward now ops

theorem Backend.runOps_untouched (w : World E) (ops : List (SystemTime × KvOp)) {key : Bytes}
    (apart : ∀ op ∈ ops, ¬ op.2.names key) (lasting : w.store.expiry key = none) :
    (runOps b.kv w ops).store.data[key]? = w.store.data[key]? ∧
      (runOps b.kv w ops).store.ttl[key]? = w.store.ttl[key]? := by
  induction ops generalizing w with
  | nil => exact ⟨rfl, rfl⟩
  | cons op ops ih =>
    obtain ⟨now, op⟩ := op
    have others : ∀ edit ∈ b.edits (w.setClock now) op, edit.key ≠ key := by
      intro edit member same
      rcases (b.edits_cause member).names with named | elapsed
      · exact apart (now, op) mem_cons_self (same ▸ named)
      · have live : w.store.elapsed now key = false := elapsed_of_expiry_none lasting now
        simp [same, show (w.setClock now).elapsed key = false from live] at elapsed
    obtain ⟨data, ttl⟩ := w.store.editAll_other _ others
    have stepped := b.perform_state op (w.setClock now)
    have lasts : ((b.kv.perform op).exec (w.setClock now)).2.store.expiry key = none := by
      rw [stepped]
      unfold expiry at lasting ⊢
      exact (congrArg (·.bind Expiry.decode) ttl).trans lasting
    obtain ⟨dataRest, ttlRest⟩ := ih _ (fun later member =>
      apart later (mem_cons_of_mem _ member)) lasts
    rw [stepped] at dataRest ttlRest
    have rest : runOps b.kv w ((now, op) :: ops) =
        runOps b.kv ((w.setClock now).onStore (·.editAll (b.edits (w.setClock now) op))) ops := by
      rw [← stepped]
      rfl
    rw [rest]
    exact ⟨dataRest.trans data, ttlRest.trans ttl⟩

theorem Backend.along_iff {first second : World E → KvOp → Prop} (inv : World E → Prop)
    (allowed : KvOp → Prop)
    (ticks : ∀ w now, nowEpochMillis w.clock ≤ nowEpochMillis now → inv w → inv (w.setClock now))
    (same : ∀ w op, allowed op → inv w → (first w op ↔ second w op))
    (keeps : ∀ w op, allowed op → inv w → second w op → inv ((b.kv.perform op).exec w).2)
    (w : World E) (ops : List (SystemTime × KvOp)) (forward : Forward w.clock ops)
    (all : ∀ op ∈ ops, allowed op.2) (start : inv w) :
    Along b.kv first w ops ↔ Along b.kv second w ops := by
  induction ops generalizing w with
  | nil => exact Iff.rfl
  | cons op ops ih =>
    obtain ⟨now, op⟩ := op
    obtain ⟨later, rest⟩ := forward
    have holds := ticks w now later start
    have permitted := all (now, op) mem_cons_self
    refine (and_congr_left' (same _ op permitted holds)).trans (and_congr_right fun met => ?_)
    refine ih _ ?_ (fun later member => all later (mem_cons_of_mem _ member))
      (keeps _ op permitted holds met)
    show Forward ((b.kv.perform op).exec (w.setClock now)).2.clock ops
    rw [b.perform_state]
    exact rest

end

end OxiStore
