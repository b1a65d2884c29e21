/-
**`BoxStoreAdapter`.**
-/

import OxiStore.Kv.Sessions
import OxiStore.Kv.Backup
import OxiStore.Kv.CompareAndSwap

namespace OxiStore

open ByteString OrdTable StepProg Call

/-! ### The methods on files -/

/-- **`KvStore` with its methods on files**, over what a backup leaves at a path. -/
structure DiskStore (S T N F : Type) extends KvStore S T N where
  backup : Option F → Call S F := fun _ => throw (.other "backup not supported for this backend")
  restore : String → Option F → Call S Unit := fun _ _ =>
    throw (.other "restore not supported for this backend")
  sizeOnDisk : Call S ℕ := pure 0

namespace Sled

def importTree (tree : Store Bytes → Table Bytes Bytes)
    (insert : Store Bytes → Bytes → Bytes → Store Bytes) :
    List (Bytes × Bytes) → Store Bytes → Except StoreError Unit × Store Bytes
  | [], s => (.ok (), s)
  | (key, value) :: pairs, s =>
      if (tree s)[key]?.isSome then
        (.error (.panicked "import is overwriting existing data"), insert s key value)
      else importTree tree insert pairs (insert s key value)

def importAll (exported s : Store Bytes) : Except StoreError Unit × Store Bytes :=
  match importTree (·.data) Store.insertData exported.data.toList s with
  | (.ok (), s) => importTree (·.ttl) Store.attach exported.ttl.toList s
  | (.error error, s) => (.error error, s)

def backup (dest : Option (Store Bytes)) : Call State (Store Bytes) := do
  let exported ← readStore id
  Call.ofExcept (importAll exported (dest.getD .empty)).1
  pure (importAll exported (dest.getD .empty)).2

def restore (_ : String) (src : Option (Store Bytes)) : Call State Unit := do
  let s ← readStore id
  writeStore fun _ => (importAll (src.getD .empty) s).2
  Call.ofExcept (importAll (src.getD .empty) s).1

end Sled

def Engine.disk (path : Option String) : (engine : Engine) → (World engine.Entry → ℕ) →
    DiskStore (World engine.Entry) engine.Txn engine.Snapshot (Store engine.Entry)
  | .redb, size =>
      { Redb.store with
        backup := fun _ => Redb.backup path
        restore := Redb.restore
        sizeOnDisk := if path.isSome then Call.read size else pure 0 }
  | .sled, size =>
      { Sled.store with backup := Sled.backup, restore := Sled.restore, sizeOnDisk := Call.read size }
  | .fjall, size => { Fjall.store with sizeOnDisk := Call.read size }

def boxStoreAdapter {S T N F : Type} (inner : DiskStore S T N F) : DiskStore S T N F where
  get := inner.get
  put := inner.put
  delete := inner.delete
  contains := inner.contains
  range := inner.range
  iter := inner.iter
  transaction := inner.transaction
  txn := inner.txn
  snapshot := inner.snapshot
  snap := inner.snap
  flush := inner.flush

/-! ### Runs of calls -/

inductive DiskOp (F : Type) where
  | session (op : SessionOp)
  | putWithTtl (key value : Bytes) (ttl : Duration)
  | expire (key : Bytes) (ttl : Duration)
  | ttl (key : Bytes)
  | persist (key : Bytes)
  | purgeExpired
  | compact
  | sizeOnDisk
  | backup (dest : Option F)
  | restore (path : String) (file : Option F)

inductive DiskReply (F : Type) where
  | reply (reply : Reply)
  | remaining (ttl : Option Duration)
  | written (file : F)

section

variable {S T N F E α : Type}

def Session.call (session : Session S T N) (call : Call S α) (reply : α → DiskReply F) :
    DiskReply F × Session S T N :=
  match call.exec session.state with
  | (.ok answer, s) => (reply answer, ⟨s, session.handles⟩)
  | (.error error, s) => (.reply (.failed error), ⟨s, session.handles⟩)

def DiskStore.serve (kv : DiskStore S T N F) (session : Session S T N) :
    DiskOp F → DiskReply F × Session S T N
  | .session op => Prod.map .reply id (Session.step kv.toKvStore session op)
  | .putWithTtl key value ttl => session.call (kv.putWithTtl key value ttl) fun _ => .reply .done
  | .expire key ttl => session.call (kv.expire key ttl) fun _ => .reply .done
  | .ttl key => session.call (kv.ttl key) .remaining
  | .persist key => session.call (kv.persist key) fun had => .reply (.flag had)
  | .purgeExpired => session.call kv.purgeExpired fun count => .reply (.number count)
  | .compact => session.call kv.compact fun _ => .reply .done
  | .sizeOnDisk => session.call kv.sizeOnDisk fun size => .reply (.number size)
  | .backup dest => session.call (kv.backup dest) .written
  | .restore path file => session.call (kv.restore path file) fun _ => .reply .done

def DiskStore.step (kv : DiskStore (World E) T N F) (session : Session (World E) T N)
    (op : SystemTime × DiskOp F) : DiskReply F × Session (World E) T N :=
  kv.serve ⟨session.state.setClock op.1, session.handles⟩ op.2

end

/-! ### The inherited methods -/

section

theorem Call.map_congr {S α β : Type} (f : α → β) {call call' : Call S α} {s : S}
    (same : call.exec s = call'.exec s) : (f <$> call).exec s = (f <$> call').exec s := by
  rw [exec_map, exec_map, same]

theorem Call.collect_congr {S α : Type} {call call' : Call S (List (Except StoreError α))} {s : S}
    (same : call.exec s = call'.exec s) : call.collect.exec s = call'.collect.exec s := by
  unfold collect
  rw [exec_bind, exec_bind, same]

variable {E T N : Type} [Expiry E] (b : Backend E T N)

theorem Backend.inherited_prefixScan (start : Bytes) (w : World E) :
    (prefixScanByScans b.kv.range b.kv.iter start).exec w = (b.kv.prefixScan start).exec w := by
  have lists : Scans _ w.visible _ := scans_prefixScanByScans (fun low high _ =>
    ⟨_, congrArg Prod.fst (b.range_exec low high w), lists_listing w (Within low high)⟩)
    ⟨_, congrArg Prod.fst (b.iter_exec w), lists_listing w Anywhere⟩ start
  rw [b.prefixScan_exec]
  exact Prod.ext (lists.unique ⟨_, rfl, lists_listing w (StartsWith start)⟩)
    (b.readOnly_prefixScan_state start w)

theorem Backend.inherited_batch (ops : List (Bytes × TxnOp)) (w : World E) :
    (do let opened ← b.kv.transaction
        let staged ← ops.foldlM b.kv.txn.stage opened
        b.kv.txn.commit staged : Call (World E) Unit).exec w = (.ok (), w.onStore (·.stageAll ops)) := by
  rw [exec_bind_ok (b.transaction_exec w), exec_bind_ok (b.foldlM_stage_exec w.store [] ops w)]
  exact b.txn_commit_exec ops w

theorem Backend.inherited_swap (key : Bytes) (expected : Option Bytes) (newValue : Bytes) (w : World E) :
    (compareAndSwapByTxn b.kv.transaction b.kv.txn key expected newValue).exec w =
      if w.visible key = expected then (.ok true, w.onStore (·.write key newValue)) else (.ok false, w) :=
  exec_compareAndSwapByTxn (b.staged w.store []) (b.staged w.store [(key, .put newValue)])
    (b.transaction_exec w) (b.txn_get_exec [] key w) (b.txn_put_exec w.store [] key newValue w)
    (b.txn_commit_exec [(key, .put newValue)] w) (b.txn_rollback_exec w.store [] w)

variable {F : Type} (backup : Option F → Call (World E) F) (restore : String → Option F → Call (World E) Unit)
  (sizeOnDisk : Call (World E) ℕ)

theorem Backend.adapter_reply (op : StoreOp) (w : World E)
    (fresh : ∀ key expected newValue, op = .compareAndSwap key expected newValue →
      (b.casSees w key = expected ↔ w.visible key = expected)) :
    ((boxStoreAdapter ⟨b.kv, backup, restore, sizeOnDisk⟩).reply op).exec w = (b.kv.reply op).exec w := by
  cases op with
  | getRef key =>
    refine map_congr Reply.value (show (b.kv.get key).exec w = _ from ?_)
    rw [b.getRef_eq]
  | getMany listed =>
    refine map_congr Reply.values (show (listed.mapM b.kv.get).exec w = _ from ?_)
    rw [b.getMany_eq]
  | rangeRev low high =>
    refine map_congr Reply.pairs (collect_congr (show (do
      let items ← b.kv.range low high
      pure items.reverse : Call (World E) RangeIter).exec w = _ from ?_))
    rw [b.rangeRev_eq]
  | prefixScan start => exact map_congr Reply.pairs (collect_congr (b.inherited_prefixScan start w))
  | keys =>
    refine map_congr Reply.keys (collect_congr (show (do
      let items ← b.kv.iter
      pure (items.map fun item => item.map Prod.fst) : Call (World E) KeysIter).exec w = _ from ?_))
    rw [exec_bind_ok (b.iter_exec w), b.keys_exec, exec_pure, List.map_map]
    rfl
  | count =>
    refine map_congr Reply.number (show (b.kv.iter >>= countItems : Call (World E) ℕ).exec w = _ from ?_)
    rw [exec_bind_ok (b.iter_exec w), exec_countItems, collectItems_ok, b.count_exec]
    rfl
  | batchWrite pairs =>
    have writes := b.inherited_batch (pairs.map fun pair => (pair.1, .put pair.2)) w
    simp only [List.foldlM_map] at writes
    exact map_congr (fun _ => Reply.done) (writes.trans (b.batchWrite_exec pairs w).symm)
  | batchDelete listed =>
    have deletes := b.inherited_batch (listed.map fun key => (key, .delete)) w
    simp only [List.foldlM_map] at deletes
    exact map_congr (fun _ => Reply.done) (deletes.trans (b.batchDelete_exec listed w).symm)
  | compareAndSwap key expected newValue =>
    refine map_congr Reply.flag ((b.inherited_swap key expected newValue w).trans ?_)
    rw [b.compareAndSwap_exec]
    exact if_congr (fresh key expected newValue rfl).symm rfl rfl
  | _ => rfl

end

/-! ### What the engines do otherwise -/

section

theorem Session.call_ok {S T N F α : Type} {session : Session S T N} {call : Call S α}
    {reply : α → DiskReply F} {answer : α} {s : S} (succeeds : call.exec session.state = (.ok answer, s)) :
    session.call call reply = (reply answer, ⟨s, session.handles⟩) := by
  unfold Session.call
  rw [succeeds]

theorem Session.call_error {S T N F α : Type} {session : Session S T N} {call : Call S α}
    {reply : α → DiskReply F} {error : StoreError} {s : S}
    (fails : call.exec session.state = (.error error, s)) :
    session.call call reply = (.reply (.failed error), ⟨s, session.handles⟩) := by
  unfold Session.call
  rw [fails]

theorem Session.call_failed_iff {S T N F α : Type} {session : Session S T N} {call : Call S α}
    {reply : α → DiskReply F} (answers : ∀ answer error, reply answer ≠ .reply (.failed error))
    {error : StoreError} :
    .reply (.failed error) = (session.call call reply).1 ↔ (call.exec session.state).1 = .error error := by
  rcases result : call.exec session.state with ⟨failed | answer, s⟩
  · rw [Session.call_error result]
    simp [eq_comm]
  · rw [Session.call_ok result]
    exact iff_of_false (fun same => answers answer error same.symm) (fun same => by cases same)

theorem Session.call_unlike {S T N F α : Type} {session : Session S T N} {call : Call S α}
    {reply : α → DiskReply F} {error : StoreError} {alike : Prop}
    (answers : ∀ answer error, reply answer ≠ .reply (.failed error))
    (succeeds : (call.exec session.state).1 ≠ .error error) :
    (.reply (.failed error) = (session.call call reply).1 ↔ False) ∧ (False → alike) :=
  ⟨iff_of_false (fun same => succeeds ((call_failed_iff answers).mp same)) not_false, False.elim⟩

theorem Session.call_zero_iff {S T N F : Type} {session : Session S T N} {own : Call S ℕ} {count : ℕ} {s : S}
    (succeeds : own.exec session.state = (.ok count, s)) :
    ((session.call (pure 0) fun n => (.reply (.number n) : DiskReply F)).1 =
        (session.call own fun n => .reply (.number n)).1 ↔ count = 0) ∧
    (s = session.state → (session.call (pure 0) fun n => (.reply (.number n) : DiskReply F)).2 =
      (session.call own fun n => (.reply (.number n) : DiskReply F)).2) := by
  rw [Session.call_ok succeeds, Session.call_ok (exec_pure 0 session.state)]
  refine ⟨?_, fun same => by rw [same]⟩
  simp [eq_comm]

theorem World.recordExpiry_supported {E : Type} [Expiry E] (w : World E) (ttl : Duration)
    (record : Store E → E → Store E) (message : String) :
    (w.recordExpiry ttl record).1 ≠ .error (.unsupported message) := by
  unfold recordExpiry expiryEpochMillis
  cases w.clock.durationSinceEpoch <;> nofun

variable (engine : Engine)

theorem Engine.ttl_supported (w : World engine.Entry) (key value : Bytes) (ttl : Duration)
    (message : String) :
    ((engine.kv.putWithTtl key value ttl).exec w).1 ≠ .error (.unsupported message) ∧
    ((engine.kv.expire key ttl).exec w).1 ≠ .error (.unsupported message) ∧
    ((engine.kv.ttl key).exec w).1 ≠ .error (.unsupported message) ∧
    ((engine.kv.persist key).exec w).1 ≠ .error (.unsupported message) := by
  rw [← Engine.backend_kv, engine.backend.putWithTtl_exec, engine.backend.expire_exec,
    engine.backend.ttl_exec, engine.backend.persist_exec]
  refine ⟨w.recordExpiry_supported ttl _ message, ?_, ?_, ?_⟩
  · split_ifs
    · exact w.recordExpiry_supported ttl _ message
    · nofun
  · show w.lifetime _ key ≠ _
    unfold World.lifetime
    split_ifs
    · nofun
    · cases w.store.ttl[key]? with
      | none => nofun
      | some entry =>
        cases engine with
        | redb =>
          show Redb.remaining w.clock entry ≠ _
          unfold Redb.remaining
          cases w.clock.durationSinceEpoch <;> nofun
        | sled | fjall =>
          show Sidecar.remaining w.clock entry ≠ _
          unfold Sidecar.remaining
          cases decodeExpiry entry <;> nofun
  · split_ifs
    all_goals nofun

theorem Sled.importTree_answers (tree : Store Bytes → Table Bytes Bytes)
    (insert : Store Bytes → Bytes → Bytes → Store Bytes) (pairs : List (Bytes × Bytes)) (s : Store Bytes)
    (text : String) : (importTree tree insert pairs s).1 ≠ .error (.other text) := by
  induction pairs generalizing s with
  | nil => nofun
  | cons pair pairs ih =>
    unfold importTree
    split_ifs
    · nofun
    · exact ih _

theorem Sled.importAll_answers (exported s : Store Bytes) (text : String) :
    (importAll exported s).1 ≠ .error (.other text) := by
  have data := importTree_answers (·.data) Store.insertData exported.data.toList s text
  unfold importAll
  generalize importTree (·.data) Store.insertData exported.data.toList s = result at data ⊢
  rcases result with ⟨error | _, after⟩
  · exact data
  · exact importTree_answers (·.ttl) Store.attach exported.ttl.toList after text

variable (path : Option String) (size : World engine.Entry → ℕ)

theorem Engine.backup_own (w : World engine.Entry) (dest : Option (Store engine.Entry)) :
    (((engine.disk path size).backup dest).exec w).1 =
      .error (.other "backup not supported for this backend") ↔ engine = .fjall := by
  cases engine with
  | fjall => exact iff_of_true rfl rfl
  | redb =>
    refine iff_of_false ?_ nofun
    cases path with
    | none =>
      show Except.error (StoreError.other "cannot backup an in-memory database") ≠ _
      simp
    | some path => nofun
  | sled =>
    refine iff_of_false (fun same => ?_) nofun
    have imports := Sled.importAll_answers w.store (dest.getD .empty) "backup not supported for this backend"
    change ((Call.ofExcept (Sled.importAll w.store (dest.getD .empty)).1 >>= fun _ =>
      pure _ : Call Sled.State (Store Bytes)).exec w).1 = _ at same
    rw [exec_bind, exec_ofExcept] at same
    generalize (Sled.importAll w.store (dest.getD .empty)).1 = result at imports same
    cases result with
    | error error =>
      cases same
      exact imports rfl
    | ok done => cases same

theorem Engine.restore_own (w : World engine.Entry) (src : String) (file : Option (Store engine.Entry)) :
    (((engine.disk path size).restore src file).exec w).1 =
      .error (.other "restore not supported for this backend") ↔ engine = .fjall := by
  cases engine with
  | fjall => exact iff_of_true rfl rfl
  | redb =>
    refine iff_of_false ?_ nofun
    cases file with
    | none =>
      show Except.error (StoreError.other ("backup file does not exist: " ++ src)) ≠ _
      intro same
      have texts := congrArg String.toList (StoreError.other.inj (Except.error.inj same))
      rw [String.toList_append] at texts
      cases texts
    | some database => nofun
  | sled =>
    refine iff_of_false (fun same => ?_) nofun
    exact Sled.importAll_answers (file.getD .empty) w.store _ same

end

/-! ### Transparency -/

section

variable (path : Option String) {engine : Engine} (size : World engine.Entry → ℕ)

def Engine.sizeAt (w : World engine.Entry) : ℕ := if engine = .redb ∧ path = none then 0 else size w

def Engine.Transparent (w : World engine.Entry) : DiskOp (Store engine.Entry) → Prop
  | .session (.store (.compareAndSwap key expected _)) => ¬ engine.CasStale w key expected
  | .session _ | .compact => True
  | .putWithTtl _ _ _ | .expire _ _ | .ttl _ | .persist _ => False
  | .purgeExpired => w.expiredKeys = []
  | .sizeOnDisk => sizeAt path size w = 0
  | .backup _ | .restore _ _ => engine = .fjall

theorem Engine.disk_eq : engine.disk path size = ⟨engine.backend.kv, (engine.disk path size).backup,
    (engine.disk path size).restore, (engine.disk path size).sizeOnDisk⟩ := by
  cases engine <;> rfl

theorem Engine.disk_kv : (engine.disk path size).toKvStore = engine.backend.kv :=
  congrArg DiskStore.toKvStore (Engine.disk_eq path size)

theorem Engine.exec_sizeOnDisk (w : World engine.Entry) :
    (engine.disk path size).sizeOnDisk.exec w = (.ok (sizeAt path size w), w) := by
  cases engine with
  | redb =>
    cases path <;> rfl
  | sled | fjall => rfl

variable (session : Session (World engine.Entry) engine.Txn engine.Snapshot)

theorem adapter_session (op : SessionOp) (same : Engine.Transparent path size session.state (.session op)) :
    Session.step (boxStoreAdapter (engine.disk path size)).toKvStore session op =
      Session.step (engine.disk path size).toKvStore session op := by
  rw [Engine.disk_eq]
  cases op with
  | store op =>
    have reply := engine.backend.adapter_reply (engine.disk path size).backup (engine.disk path size).restore
      (engine.disk path size).sizeOnDisk op session.state fun key expected newValue swap => by
        subst swap
        exact (engine.casSees_iff session.state key expected).mpr same
    unfold Session.step Session.perform KvStore.serve
    dsimp only
    rw [map_congr _ reply]
  | _ => rfl

theorem Session.step_swap {S T N : Type} (kv : KvStore S T N) {session : Session S T N} {key newValue : Bytes}
    {expected : Option Bytes} {sees : Prop} [Decidable sees] {after : S}
    (swaps : (kv.compareAndSwap key expected newValue).exec session.state =
      if sees then (.ok true, after) else (.ok false, session.state)) :
    (Session.step kv session (.store (.compareAndSwap key expected newValue))).1 = .flag (decide sees) := by
  unfold Session.step Session.perform KvStore.serve KvStore.reply
  dsimp only
  rw [exec_map, exec_map, swaps]
  by_cases seen : sees
  · rw [if_pos seen, decide_eq_true seen]
    rfl
  · rw [if_neg seen, decide_eq_false seen]
    rfl

theorem adapter_session_iff (op : SessionOp) :
    (Session.step (boxStoreAdapter (engine.disk path size)).toKvStore session op).1 =
        (Session.step (engine.disk path size).toKvStore session op).1 ↔
      Engine.Transparent path size session.state (.session op) := by
  refine ⟨fun same => ?_, fun same => congrArg Prod.fst (adapter_session path size session op same)⟩
  cases op with
  | store op =>
    cases op with
    | compareAndSwap key expected newValue =>
      rw [Engine.disk_eq] at same
      have swaps := engine.backend.inherited_swap key expected newValue session.state
      have own := engine.backend.compareAndSwap_exec key expected newValue session.state
      have answers := (Session.step_swap (boxStoreAdapter ⟨engine.backend.kv, _, _, _⟩).toKvStore
        swaps).symm.trans (same.trans (Session.step_swap _ own))
      refine (engine.casSees_iff session.state key expected).mp ?_
      exact (decide_eq_decide.mp (Reply.flag.inj answers)).symm
    | _ => trivial
  | _ => trivial

theorem adapter_serve_iff (op : DiskOp (Store engine.Entry)) :
    (((boxStoreAdapter (engine.disk path size)).serve session op).1 =
        ((engine.disk path size).serve session op).1 ↔ Engine.Transparent path size session.state op) ∧
    (Engine.Transparent path size session.state op →
      ((boxStoreAdapter (engine.disk path size)).serve session op).2 =
        ((engine.disk path size).serve session op).2) := by
  have supported := fun key value ttl => engine.ttl_supported session.state key value ttl "TTL not supported"
  simp only [← Engine.backend_kv, ← Engine.disk_kv path size] at supported
  cases op with
  | session op =>
    refine ⟨Iff.trans ⟨DiskReply.reply.inj, congrArg DiskReply.reply⟩
      (adapter_session_iff path size session op), fun same => ?_⟩
    exact congrArg (fun served => (Prod.map DiskReply.reply id served).2)
      (adapter_session path size session op same)
  | putWithTtl key value ttl => exact Session.call_unlike (by simp) (supported key value ttl).1
  | expire key ttl => exact Session.call_unlike (by simp) (supported key key ttl).2.1
  | ttl key => exact Session.call_unlike (by simp) (supported key key .max).2.2.1
  | persist key => exact Session.call_unlike (by simp) (supported key key .max).2.2.2
  | purgeExpired =>
    have purges := engine.backend.purgeExpired_exec session.state
    rw [← Engine.disk_kv path size] at purges
    refine (Session.call_zero_iff purges).imp (·.trans List.length_eq_zero_iff) fun same nothing => same ?_
    rw [show session.state.expiredKeys = [] from nothing]
    rfl
  | compact =>
    have compacts := engine.backend.compact_exec session.state
    rw [← Engine.disk_kv path size] at compacts
    have same : session.call (pure ()) (fun _ => (.reply .done : DiskReply (Store engine.Entry))) =
        session.call (engine.disk path size).compact fun _ => .reply .done := by
      rw [Session.call_ok compacts, Session.call_ok (exec_pure () session.state)]
    exact ⟨iff_of_true (congrArg Prod.fst same) trivial, fun _ => congrArg Prod.snd same⟩
  | sizeOnDisk =>
    have size := Engine.exec_sizeOnDisk path size session.state
    exact (Session.call_zero_iff size).imp id fun same _ => same rfl
  | backup dest =>
    refine ⟨(Session.call_failed_iff (by simp)).trans
      (engine.backup_own path size session.state dest), ?_⟩
    intro own
    cases own
    rfl
  | restore src file =>
    refine ⟨(Session.call_failed_iff (by simp)).trans
      (engine.restore_own path size session.state src file), ?_⟩
    intro own
    cases own
    rfl

/-- **When the adapter is transparent.** From any state and along any run of calls, at any times of the clock,
it answers as its store and leaves the same data, expiries and handles exactly if no call tells them apart. -/
theorem adapter_transparent_iff (ops : List (SystemTime × DiskOp (Store engine.Entry))) :
    (answers (boxStoreAdapter (engine.disk path size)).step session ops =
        answers (engine.disk path size).step session ops ∧
      afterRun (boxStoreAdapter (engine.disk path size)).step session ops =
        afterRun (engine.disk path size).step session ops) ↔
    AlongRun (engine.disk path size).step (fun session op =>
      Engine.Transparent path size (session.state.setClock op.1) op.2) session ops := by
  refine same_run_iff (fun session op => ?_) (fun session op => ?_) session ops
  · exact (adapter_serve_iff path size ⟨session.state.setClock op.1, session.handles⟩ op.2).1
  · exact (adapter_serve_iff path size ⟨session.state.setClock op.1, session.handles⟩ op.2).2

end

theorem adapter_refuses_ttl :
    (boxStoreAdapter (Engine.sled.disk none fun _ => 0)).step ⟨⟨.empty, .sinceEpoch 0⟩, [], []⟩
        (.sinceEpoch 0, .putWithTtl [107] [97] 5) =
      (.reply (.failed (.unsupported "TTL not supported")),
        ⟨⟨.empty, .sinceEpoch 0⟩, [], []⟩) ∧
    ((Engine.sled.disk none fun _ => 0).step ⟨⟨.empty, .sinceEpoch 0⟩, [], []⟩
        (.sinceEpoch 0, .putWithTtl [107] [97] 5)).1 = .reply .done :=
  ⟨rfl, rfl⟩

end OxiStore
