/-
**Expiries without a pair.**
-/

import OxiStore.Lib.Lockstep
import OxiStore.Kv.Engine
import OxiStore.Kv.Ops

namespace OxiStore

open List ByteString OrdTable StepProg Call

/-! ### Containment -/

def Store.Contained {E : Type} (s : Store E) : Prop := ∀ key : Bytes, s.ttl[key]?.isSome → s.data[key]?.isSome

namespace Store.Contained

variable {E : Type} {s : Store E}

theorem empty : (Store.empty : Store E).Contained := fun key listed => by simp [Store.empty] at listed

variable (held : s.Contained)

include held

theorem edit {edit : Edit E} (stored : ∀ key entry, edit = .attach key entry → s.data[key]?.isSome) :
    (s.edit edit).Contained := by
  intro key listed
  by_cases apart : edit.key ≠ key
  · obtain ⟨data, ttl⟩ := s.edit_other apart
    rw [data]
    exact held key (ttl ▸ listed)
  · obtain rfl := not_not.mp apart
    cases edit with
    | write key value =>
      show ((s.data.insert key value)[key]?).isSome
      rw [get_insert, if_pos rfl]
      rfl
    | evict key =>
      have gone : (s.ttl.erase key)[key]? = none := (get_erase _ _ _).trans (if_pos rfl)
      exact absurd (gone ▸ listed : (none : Option E).isSome) (by simp)
    | writeTtl key value entry =>
      show ((s.data.insert key value)[key]?).isSome
      rw [get_insert, if_pos rfl]
      rfl
    | attach key entry => exact stored key entry rfl
    | detach key =>
      have gone : (s.ttl.erase key)[key]? = none := (get_erase _ _ _).trans (if_pos rfl)
      exact absurd (gone ▸ listed : (none : Option E).isSome) (by simp)

theorem editAll {edits : List (Edit E)} (bare : ∀ edit ∈ edits, ∀ key entry, edit ≠ .attach key entry) :
    (s.editAll edits).Contained := by
  induction edits generalizing s with
  | nil => exact held
  | cons edit edits ih =>
    refine ih (held.edit fun key entry same => ?_) fun later member => bare later (mem_cons_of_mem _ member)
    exact absurd same (bare edit mem_cons_self key entry)

theorem stageAll (ops : List (Bytes × TxnOp)) : (s.stageAll ops).Contained := by
  rw [← Store.editAll_ofOp]
  refine held.editAll fun edit member key entry same => ?_
  obtain ⟨⟨changed, op⟩, -, rfl⟩ := mem_map.mp member
  cases op <;> cases same

theorem insertData (key value : Bytes) : (s.insertData key value).Contained := by
  intro other listed
  show ((s.data.insert key value)[other]?).isSome
  rw [get_insert]
  split_ifs with same
  · rfl
  · exact held other listed

theorem removeData_iff (key : Bytes) :
    (s.removeData key).Contained ↔ ¬ s.ttl[key]?.isSome := by
  constructor
  · intro after listed
    have kept : ((s.data.erase key)[key]?).isSome := after key listed
    rw [get_erase, if_pos rfl] at kept
    cases kept
  · intro bare other listed
    show ((s.data.erase key)[other]?).isSome
    have apart : key ≠ other := by
      rintro rfl
      exact bare listed
    rw [get_erase, if_neg apart]
    exact held other listed

end Store.Contained

section

variable {E T N : Type} [Expiry E] (b : Backend E T N) {w : World E}

theorem World.contained_evictElapsed (held : w.store.Contained) (key : Bytes) :
    (w.evictElapsed key).store.Contained := by
  rw [w.evictElapsed_eq]
  refine held.editAll fun edit member key entry same => ?_
  obtain ⟨found, -, -, rfl⟩ := World.mem_evictions member
  cases same

theorem Backend.contained_perform (held : w.store.Contained) (op : KvOp) :
    ((b.kv.perform op).exec w).2.store.Contained := by
  rw [b.perform_state]
  by_cases expires : ∃ key ttl, op = .expire key ttl
  · obtain ⟨key, ttl, rfl⟩ := expires
    show (w.store.editAll (if w.stored key then w.recording ttl (.attach key) else [])).Contained
    split_ifs with stored
    · unfold World.recording
      cases expiryEpochMillis w.clock ttl with
      | error error => exact held
      | ok millis =>
        show (w.store.edit (.attach key (Expiry.encode millis))).Contained
        refine held.edit fun found entry same => ?_
        cases same
        exact stored
    · exact held
  · refine held.editAll fun edit member key entry same => ?_
    subst same
    cases b.edits_cause member with
    | attach same stored => exact expires ⟨_, _, same⟩

end

theorem Fjall.contained_putReturning {w : Fjall.State} (held : w.store.Contained) (key value : Bytes) :
    ((Fjall.putReturning key value).exec w).2.store.Contained := by
  have gets : (Fjall.get key).exec w = _ := fjall.get_exec key w
  unfold Fjall.putReturning
  rw [exec_bind_ok gets]
  exact (World.contained_evictElapsed held key).stageAll [(key, .put value)]

theorem Fjall.contained_deleteReturning {w : Fjall.State} (held : w.store.Contained) (key : Bytes) :
    ((Fjall.deleteReturning key).exec w).2.store.Contained := by
  have gets : (Fjall.get key).exec w = _ := fjall.get_exec key w
  unfold Fjall.deleteReturning
  rw [exec_bind_ok gets]
  split_ifs with found
  · exact (World.contained_evictElapsed held key).stageAll [(key, .delete)]
  · exact World.contained_evictElapsed held key

/-! ### The methods of one thread -/

namespace Engine

inductive Act : Engine → Type where
  | kv {engine : Engine} (op : KvOp) : Act engine
  | transaction {engine : Engine} : Act engine
  | txn {engine : Engine} (handle : ℕ) (step : TxnStep) : Act engine
  | commit {engine : Engine} (handle : ℕ) : Act engine
  | rollback {engine : Engine} (handle : ℕ) : Act engine
  | putReturningOld (key value : Bytes) : Act .redb
  | deleteReturningOld (key : Bytes) : Act .redb
  | putReturning (key value : Bytes) : Act .fjall
  | deleteReturning (key : Bytes) : Act .fjall

structure Desk (engine : Engine) where
  world : World engine.Entry
  txns : List (Option engine.Txn)

variable {engine : Engine}

namespace Desk

def after {α : Type} (desk : Desk engine) (call : Call (World engine.Entry) α)
    (keep : α → List (Option engine.Txn)) (refused : List (Option engine.Txn)) : Desk engine :=
  match call.exec desk.world with
  | (.ok value, w) => ⟨w, keep value⟩
  | (.error _, w) => ⟨w, refused⟩

def onTxn (desk : Desk engine) (handle : ℕ) (run : engine.Txn → Desk engine) : Desk engine :=
  match desk.txns[handle]?.join with
  | some opened => run opened
  | none => desk

def act : {engine : Engine} → Desk engine → engine.Act → Desk engine
  | engine, desk, .kv op => desk.after (engine.kv.perform op) (fun _ => desk.txns) desk.txns
  | engine, desk, .transaction =>
      desk.after engine.kv.transaction (fun txn => desk.txns ++ [some txn]) desk.txns
  | engine, desk, .txn handle step => desk.onTxn handle fun opened =>
      desk.after (engine.kv.txn.perform opened step) (fun txn => desk.txns.set handle (some txn)) desk.txns
  | engine, desk, .commit handle => desk.onTxn handle fun opened =>
      desk.after (engine.kv.txn.commit opened) (fun _ => desk.txns.set handle none)
        (desk.txns.set handle none)
  | engine, desk, .rollback handle => desk.onTxn handle fun opened =>
      desk.after (engine.kv.txn.rollback opened) (fun _ => desk.txns.set handle none)
        (desk.txns.set handle none)
  | .redb, desk, .putReturningOld key value =>
      desk.after (Redb.putReturningOld key value) (fun _ => desk.txns) desk.txns
  | .redb, desk, .deleteReturningOld key =>
      desk.after (Redb.deleteReturningOld key) (fun _ => desk.txns) desk.txns
  | .fjall, desk, .putReturning key value =>
      desk.after (Fjall.putReturning key value) (fun _ => desk.txns) desk.txns
  | .fjall, desk, .deleteReturning key =>
      desk.after (Fjall.deleteReturning key) (fun _ => desk.txns) desk.txns

def step (desk : Desk engine) (call : SystemTime × engine.Act) : Unit × Desk engine :=
  ((), act ⟨desk.world.setClock call.1, desk.txns⟩ call.2)

end Desk

def Act.Strands (s : Store engine.Entry) : engine.Act → Prop
  | .deleteReturningOld key => s.ttl[key]?.isSome
  | _ => False

/-! ### Open transactions -/

def Staged (txn : engine.Txn) : Prop :=
  ∃ s : Store engine.Entry, s.Contained ∧ ∃ ops, txn = engine.backend.staged s ops

theorem redb_get_state (txn : Redb.Txn) (key : Bytes) (w : Redb.State) : ((txn.get key).exec w).2 = w := by
  unfold Redb.Txn.get
  cases txn.overlay[key]? with
  | some op => rfl
  | none =>
    unfold Redb.Txn.committedKeyExpired Redb.Txn.tables
    cases txn.inner with
    | none => rfl
    | some tables =>
      show ((Redb.isTtlExpired tables.ttl key >>= _ : Call Redb.State _).exec w).2 = w
      rw [exec_bind_ok (Redb.exec_isTtlExpired tables key w)]
      split_ifs <;> rfl

variable (s : Store engine.Entry) (ops : List (Bytes × TxnOp)) (w : World engine.Entry)

-- A transaction of sled or fjall reads the store of the moment, one of redb its own tables.
theorem txn_get_state (key : Bytes) :
    ((engine.kv.txn.get (engine.backend.staged s ops) key).exec w).2 = w := by
  cases engine with
  | redb => exact redb_get_state _ key w
  | sled => exact congrArg Prod.snd (OxiStore.sled.txn_get_exec ops key w)
  | fjall => exact congrArg Prod.snd (OxiStore.fjall.txn_get_exec ops key w)

theorem txn_range_state (low high : Bytes) :
    ((engine.kv.txn.range (engine.backend.staged s ops) low high).exec w).2 = w := by
  rcases le_or_gt low high with ordered | reversed
  · cases engine with
    | redb => exact congrArg Prod.snd (Redb.exec_txn_range s ops ordered w)
    | sled => exact congrArg Prod.snd (OxiStore.sled.txn_range_exec ops ordered w)
    | fjall => exact congrArg Prod.snd (OxiStore.fjall.txn_range_exec ops ordered w)
  · cases engine with
    | redb => exact congrArg Prod.snd (Redb.exec_txn_range_reversed s ops reversed w)
    | sled => exact congrArg Prod.snd (OxiStore.sled.txn_range_panics ops reversed w)
    | fjall => exact congrArg Prod.snd (OxiStore.fjall.txn_range_panics ops reversed w)

theorem perform_staged (step : TxnStep) :
    ∃ result, (engine.kv.txn.perform (engine.backend.staged s ops) step).exec w = (result, w) ∧
      ∀ txn, result = .ok txn → ∃ ops', txn = engine.backend.staged s ops' := by
  have looks : ∀ {α : Type} (call : Call (World engine.Entry) α), (call.exec w).2 = w →
      ∃ result, (do let _ ← call; pure (engine.backend.staged s ops) :
          Call (World engine.Entry) engine.Txn).exec w = (result, w) ∧
        ∀ txn, result = .ok txn → ∃ ops', txn = engine.backend.staged s ops' := by
    intro α call quiet
    rw [exec_bind]
    rcases ends : call.exec w with ⟨error | value, w'⟩
    · rw [ends] at quiet
      exact ⟨.error error, by rw [show w' = w from quiet], fun txn same => by cases same⟩
    · rw [ends] at quiet
      exact ⟨.ok _, by rw [show w' = w from quiet]; rfl, fun txn same => ⟨ops, (Except.ok.inj same).symm⟩⟩
  cases step with
  | get key => exact looks _ (txn_get_state s ops w key)
  | range low high => exact looks _ (txn_range_state s ops w low high)
  | put key value =>
    have puts := engine.backend.txn_put_exec s ops key value w
    rw [backend_kv] at puts
    exact ⟨_, puts, fun txn same => ⟨_, (Except.ok.inj same).symm⟩⟩
  | delete key =>
    have deletes := engine.backend.txn_delete_exec s ops key w
    rw [backend_kv] at deletes
    exact ⟨_, deletes, fun txn same => ⟨_, (Except.ok.inj same).symm⟩⟩

theorem commit_staged :
    ((engine.kv.txn.commit (engine.backend.staged s ops)).exec w).2.store = s.stageAll ops ∨
      ((engine.kv.txn.commit (engine.backend.staged s ops)).exec w).2.store = w.store.stageAll ops := by
  cases engine with
  | redb => exact .inl rfl
  | sled => exact .inr (congrArg (fun ended => ended.2.store) (OxiStore.sled.txn_commit_exec ops w))
  | fjall => exact .inr (congrArg (fun ended => ended.2.store) (OxiStore.fjall.txn_commit_exec ops w))

theorem Staged.commit {txn : engine.Txn} (staged : Staged txn) (held : w.store.Contained) :
    ((engine.kv.txn.commit txn).exec w).2.store.Contained := by
  obtain ⟨s, began, ops, rfl⟩ := staged
  rcases commit_staged s ops w with ended | ended
  · rw [ended]
    exact began.stageAll ops
  · rw [ended]
    exact held.stageAll ops

theorem Staged.rollback {txn : engine.Txn} (staged : Staged txn) :
    ((engine.kv.txn.rollback txn).exec w).2 = w := by
  obtain ⟨s, -, ops, rfl⟩ := staged
  rw [← backend_kv, engine.backend.txn_rollback_exec]

def Opened (txns : List (Option engine.Txn)) : Prop := ∀ txn, some txn ∈ txns → Staged txn

theorem Opened.set {txns : List (Option engine.Txn)} (opened : Opened txns) (handle : ℕ)
    {put : Option engine.Txn} (staged : ∀ txn, put = some txn → Staged txn) :
    Opened (txns.set handle put) := by
  intro txn member
  rcases mem_or_eq_of_mem_set member with member | same
  · exact opened txn member
  · exact staged txn same.symm

/-! ### Runs -/

namespace Desk

structure Sound (desk : Desk engine) : Prop where
  contained : desk.world.store.Contained
  opened : Opened desk.txns

variable {desk : Desk engine}

theorem Sound.after {α : Type} {call : Call (World engine.Entry) α} {keep : α → List (Option engine.Txn)}
    {refused : List (Option engine.Txn)} (contained : (call.exec desk.world).2.store.Contained)
    (keeps : ∀ value, (call.exec desk.world).1 = .ok value → Opened (keep value)) (refuses : Opened refused) :
    (desk.after call keep refused).Sound := by
  unfold Desk.after
  rcases ends : call.exec desk.world with ⟨error | value, w⟩
  · rw [ends] at contained
    exact ⟨contained, refuses⟩
  · rw [ends] at contained keeps
    exact ⟨contained, keeps value rfl⟩

variable (sound : desk.Sound)

include sound

theorem Sound.same {α : Type} {call : Call (World engine.Entry) α}
    (contained : (call.exec desk.world).2.store.Contained) :
    (desk.after call (fun _ => desk.txns) desk.txns).Sound :=
  .after contained (fun _ _ => sound.opened) sound.opened

theorem Sound.onTxn (handle : ℕ) {run : engine.Txn → Desk engine}
    (runs : ∀ opened, Staged opened → (run opened).Sound) : (desk.onTxn handle run).Sound := by
  unfold Desk.onTxn
  cases found : desk.txns[handle]?.join with
  | none => exact sound
  | some opened =>
    exact runs opened (sound.opened opened (mem_of_getElem? (Option.join_eq_some_iff.mp found)))

theorem Sound.transaction : (desk.act .transaction).Sound := by
  have opens := engine.backend.transaction_exec desk.world
  rw [backend_kv] at opens
  refine .after (by rw [opens]; exact sound.contained) (fun txn begun => ?_) sound.opened
  rw [opens] at begun
  intro other member
  rcases mem_append.mp member with member | member
  · exact sound.opened other member
  · refine ⟨desk.world.store, sound.contained, [], ?_⟩
    rw [Option.some.inj (mem_singleton.mp member), Except.ok.inj begun]

theorem Sound.txn (handle : ℕ) (step : TxnStep) :
    (desk.act (.txn handle step)).Sound := by
  refine sound.onTxn handle fun opened staged => ?_
  obtain ⟨s, began, ops, rfl⟩ := staged
  obtain ⟨result, ends, keeps⟩ := perform_staged s ops desk.world step
  refine .after (by rw [ends]; exact sound.contained) (fun txn done => ?_) sound.opened
  rw [ends] at done
  refine sound.opened.set handle fun other same => ?_
  obtain ⟨ops', rfl⟩ := keeps txn done
  exact ⟨s, began, ops', (Option.some.inj same).symm⟩

theorem Sound.close {handle : ℕ} {call : Call (World engine.Entry) Unit}
    (contained : (call.exec desk.world).2.store.Contained) :
    (desk.after call (fun _ => desk.txns.set handle none) (desk.txns.set handle none)).Sound := by
  have closed : Opened (desk.txns.set handle none) := sound.opened.set handle fun _ same => by cases same
  exact .after contained (fun _ _ => closed) closed

theorem Sound.act (act : engine.Act) (safe : ¬ act.Strands desk.world.store) :
    (desk.act act).Sound := by
  cases act with
  | kv op =>
    refine sound.same ?_
    rw [← backend_kv]
    exact engine.backend.contained_perform sound.contained op
  | transaction => exact sound.transaction
  | txn handle step => exact sound.txn handle step
  | commit handle =>
    exact sound.onTxn handle fun opened staged => sound.close (staged.commit desk.world sound.contained)
  | rollback handle =>
    refine sound.onTxn handle fun opened staged => sound.close ?_
    rw [staged.rollback]
    exact sound.contained
  | putReturningOld key value =>
    show (desk.after (Redb.putReturningOld key value) (fun _ => desk.txns) desk.txns).Sound
    refine sound.same ?_
    exact sound.contained.insertData key value
  | deleteReturningOld key =>
    show (desk.after (Redb.deleteReturningOld key) (fun _ => desk.txns) desk.txns).Sound
    refine sound.same ?_
    exact (sound.contained.removeData_iff key).mpr safe
  | putReturning key value => exact sound.same (Fjall.contained_putReturning sound.contained key value)
  | deleteReturning key => exact sound.same (Fjall.contained_deleteReturning sound.contained key)

theorem Sound.strands {act : engine.Act} (strands : act.Strands desk.world.store) :
    ¬ (desk.act act).world.store.Contained := by
  cases act with
  | deleteReturningOld key => exact fun after => (sound.contained.removeData_iff key).mp after strands
  | _ => exact strands.elim

omit sound

theorem sound_empty (clock : SystemTime) : (⟨⟨.empty, clock⟩, []⟩ : Desk engine).Sound :=
  ⟨.empty, fun _ member => absurd member not_mem_nil⟩

end Desk

/-- **When no expiry is without its pair.** Of any engine, along any run of one thread from an empty store, at
any times of the clock. -/
theorem sidecar_contained_iff (engine : Engine) (clock : SystemTime)
    (calls : List (SystemTime × engine.Act)) :
    (∀ done, done <+: calls →
      (afterRun Desk.step (⟨⟨.empty, clock⟩, []⟩ : Desk engine) done).world.store.Contained) ↔
    AlongRun Desk.step (fun desk call => ¬ call.2.Strands desk.world.store)
      (⟨⟨.empty, clock⟩, []⟩ : Desk engine) calls := by
  refine forall_prefix_iff (fun (desk : Desk engine) (sound : desk.Sound) => sound.contained) ?_ ?_
    (Desk.sound_empty clock) calls
  · intro desk call sound safe
    have told : (⟨desk.world.setClock call.1, desk.txns⟩ : Desk engine).Sound := ⟨sound.1, sound.2⟩
    exact told.act call.2 safe
  · intro desk call sound strands
    have told : (⟨desk.world.setClock call.1, desk.txns⟩ : Desk engine).Sound := ⟨sound.1, sound.2⟩
    exact told.strands (not_not.mp strands)

theorem old_expiry_inherited :
    let now := SystemTime.ofMillis 0
    let later := SystemTime.ofMillis 5
    let calls : List (SystemTime × Engine.redb.Act) := [(now, .kv (.putWithTtl [107] [97] (.fromMillis 5))),
      (now, .deleteReturningOld [107]), (now, .putReturningOld [107] [98])]
    ¬ (∀ done, done <+: calls →
      (afterRun Desk.step (⟨⟨.empty, now⟩, []⟩ : Desk .redb) done).world.store.Contained) ∧
    (Redb.get [107]).exec ((afterRun Desk.step (⟨⟨.empty, now⟩, []⟩ : Desk .redb) calls).world.setClock later) =
      (.ok none, ⟨.empty, later⟩) := by
  intro now later calls
  constructor
  · intro all
    have early := take_prefix 2 calls
    have stranded := all (calls.take 2) early [107] rfl
    cases stranded
  · rfl

end Engine

end OxiStore
