/-
**A store with something beside it.**
-/

import OxiStore.Kv.Sessions

namespace OxiStore

open Call

section

variable {S T N α : Type}

def KvTxn.beside (C : Type) (txn : KvTxn S T) : KvTxn (S × C) T where
  get opened key := Call.onStore (txn.get opened key)
  put opened key value := Call.onStore (txn.put opened key value)
  delete opened key := Call.onStore (txn.delete opened key)
  contains opened key := Call.onStore (txn.contains opened key)
  range opened low high := Call.onStore (txn.range opened low high)
  commit opened := Call.onStore (txn.commit opened)
  rollback opened := Call.onStore (txn.rollback opened)

def KvSnapshot.beside (C : Type) (snap : KvSnapshot S N) : KvSnapshot (S × C) N where
  get taken key := Call.onStore (snap.get taken key)
  range taken low high := Call.onStore (snap.range taken low high)
  prefixScan taken start := Call.onStore (snap.prefixScan taken start)
  contains taken key := Call.onStore (snap.contains taken key)

def KvStore.beside (C : Type) (kv : KvStore S T N) : KvStore (S × C) T N where
  get key := Call.onStore (kv.get key)
  put key value := Call.onStore (kv.put key value)
  delete key := Call.onStore (kv.delete key)
  range low high := Call.onStore (kv.range low high)
  iter := Call.onStore kv.iter
  transaction := Call.onStore kv.transaction
  txn := kv.txn.beside C
  snapshot := Call.onStore kv.snapshot
  snap := kv.snap.beside C
  flush := Call.onStore kv.flush

def MapView.beside (C : Type) (view : MapView S T N) : MapView (S × C) T N where
  shows s contents := view.shows s.1 contents
  stages s txn changes := view.stages s.1 txn changes
  captures s snap held := view.captures s.1 snap held
  faults s := view.faults s.1
  later s s' := view.later s.1 s'.1 ∧ s'.2 = s.2
  later_refl s := ⟨view.later_refl s.1, rfl⟩
  later_trans first second := ⟨view.later_trans first.1 second.1, second.2.trans first.2⟩
  faults_later later := view.faults_later later.1
  stages_later later := view.stages_later later.1
  captures_later later := view.captures_later later.1

variable {C : Type} {view : MapView S T N} {kv : KvStore S T N} {call : Call S α} {s : S × C}
  {contents : Contents}

theorem serves_beside {done : α → S → Prop} (serves : view.Serves call s.1 contents done) :
    (view.beside C).Serves (onStore call) s contents fun value s' => done value s'.1 := by
  have runs : (onStore call).exec s = ((call.exec s.1).1, (call.exec s.1).2, s.2) :=
    exec_onStore call s
  rcases ends : call.exec s.1 with ⟨error | value, s'⟩
  · rw [ends] at runs
    obtain ⟨later, faulted, shown⟩ := serves.of_error ends
    exact MapView.serves_of_error runs ⟨later, rfl⟩ faulted shown
  · rw [ends] at runs
    obtain ⟨later, ends'⟩ := serves.of_ok ends
    exact MapView.serves_of_exec runs ⟨later, rfl⟩ ends'

theorem serves_beside_collect {scan : Call S (List (Except StoreError α))} {done : List α → S → Prop}
    (serves : view.Serves scan.collect s.1 contents done) :
    (view.beside C).Serves (onStore scan).collect s contents fun listed s' => done listed s'.1 := by
  refine MapView.Serves.congr ?_ (serves_beside serves)
  rw [collect, exec_bind, exec_onStore, exec_onStore, collect, exec_bind]
  rcases scan.exec s.1 with ⟨error | items, s'⟩
  all_goals rfl

theorem quiet_beside (quiet : view.later s.1 (call.exec s.1).2 ∧ view.shows (call.exec s.1).2 contents) :
    (view.beside C).later s ((onStore call).exec s).2 ∧
      (view.beside C).shows ((onStore call).exec s).2 contents := by
  rw [exec_onStore]
  exact ⟨⟨quiet.1, rfl⟩, quiet.2⟩

theorem beside_mapLike (C : Type) (like : MapLike view kv) : MapLike (view.beside C) (kv.beside C) where
  get shown key := serves_beside (like.get shown key)
  contains shown key := (serves_beside (like.get shown key)).map_eq Option.isSome
  put shown key value := serves_beside (like.put shown key value)
  delete shown key := serves_beside (like.delete shown key)
  range shown _ _ ordered := serves_beside_collect (like.range shown ordered)
  range_reversed shown low high := quiet_beside (like.range_reversed shown low high)
  iter shown := serves_beside_collect (like.iter shown)
  flush shown := serves_beside (like.flush shown)
  transaction shown := serves_beside (like.transaction shown)
  txn_get shown staged key := serves_beside (like.txn_get shown staged key)
  txn_contains shown staged key := serves_beside (like.txn_contains shown staged key)
  txn_range shown staged _ _ ordered := serves_beside_collect (like.txn_range shown staged ordered)
  txn_range_reversed shown staged low high := quiet_beside (like.txn_range_reversed shown staged low high)
  txn_put shown staged key value := serves_beside (like.txn_put shown staged key value)
  txn_delete shown staged key := serves_beside (like.txn_delete shown staged key)
  txn_commit shown staged := serves_beside (like.txn_commit shown staged)
  txn_rollback shown staged := serves_beside (like.txn_rollback shown staged)
  snapshot shown := serves_beside (like.snapshot shown)
  snap_get shown captured key := serves_beside (like.snap_get shown captured key)
  snap_contains shown captured key := serves_beside (like.snap_contains shown captured key)
  snap_range shown captured _ _ ordered := serves_beside_collect (like.snap_range shown captured ordered)
  snap_range_reversed shown captured low high :=
    quiet_beside (like.snap_range_reversed shown captured low high)
  snap_prefixScan shown captured start := serves_beside_collect (like.snap_prefixScan shown captured start)

theorem beside_inherits (C : Type) (kv : KvStore S T N) : (kv.beside C).Inherits where
  getMany _ := rfl
  getRef := rfl
  rangeRev _ _ := rfl
  prefixScan := rfl
  batchWrite _ := rfl
  batchDelete _ := rfl
  count := rfl
  keys := rfl
  compareAndSwap := rfl

theorem sessionShows_beside {session : Session (S × C) T N} {p : PlainSession} :
    SessionShows (view.beside C) session p ↔ SessionShows view ⟨session.state.1, session.handles⟩ p :=
  ⟨fun shows => ⟨shows.contents, shows.handles.txns, shows.handles.snaps⟩,
    fun shows => ⟨shows.contents, shows.handles.txns, shows.handles.snaps⟩⟩

end

end OxiStore
