/-
**Sessions over a store.**
-/

import OxiStore.Lib.Lockstep
import OxiStore.Lib.Related
import OxiStore.Kv.Maps

namespace OxiStore

open ByteString OrdTable StepProg Call

/-! ### Operations and replies -/

inductive StoreOp where
  | get (key : Bytes)
  | getRef (key : Bytes)
  | getMany (listed : List Bytes)
  | contains (key : Bytes)
  | range (low high : Bytes)
  | rangeRev (low high : Bytes)
  | prefixScan (start : Bytes)
  | iter
  | keys
  | count
  | put (key value : Bytes)
  | delete (key : Bytes)
  | batchWrite (pairs : List (Bytes × Bytes))
  | batchDelete (listed : List Bytes)
  | compareAndSwap (key : Bytes) (expected : Option Bytes) (newValue : Bytes)
  | flush

inductive TxnAct where
  | get (key : Bytes)
  | contains (key : Bytes)
  | range (low high : Bytes)
  | put (key value : Bytes)
  | delete (key : Bytes)

inductive SnapLook where
  | get (key : Bytes)
  | contains (key : Bytes)
  | range (low high : Bytes)
  | prefixScan (start : Bytes)

inductive SessionOp where
  | store (op : StoreOp)
  | begin
  | txn (handle : ℕ) (act : TxnAct)
  | commit (handle : ℕ)
  | rollback (handle : ℕ)
  | snapshot
  | snap (handle : ℕ) (look : SnapLook)

inductive Reply where
  | value (found : Option Bytes)
  | values (found : List (Option Bytes))
  | flag (holds : Bool)
  | pairs (listed : List (Bytes × Bytes))
  | keys (listed : List Bytes)
  | number (n : ℕ)
  | done
  /-- The operation failed. -/
  | failed (error : StoreError)
  /-- No such transaction or snapshot is open. -/
  | unknown
deriving DecidableEq

def StoreOp.Ordered : StoreOp → Prop
  | .range low high => low ≤ high
  | .rangeRev low high => low ≤ high
  | _ => True

def TxnAct.Ordered : TxnAct → Prop
  | .range low high => low ≤ high
  | _ => True

def SnapLook.Ordered : SnapLook → Prop
  | .range low high => low ≤ high
  | _ => True

def SessionOp.Ordered : SessionOp → Prop
  | .store op => op.Ordered
  | .txn _ act => act.Ordered
  | .snap _ look => look.Ordered
  | _ => True

/-! ### Sessions -/

/-- **What a session has opened**: transactions, `none` once used up, and snapshots. -/
structure Handles (T N : Type) where
  txns : List (Option T)
  snaps : List N

namespace Handles

variable {T N : Type}

def none : Handles T N := ⟨[], []⟩

def txn (handles : Handles T N) (handle : ℕ) : Option T := handles.txns[handle]?.join

def setTxn (handles : Handles T N) (handle : ℕ) (txn : Option T) : Handles T N :=
  { handles with txns := handles.txns.set handle txn }

theorem setTxn_self {handles : Handles T N} {handle : ℕ} {opened : T}
    (found : handles.txn handle = some opened) : handles.setTxn handle (some opened) = handles := by
  obtain ⟨bound, here⟩ := List.getElem?_eq_some_iff.mp (Option.join_eq_some_iff.mp found)
  unfold setTxn
  rw [← here, List.set_getElem_self]

def refused (handles : Handles T N) : SessionOp → Handles T N
  | .commit handle => handles.setTxn handle .none
  | .rollback handle => handles.setTxn handle .none
  | _ => handles

end Handles

structure Session (S T N : Type) where
  state : S
  handles : Handles T N

open Session

section

variable {S T N : Type}

def KvStore.reply (kv : KvStore S T N) : StoreOp → Call S Reply
  | .get key => Reply.value <$> kv.get key
  | .getRef key => Reply.value <$> kv.getRef key
  | .getMany listed => Reply.values <$> kv.getMany listed
  | .contains key => Reply.flag <$> kv.contains key
  | .range low high => Reply.pairs <$> (kv.range low high).collect
  | .rangeRev low high => Reply.pairs <$> (kv.rangeRev low high).collect
  | .prefixScan start => Reply.pairs <$> (kv.prefixScan start).collect
  | .iter => Reply.pairs <$> kv.iter.collect
  | .keys => Reply.keys <$> kv.keys.collect
  | .count => Reply.number <$> kv.count
  | .put key value => (fun _ => Reply.done) <$> kv.put key value
  | .delete key => (fun _ => Reply.done) <$> kv.delete key
  | .batchWrite pairs => (fun _ => Reply.done) <$> kv.batchWrite pairs
  | .batchDelete listed => (fun _ => Reply.done) <$> kv.batchDelete listed
  | .compareAndSwap key expected newValue => Reply.flag <$> kv.compareAndSwap key expected newValue
  | .flush => (fun _ => Reply.done) <$> kv.flush

def KvTxn.reply (txn : KvTxn S T) (opened : T) : TxnAct → Call S (Reply × T)
  | .get key => (fun value => (Reply.value value, opened)) <$> txn.get opened key
  | .contains key => (fun found => (Reply.flag found, opened)) <$> txn.contains opened key
  | .range low high => (fun pairs => (Reply.pairs pairs, opened)) <$> (txn.range opened low high).collect
  | .put key value => (fun staged => (Reply.done, staged)) <$> txn.put opened key value
  | .delete key => (fun staged => (Reply.done, staged)) <$> txn.delete opened key

def KvSnapshot.reply (snap : KvSnapshot S N) (taken : N) : SnapLook → Call S Reply
  | .get key => Reply.value <$> snap.get taken key
  | .contains key => Reply.flag <$> snap.contains taken key
  | .range low high => Reply.pairs <$> (snap.range taken low high).collect
  | .prefixScan start => Reply.pairs <$> (snap.prefixScan taken start).collect

def KvStore.serve (kv : KvStore S T N) (handles : Handles T N) :
    SessionOp → Call S (Reply × Handles T N)
  | .store op => (fun reply => (reply, handles)) <$> kv.reply op
  | .begin => (fun txn => (.done, { handles with txns := handles.txns ++ [some txn] })) <$> kv.transaction
  | .txn handle act => match handles.txn handle with
      | some opened =>
          (fun answer => (answer.1, handles.setTxn handle (some answer.2))) <$> kv.txn.reply opened act
      | none => pure (.unknown, handles)
  | .commit handle => match handles.txn handle with
      | some opened => (fun _ => (.done, handles.setTxn handle none)) <$> kv.txn.commit opened
      | none => pure (.unknown, handles)
  | .rollback handle => match handles.txn handle with
      | some opened => (fun _ => (.done, handles.setTxn handle none)) <$> kv.txn.rollback opened
      | none => pure (.unknown, handles)
  | .snapshot => (fun snap => (.done, { handles with snaps := handles.snaps ++ [snap] })) <$> kv.snapshot
  | .snap handle look => match handles.snaps[handle]? with
      | some taken => (fun reply => (reply, handles)) <$> kv.snap.reply taken look
      | none => pure (.unknown, handles)

def Session.perform (session : Session S T N) (call : Call S (Reply × Handles T N))
    (refused : Handles T N) : Reply × Session S T N :=
  match call.exec session.state with
  | (.ok (reply, handles), s) => (reply, ⟨s, handles⟩)
  | (.error error, s) => (.failed error, ⟨s, refused⟩)

def Session.step (kv : KvStore S T N) (session : Session S T N) (op : SessionOp) :
    Reply × Session S T N :=
  session.perform (kv.serve session.handles op) (session.handles.refused op)

theorem Session.step_ok {kv : KvStore S T N} {s s' : S} {handles handles' : Handles T N}
    {op : SessionOp} {reply : Reply}
    (ends : (kv.serve handles op).exec s = (.ok (reply, handles'), s')) :
    step kv ⟨s, handles⟩ op = (reply, ⟨s', handles'⟩) := by
  unfold step perform
  rw [ends]

theorem Session.step_error {kv : KvStore S T N} {s s' : S} {handles : Handles T N} {op : SessionOp}
    {error : StoreError} (fails : (kv.serve handles op).exec s = (.error error, s')) :
    step kv ⟨s, handles⟩ op = (.failed error, ⟨s', handles.refused op⟩) := by
  unfold step perform
  rw [fails]

end

/-! ### The plain map -/

def StoreOp.outcome (contents : Contents) : StoreOp → Reply × Contents
  | .get key => (.value contents[key]?, contents)
  | .getRef key => (.value contents[key]?, contents)
  | .getMany listed => (.values (listed.map fun key => contents[key]?), contents)
  | .contains key => (.flag contents[key]?.isSome, contents)
  | .range low high => (.pairs (scan contents (Within low high)), contents)
  | .rangeRev low high => (.pairs (scan contents (Within low high)).reverse, contents)
  | .prefixScan start => (.pairs (scan contents (StartsWith start)), contents)
  | .iter => (.pairs (scan contents Anywhere), contents)
  | .keys => (.keys ((scan contents Anywhere).map Prod.fst), contents)
  | .count => (.number (scan contents Anywhere).length, contents)
  | .put key value => (.done, contents.insert key value)
  | .delete key => (.done, contents.erase key)
  | .batchWrite pairs => (.done, amendAll contents (pairs.map fun pair => (pair.1, some pair.2)))
  | .batchDelete listed => (.done, amendAll contents (listed.map fun key => (key, none)))
  | .compareAndSwap key expected newValue => (.flag (decide (contents[key]? = expected)),
      if contents[key]? = expected then contents.insert key newValue else contents)
  | .flush => (.done, contents)

def TxnAct.outcome (contents : Contents) (changes : Changes) : TxnAct → Reply × Changes
  | .get key => (.value (amendAll contents changes)[key]?, changes)
  | .contains key => (.flag (amendAll contents changes)[key]?.isSome, changes)
  | .range low high => (.pairs (scan (amendAll contents changes) (Within low high)), changes)
  | .put key value => (.done, changes ++ [(key, some value)])
  | .delete key => (.done, changes ++ [(key, none)])

def SnapLook.outcome (held : Contents) : SnapLook → Reply
  | .get key => .value held[key]?
  | .contains key => .flag held[key]?.isSome
  | .range low high => .pairs (scan held (Within low high))
  | .prefixScan start => .pairs (scan held (SnapshotLists start))

abbrev PlainSession := Session Contents Changes Contents

namespace PlainSession

def step (p : PlainSession) : SessionOp → Reply × PlainSession
  | .store op => ((op.outcome p.state).1, { p with state := (op.outcome p.state).2 })
  | .begin => (.done, { p with handles := { p.handles with txns := p.handles.txns ++ [some []] } })
  | .txn handle act => match p.handles.txn handle with
      | some changes => ((act.outcome p.state changes).1, { p with
          handles := p.handles.setTxn handle (some (act.outcome p.state changes).2) })
      | none => (.unknown, p)
  | .commit handle => match p.handles.txn handle with
      | some changes => (.done, ⟨amendAll p.state changes, p.handles.setTxn handle none⟩)
      | none => (.unknown, p)
  | .rollback handle => match p.handles.txn handle with
      | some _ => (.done, { p with handles := p.handles.setTxn handle none })
      | none => (.unknown, p)
  | .snapshot => (.done, { p with handles := { p.handles with snaps := p.handles.snaps ++ [p.state] } })
  | .snap handle look => match p.handles.snaps[handle]? with
      | some held => (look.outcome held, p)
      | none => (.unknown, p)

def refuse (p : PlainSession) (op : SessionOp) : PlainSession :=
  { p with handles := p.handles.refused op }

end PlainSession

def Agrees (faulted : Prop) (p : PlainSession) (op : SessionOp) (reply : Reply) (p' : PlainSession) :
    Prop :=
  (p' = (p.step op).2 ∧ (op.Ordered → reply = (p.step op).1)) ∨
    (faulted ∧ (∃ error, reply = .failed error) ∧ p' = p.refuse op)

/-! ### Map-like stores -/

section

variable {S T N : Type}

theorem Call.exec_collect_state {α : Type} (items : Call S (List (Except StoreError α))) (s : S) :
    (items.collect.exec s).2 = (items.exec s).2 := by
  rw [collect, exec_bind]
  rcases items.exec s with ⟨_ | yielded, s'⟩
  all_goals rfl

variable {view : MapView S T N} {kv : KvStore S T N} (like : MapLike view kv) (own : kv.Inherits)
  {s : S} {contents : Contents} (shown : view.shows s contents)

include like own shown in
theorem MapLike.reply {op : StoreOp} (ordered : op.Ordered) :
    view.Serves (kv.reply op) s contents fun reply s' =>
      reply = (op.outcome contents).1 ∧ view.shows s' (op.outcome contents).2 := by
  cases op with
  | get key => exact (like.get shown key).map_eq _
  | getRef key =>
    rw [KvStore.reply, own.getRef]
    exact (like.get shown key).map_eq _
  | getMany listed => exact (like.getMany own shown listed).map_eq _
  | contains key => exact (like.contains shown key).map_eq _
  | range low high => exact (like.range shown ordered).map_eq _
  | rangeRev low high => exact (like.rangeRev own shown ordered).map_eq _
  | prefixScan start => exact (like.prefixScan own shown start).map_eq _
  | iter => exact (like.iter shown).map_eq _
  | keys => exact (like.keys own shown).map_eq _
  | count => exact (like.count own shown).map_eq _
  | put key value => exact .map _ ((like.put shown key value).mono fun _ _ _ ends => ⟨rfl, ends⟩)
  | delete key => exact .map _ ((like.delete shown key).mono fun _ _ _ ends => ⟨rfl, ends⟩)
  | batchWrite pairs =>
    exact .map _ ((like.batchWrite own shown pairs).mono fun _ _ _ ends => ⟨rfl, ends⟩)
  | batchDelete listed =>
    exact .map _ ((like.batchDelete own shown listed).mono fun _ _ _ ends => ⟨rfl, ends⟩)
  | compareAndSwap key expected newValue =>
    exact (like.compareAndSwap own shown key expected newValue).map_eq _
  | flush => exact .map _ ((like.flush shown).mono fun _ _ _ ends => ⟨rfl, ends⟩)

include like own shown in
theorem MapLike.reply_reversed {op : StoreOp} (reversed : ¬ op.Ordered) :
    view.later s ((kv.reply op).exec s).2 ∧ view.shows ((kv.reply op).exec s).2 contents ∧
      (op.outcome contents).2 = contents := by
  cases op with
  | range low high =>
    rw [KvStore.reply, exec_map, exec_collect_state]
    obtain ⟨later, shown'⟩ := like.range_reversed shown low high
    exact ⟨later, shown', rfl⟩
  | rangeRev low high =>
    have same : ((kv.rangeRev low high).exec s).2 = ((kv.range low high).exec s).2 := by
      rw [own.rangeRev, exec_bind]
      rcases (kv.range low high).exec s with ⟨_ | yielded, s'⟩
      all_goals rfl
    rw [KvStore.reply, exec_map, exec_collect_state, same]
    obtain ⟨later, shown'⟩ := like.range_reversed shown low high
    exact ⟨later, shown', rfl⟩
  | _ => exact absurd trivial reversed

include like shown in
theorem MapLike.txn_reply {txn : T} {changes : Changes} (staged : view.stages s txn changes)
    {act : TxnAct} (ordered : act.Ordered) :
    view.Serves (kv.txn.reply txn act) s contents fun answer s' =>
      answer.1 = (act.outcome contents changes).1 ∧
        view.stages s' answer.2 (act.outcome contents changes).2 ∧ view.shows s' contents := by
  cases act with
  | get key =>
    refine .map _ ((like.txn_get shown staged key).mono fun value s' later read => ?_)
    exact ⟨congrArg _ read.1, view.stages_later later staged, read.2⟩
  | contains key =>
    refine .map _ ((like.txn_contains shown staged key).mono fun found s' later read => ?_)
    exact ⟨congrArg _ read.1, view.stages_later later staged, read.2⟩
  | range low high =>
    refine .map _ ((like.txn_range shown staged ordered).mono fun pairs s' later read => ?_)
    exact ⟨congrArg _ read.1, view.stages_later later staged, read.2⟩
  | put key value =>
    exact .map _ ((like.txn_put shown staged key value).mono fun _ _ _ ends => ⟨rfl, ends⟩)
  | delete key =>
    exact .map _ ((like.txn_delete shown staged key).mono fun _ _ _ ends => ⟨rfl, ends⟩)

include like shown in
theorem MapLike.txn_reply_reversed {txn : T} {changes : Changes} (staged : view.stages s txn changes)
    {act : TxnAct} (reversed : ¬ act.Ordered) :
    view.later s ((kv.txn.reply txn act).exec s).2 ∧
      view.shows ((kv.txn.reply txn act).exec s).2 contents ∧
      (act.outcome contents changes).2 = changes ∧
      ∀ answer, ((kv.txn.reply txn act).exec s).1 = .ok answer → answer.2 = txn := by
  cases act with
  | range low high =>
    rw [KvTxn.reply, exec_map, exec_collect_state]
    obtain ⟨later, shown'⟩ := like.txn_range_reversed shown staged low high
    refine ⟨later, shown', rfl, fun answer ends => ?_⟩
    cases found : ((kv.txn.range txn low high).collect.exec s).1 with
    | error error =>
      rw [found] at ends
      cases ends
    | ok pairs =>
      rw [found] at ends
      cases ends
      rfl
  | _ => exact absurd trivial reversed

include like shown in
theorem MapLike.snap_reply {snap : N} {held : Contents} (captured : view.captures s snap held)
    {look : SnapLook} (ordered : look.Ordered) :
    view.Serves (kv.snap.reply snap look) s contents fun reply s' =>
      reply = look.outcome held ∧ view.shows s' contents := by
  cases look with
  | get key => exact (like.snap_get shown captured key).map_eq _
  | contains key => exact (like.snap_contains shown captured key).map_eq _
  | range low high => exact (like.snap_range shown captured ordered).map_eq _
  | prefixScan start => exact (like.snap_prefixScan shown captured start).map_eq _

include like shown in
theorem MapLike.snap_reply_reversed {snap : N} {held : Contents}
    (captured : view.captures s snap held) {look : SnapLook} (reversed : ¬ look.Ordered) :
    view.later s ((kv.snap.reply snap look).exec s).2 ∧
      view.shows ((kv.snap.reply snap look).exec s).2 contents := by
  cases look with
  | range low high =>
    rw [KvSnapshot.reply, exec_map, exec_collect_state]
    exact like.snap_range_reversed shown captured low high
  | _ => exact absurd trivial reversed

/-! ### Whole sessions -/

structure HandlesShow (view : MapView S T N) (s : S) (handles : Handles T N)
    (plain : Handles Changes Contents) : Prop where
  txns : List.Forall₂ (Option.Rel (view.stages s)) handles.txns plain.txns
  snaps : List.Forall₂ (view.captures s) handles.snaps plain.snaps

namespace HandlesShow

variable {s' : S} {handles : Handles T N} {plain : Handles Changes Contents}

theorem none : HandlesShow view s .none .none := ⟨.nil, .nil⟩

variable (opened : HandlesShow view s handles plain)

include opened

theorem later (follows : view.later s s') :
    HandlesShow view s' handles plain where
  txns := opened.txns.imp fun _ _ staged => rel_imp staged fun _ _ => view.stages_later follows
  snaps := opened.snaps.imp fun _ _ => view.captures_later follows

theorem txn (handle : ℕ) :
    Option.Rel (view.stages s) (handles.txn handle) (plain.txn handle) := by
  have related := forall₂_getElem? opened.txns handle
  unfold Handles.txn
  generalize handles.txns[handle]? = found at related
  generalize plain.txns[handle]? = found' at related
  cases related with
  | none => exact .none
  | some holds => exact holds

theorem snap (handle : ℕ) :
    Option.Rel (view.captures s) handles.snaps[handle]? plain.snaps[handle]? :=
  forall₂_getElem? opened.snaps handle

theorem setTxn (handle : ℕ) {txn : Option T} {changes : Option Changes}
    (staged : Option.Rel (view.stages s) txn changes) :
    HandlesShow view s (handles.setTxn handle txn) (plain.setTxn handle changes) :=
  ⟨forall₂_set opened.txns handle staged, opened.snaps⟩

theorem push_txn {txn : T} {changes : Changes} (staged : view.stages s txn changes) :
    HandlesShow view s { handles with txns := handles.txns ++ [some txn] }
      { plain with txns := plain.txns ++ [some changes] } :=
  ⟨List.rel_append opened.txns (.cons (.some staged) .nil), opened.snaps⟩

theorem push_snap {snap : N} {held : Contents} (captured : view.captures s snap held) :
    HandlesShow view s { handles with snaps := handles.snaps ++ [snap] }
      { plain with snaps := plain.snaps ++ [held] } :=
  ⟨opened.txns, List.rel_append opened.snaps (.cons captured .nil)⟩

theorem refused (op : SessionOp) :
    HandlesShow view s (handles.refused op) (plain.refused op) := by
  cases op with
  | commit handle | rollback handle => exact opened.setTxn handle .none
  | _ => exact opened

end HandlesShow

structure SessionShows (view : MapView S T N) (session : Session S T N) (p : PlainSession) : Prop where
  contents : view.shows session.state p.state
  handles : HandlesShow view session.state session.handles p.handles

variable {session : Session S T N} {p : PlainSession}

theorem Session.perform_shows {p' : PlainSession} {reply : Reply} {call : Call S (Reply × Handles T N)}
    {refused : Handles T N} {refused' : Handles Changes Contents}
    (opened : HandlesShow view session.state refused refused')
    (serves : view.Serves call session.state p.state fun answer s' =>
      answer.1 = reply ∧ SessionShows view ⟨s', answer.2⟩ p') :
    view.later session.state (session.perform call refused).2.state ∧
      (((session.perform call refused).1 = reply ∧
          SessionShows view (session.perform call refused).2 p') ∨
        (view.faults session.state < view.faults (session.perform call refused).2.state ∧
          (∃ error, (session.perform call refused).1 = .failed error) ∧
          SessionShows view (session.perform call refused).2 ⟨p.state, refused'⟩)) := by
  unfold perform
  rcases runs : call.exec session.state with ⟨error | ⟨answer, handles⟩, s'⟩
  · obtain ⟨later, faulted, shown⟩ := serves.of_error runs
    exact ⟨later, .inr ⟨faulted, ⟨error, rfl⟩, shown, opened.later later⟩⟩
  · obtain ⟨later, same, shows⟩ := serves.of_ok runs
    exact ⟨later, .inl ⟨same, shows⟩⟩

include like own in
theorem MapLike.serve {handles : Handles T N} (shown : view.shows s p.state)
    (opened : HandlesShow view s handles p.handles) {op : SessionOp} (ordered : op.Ordered) :
    view.Serves (kv.serve handles op) s p.state fun answer s' =>
      answer.1 = (p.step op).1 ∧ SessionShows view ⟨s', answer.2⟩ (p.step op).2 := by
  cases op with
  | store op =>
    refine .map _ ((like.reply own shown ordered).mono fun reply s' later ends => ?_)
    exact ⟨ends.1, ends.2, opened.later later⟩
  | begin =>
    refine .map _ ((like.transaction shown).mono fun txn s' later begun => ?_)
    exact ⟨rfl, begun.2, (opened.later later).push_txn begun.1⟩
  | txn handle act =>
    have related := opened.txn handle
    simp only [KvStore.serve, PlainSession.step]
    generalize handles.txn handle = found at related
    generalize p.handles.txn handle = found' at related
    cases related with
    | none => exact MapView.serves_pure ⟨rfl, shown, opened⟩
    | some staged =>
      refine .map _ ((like.txn_reply shown staged ordered).mono fun answer s' later ends => ?_)
      exact ⟨ends.1, ends.2.2, (opened.later later).setTxn handle (.some ends.2.1)⟩
  | commit handle =>
    have related := opened.txn handle
    simp only [KvStore.serve, PlainSession.step]
    generalize handles.txn handle = found at related
    generalize p.handles.txn handle = found' at related
    cases related with
    | none => exact MapView.serves_pure ⟨rfl, shown, opened⟩
    | some staged =>
      refine .map _ ((like.txn_commit shown staged).mono fun _ s' later ends => ?_)
      exact ⟨rfl, ends, (opened.later later).setTxn handle .none⟩
  | rollback handle =>
    have related := opened.txn handle
    simp only [KvStore.serve, PlainSession.step]
    generalize handles.txn handle = found at related
    generalize p.handles.txn handle = found' at related
    cases related with
    | none => exact MapView.serves_pure ⟨rfl, shown, opened⟩
    | some staged =>
      refine .map _ ((like.txn_rollback shown staged).mono fun _ s' later ends => ?_)
      exact ⟨rfl, ends, (opened.later later).setTxn handle .none⟩
  | snapshot =>
    refine .map _ ((like.snapshot shown).mono fun snap s' later taken => ?_)
    exact ⟨rfl, taken.2, (opened.later later).push_snap taken.1⟩
  | snap handle look =>
    have related := opened.snap handle
    simp only [KvStore.serve, PlainSession.step]
    generalize handles.snaps[handle]? = found at related
    generalize p.handles.snaps[handle]? = found' at related
    cases related with
    | none => exact MapView.serves_pure ⟨rfl, shown, opened⟩
    | some captured =>
      refine .map _ ((like.snap_reply shown captured ordered).mono fun reply s' later ends => ?_)
      exact ⟨ends.1, ends.2, opened.later later⟩

theorem Session.perform_quiet {α : Type} {call : Call S α} {answer : α → Reply × Handles T N}
    {refused : Handles T N} (later : view.later session.state (call.exec session.state).2)
    (shown : view.shows (call.exec session.state).2 p.state)
    (answers : ∀ value, (call.exec session.state).1 = .ok value →
      HandlesShow view session.state (answer value).2 p.handles)
    (refuses : HandlesShow view session.state refused p.handles) :
    view.later session.state (session.perform (answer <$> call) refused).2.state ∧
      SessionShows view (session.perform (answer <$> call) refused).2 p := by
  unfold perform
  rw [exec_map]
  rcases runs : call.exec session.state with ⟨error | value, s'⟩
  · rw [runs] at later shown
    exact ⟨later, shown, refuses.later later⟩
  · rw [runs] at later shown
    exact ⟨later, shown, (answers value (by rw [runs])).later later⟩

include like own in
theorem MapLike.step_reversed (shows : SessionShows view session p) {op : SessionOp}
    (reversed : ¬ op.Ordered) :
    view.later session.state (session.step kv op).2.state ∧
      SessionShows view (session.step kv op).2 (p.step op).2 := by
  obtain ⟨shown, opened⟩ := shows
  cases op with
  | store op =>
    obtain ⟨later, shown', same⟩ := like.reply_reversed own shown reversed
    simp only [PlainSession.step, same]
    exact perform_quiet later shown' (fun _ _ => opened) opened
  | txn handle act =>
    have related := opened.txn handle
    simp only [step, KvStore.serve, PlainSession.step]
    generalize found : session.handles.txn handle = txn at related
    generalize found' : p.handles.txn handle = changes at related
    cases related with
    | none => exact ⟨view.later_refl _, shown, opened⟩
    | some staged =>
      obtain ⟨later, shown', same, kept⟩ := like.txn_reply_reversed shown staged reversed
      simp only [same, Handles.setTxn_self found']
      refine perform_quiet later shown' (fun answer ends => ?_) opened
      rw [kept answer ends, Handles.setTxn_self found]
      exact opened
  | snap handle look =>
    have related := opened.snap handle
    simp only [step, KvStore.serve, PlainSession.step]
    generalize session.handles.snaps[handle]? = snap at related
    generalize p.handles.snaps[handle]? = held at related
    cases related with
    | none => exact ⟨view.later_refl _, shown, opened⟩
    | some captured =>
      obtain ⟨later, shown'⟩ := like.snap_reply_reversed shown captured reversed
      exact perform_quiet later shown' (fun _ _ => opened) opened
  | _ => exact absurd trivial reversed

include like own in
theorem MapLike.session_step (shows : SessionShows view session p) (op : SessionOp) :
    ∃ p', Agrees (view.faults session.state < view.faults (session.step kv op).2.state) p op
        (session.step kv op).1 p' ∧
      SessionShows view (session.step kv op).2 p' ∧
      view.later session.state (session.step kv op).2.state := by
  by_cases ordered : op.Ordered
  · have serves := like.serve own shows.contents shows.handles ordered
    obtain ⟨later, agrees | fails⟩ := perform_shows (shows.handles.refused op) serves
    · exact ⟨(p.step op).2, .inl ⟨rfl, fun _ => agrees.1⟩, agrees.2, later⟩
    · exact ⟨p.refuse op, .inr ⟨fails.1, fails.2.1, rfl⟩, fails.2.2, later⟩
  · obtain ⟨later, shows'⟩ := like.step_reversed own shows ordered
    exact ⟨(p.step op).2, .inl ⟨rfl, fun holds => absurd holds ordered⟩, shows', later⟩

/-! ### Where nothing fails -/

def FollowsPlain (kv : KvStore S T N) (s : S) : Prop :=
  ∀ ops : List SessionOp, (∀ op ∈ ops, op.Ordered) →
    answers (Session.step kv) ⟨s, .none⟩ ops = answers PlainSession.step ⟨∅, .none⟩ ops

include like own in
theorem MapLike.followsPlain (reliable : view.ReliableFrom s) (shown : view.shows s ∅) :
    FollowsPlain kv s := by
  have runs : ∀ (ops : List SessionOp) (session : Session S T N) (p : PlainSession),
      SessionShows view session p → view.ReliableFrom session.state → (∀ op ∈ ops, op.Ordered) →
      answers (step kv) session ops = answers PlainSession.step p ops := by
    intro ops
    induction ops with
    | nil => exact fun _ _ _ _ _ => rfl
    | cons op ops ih =>
      intro session p shows reliable ordered
      obtain ⟨p', agrees, shows', later⟩ := like.session_step own shows op
      rcases agrees with ⟨rfl, same⟩ | ⟨faulted, _⟩
      · rw [answers, answers, same (ordered op List.mem_cons_self)]
        rw [ih _ _ shows' (reliable.later later) fun other member =>
          ordered other (List.mem_cons_of_mem _ member)]
      · exact absurd faulted (reliable _ later).not_gt
  intro ops ordered
  exact runs ops _ _ ⟨shown, .none⟩ reliable ordered

end

section

variable {S T N : Type} {kv : KvStore S T N} {s s₁ s₂ s₃ : S}

theorem Session.found_of_step {handles handles' : Handles T N} {op : SessionOp} {s' : S}
    {result : Except StoreError (Option Bytes)} {found : Option Bytes}
    (serves : (kv.serve handles op).exec s = (result.map fun value => (.value value, handles'), s'))
    (replies : (step kv ⟨s, handles⟩ op).1 = .value found) : result = .ok found := by
  cases result with
  | error error => simp [step_error serves] at replies
  | ok value =>
    rw [step_ok serves] at replies
    cases replies
    rfl

theorem FollowsPlain.txn_get_of_put (follows : FollowsPlain kv s) {key value : Bytes} {txn : T}
    (puts : (kv.put key value).exec s = (.ok (), s₁))
    (begins : kv.transaction.exec s₁ = (.ok txn, s₂)) :
    ((kv.txn.get txn key).exec s₂).1 = .ok (some value) := by
  have put' : step kv ⟨s, .none⟩ (.store (.put key value)) = (.done, ⟨s₁, .none⟩) := by
    refine step_ok ?_
    simp only [KvStore.serve, KvStore.reply, exec_map, puts]
    rfl
  have begin' : step kv ⟨s₁, .none⟩ .begin = (.done, ⟨s₂, ⟨[some txn], []⟩⟩) := by
    refine step_ok ?_
    simp only [KvStore.serve, exec_map, begins]
    rfl
  have get' : (kv.serve ⟨[some txn], []⟩ (.txn 0 (.get key))).exec s₂ =
      (((kv.txn.get txn key).exec s₂).1.map fun value => (.value value, ⟨[some txn], []⟩),
        ((kv.txn.get txn key).exec s₂).2) := by
    show (_ <$> _ <$> kv.txn.get txn key : Call S _).exec s₂ = _
    rw [← comp_map, exec_map]
    rfl
  have replies := follows [.store (.put key value), .begin, .txn 0 (.get key)]
    (by simp [SessionOp.Ordered, StoreOp.Ordered, TxnAct.Ordered])
  simp only [answers, put', begin', List.cons.injEq] at replies
  refine found_of_step get' (replies.2.2.1.trans ?_)
  show Reply.value (amendAll ((∅ : Contents).insert key value) [])[key]? = _
  simp [amendAll]

theorem FollowsPlain.get_of_commit (follows : FollowsPlain kv s) {key value : Bytes} {txn txn' : T}
    (begins : kv.transaction.exec s = (.ok txn, s₁))
    (puts : (kv.txn.put txn key value).exec s₁ = (.ok txn', s₂))
    (commits : (kv.txn.commit txn').exec s₂ = (.ok (), s₃)) :
    ((kv.get key).exec s₃).1 = .ok (some value) := by
  have begin' : step kv ⟨s, .none⟩ .begin = (.done, ⟨s₁, ⟨[some txn], []⟩⟩) := by
    refine step_ok ?_
    simp only [KvStore.serve, exec_map, begins]
    rfl
  have put' : step kv ⟨s₁, ⟨[some txn], []⟩⟩ (.txn 0 (.put key value)) =
      (.done, ⟨s₂, ⟨[some txn'], []⟩⟩) := by
    refine step_ok ?_
    show (_ <$> _ <$> kv.txn.put txn key value : Call S _).exec s₁ = _
    rw [← comp_map, exec_map, puts]
    rfl
  have commit' : step kv ⟨s₂, ⟨[some txn'], []⟩⟩ (.commit 0) =
      (.done, ⟨s₃, ⟨[none], []⟩⟩) := by
    refine step_ok ?_
    show (_ <$> kv.txn.commit txn' : Call S _).exec s₂ = _
    rw [exec_map, commits]
    rfl
  have get' : (kv.serve ⟨[none], []⟩ (.store (.get key))).exec s₃ =
      (((kv.get key).exec s₃).1.map fun value => (.value value, ⟨[none], []⟩),
        ((kv.get key).exec s₃).2) := by
    show (_ <$> _ <$> kv.get key : Call S _).exec s₃ = _
    rw [← comp_map, exec_map]
    rfl
  have replies := follows [.begin, .txn 0 (.put key value), .commit 0, .store (.get key)]
    (by simp [SessionOp.Ordered, StoreOp.Ordered, TxnAct.Ordered])
  simp only [answers, put', begin', commit', List.cons.injEq] at replies
  refine found_of_step get' (replies.2.2.2.1.trans ?_)
  show Reply.value (amendAll (∅ : Contents) [(key, some value)])[key]? = _
  simp [amendAll, amend]
end

end OxiStore
