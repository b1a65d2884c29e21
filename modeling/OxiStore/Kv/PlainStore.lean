/-
**The plain map as a store, and stores that fail when they are told to.**
-/

import OxiStore.Kv.Maps

namespace OxiStore

open ByteString OrdTable Call

/-! ### The plain store -/

def plainTxn : KvTxn Contents Changes where
  get txn key := Call.read fun contents => (amendAll contents txn)[key]?
  put txn key value := pure (txn ++ [(key, some value)])
  delete txn key := pure (txn ++ [(key, none)])
  range txn low high := Call.read fun contents => (scan (amendAll contents txn) (Within low high)).map .ok
  commit txn := Call.write fun contents => amendAll contents txn
  rollback _ := pure ()

def plainSnap : KvSnapshot Contents Contents where
  get held key := pure held[key]?
  range held low high := pure ((scan held (Within low high)).map .ok)

def plainKv : KvStore Contents Changes Contents where
  get key := Call.read fun contents => contents[key]?
  put key value := Call.write fun contents => contents.insert key value
  delete key := Call.write fun contents => contents.erase key
  range low high := Call.read fun contents => (scan contents (Within low high)).map .ok
  iter := Call.read fun contents => (scan contents Anywhere).map .ok
  transaction := pure []
  txn := plainTxn
  snapshot := Call.read id
  snap := plainSnap
  flush := pure ()

def plainView : MapView Contents Changes Contents where
  shows s contents := s = contents
  stages _ txn changes := txn = changes
  captures _ snap held := snap = held
  faults _ := 0
  later _ _ := True
  later_refl _ := trivial
  later_trans _ _ := trivial
  faults_later _ := le_rfl
  stages_later _ staged := staged
  captures_later _ captured := captured

theorem plain_reliableFrom (contents : Contents) : plainView.ReliableFrom contents := fun _ _ => rfl

theorem plain_serves {α : Type} {call : Call Contents α} {contents : Contents} {value : α}
    (runs : call.exec contents = (.ok value, contents)) :
    plainView.Serves call contents contents fun found s' => found = value ∧ plainView.shows s' contents :=
  MapView.serves_of_exec runs trivial ⟨rfl, rfl⟩

theorem plain_keyMap : KeyMap plainView plainKv where
  get {s contents} shown key := by
    cases shown
    exact plain_serves rfl
  put {s contents} shown key value := by
    cases shown
    exact MapView.serves_of_exec rfl trivial rfl
  delete {s contents} shown key := by
    cases shown
    exact MapView.serves_of_exec rfl trivial rfl

/-! ### Failures -/

structure Faults where
  verdicts : List Bool
  failures : ℕ

def Faults.next : Faults → Bool × Faults
  | ⟨[], failures⟩ => (false, ⟨[], failures⟩)
  | ⟨true :: verdicts, failures⟩ => (true, ⟨verdicts, failures + 1⟩)
  | ⟨false :: verdicts, failures⟩ => (false, ⟨verdicts, failures⟩)

theorem Faults.next_cases (faults : Faults) :
    (faults.next.1 = true ∧ faults.next.2.failures = faults.failures + 1) ∨
      (faults.next.1 = false ∧ faults.next.2.failures = faults.failures) := by
  obtain ⟨_ | ⟨_ | _, verdicts⟩, failures⟩ := faults
  · exact Or.inr ⟨rfl, rfl⟩
  · exact Or.inr ⟨rfl, rfl⟩
  · exact Or.inl ⟨rfl, rfl⟩

section

variable {S T N α : Type}

def Call.mayFail (call : Call S α) : Call (S × Faults) α := do
  if ← Call.beside Faults.next then throw (.other "the store is down") else Call.onStore call

theorem Call.exec_mayFail (call : Call S α) (s : S × Faults) :
    call.mayFail.exec s =
      if s.2.next.1 then (.error (.other "the store is down"), s.1, s.2.next.2)
      else ((call.exec s.1).1, (call.exec s.1).2, s.2.next.2) := by
  unfold mayFail
  rw [exec_bind_ok (exec_beside Faults.next s)]
  split_ifs
  · rfl
  · rw [exec_onStore]

def flaky (kv : KvStore S T N) : KvStore (S × Faults) T N where
  get key := (kv.get key).mayFail
  put key value := (kv.put key value).mayFail
  delete key := (kv.delete key).mayFail
  range low high := (kv.range low high).mayFail
  iter := kv.iter.mayFail
  transaction := kv.transaction.mayFail
  txn :=
    { get := fun txn key => (kv.txn.get txn key).mayFail
      put := fun txn key value => (kv.txn.put txn key value).mayFail
      delete := fun txn key => (kv.txn.delete txn key).mayFail
      range := fun txn low high => (kv.txn.range txn low high).mayFail
      commit := fun txn => (kv.txn.commit txn).mayFail
      rollback := fun txn => (kv.txn.rollback txn).mayFail }
  snapshot := kv.snapshot.mayFail
  snap :=
    { get := fun snap key => (kv.snap.get snap key).mayFail
      range := fun snap low high => (kv.snap.range snap low high).mayFail }
  flush := kv.flush.mayFail

def MapView.flaky (view : MapView S T N) : MapView (S × Faults) T N where
  shows s contents := view.shows s.1 contents
  stages s txn changes := view.stages s.1 txn changes
  captures s snap held := view.captures s.1 snap held
  faults s := view.faults s.1 + s.2.failures
  later s s' := view.later s.1 s'.1 ∧ s.2.failures ≤ s'.2.failures
  later_refl s := ⟨view.later_refl s.1, le_rfl⟩
  later_trans first second := ⟨view.later_trans first.1 second.1, first.2.trans second.2⟩
  faults_later later := Nat.add_le_add (view.faults_later later.1) later.2
  stages_later later := view.stages_later later.1
  captures_later later := view.captures_later later.1

variable {view : MapView S T N} {call : Call S α} {s : S × Faults} {contents : Contents}

theorem serves_mayFail {done : α → S → Prop} (shown : view.shows s.1 contents)
    (serves : view.Serves call s.1 contents done) :
    view.flaky.Serves call.mayFail s contents fun value s' => done value s'.1 := by
  have runs := exec_mayFail call s
  rcases s.2.next_cases with ⟨fails, counted⟩ | ⟨passes, same⟩
  · rw [if_pos fails] at runs
    refine MapView.serves_of_error runs ⟨view.later_refl s.1, ?_⟩ ?_ shown
    · rw [counted]
      exact Nat.le_succ _
    · show view.faults s.1 + s.2.failures < view.faults s.1 + s.2.next.2.failures
      rw [counted]
      exact Nat.lt_succ_self _
  · rw [if_neg (by rw [passes]; exact Bool.false_ne_true)] at runs
    rcases ends : call.exec s.1 with ⟨error | value, s'⟩
    · rw [ends] at runs
      obtain ⟨later, faulted, shown'⟩ := serves.of_error ends
      refine MapView.serves_of_error runs ⟨later, same.ge⟩ ?_ shown'
      show view.faults s.1 + s.2.failures < view.faults s' + s.2.next.2.failures
      rw [same]
      exact Nat.add_lt_add_right faulted _
    · rw [ends] at runs
      obtain ⟨later, done'⟩ := serves.of_ok ends
      exact MapView.serves_of_exec runs ⟨later, same.ge⟩ done'

theorem flaky_keyMap {kv : KvStore S T N} (like : KeyMap view kv) : KeyMap view.flaky (flaky kv) where
  get shown key := serves_mayFail shown (like.get shown key)
  put shown key value := serves_mayFail shown (like.put shown key value)
  delete shown key := serves_mayFail shown (like.delete shown key)

end

end OxiStore
