/-
**`oxistore-core`, the `KvStore`, `KvTxn` and `KvSnapshot` traits.**
-/

import OxiStore.Lib.Prog
import OxiStore.Core.Time
import OxiStore.Core.Prefix

namespace OxiStore

open ByteString StepProg

/-! ### Calls -/

abbrev Call (S α : Type) := ExceptT StoreError (Prog S) α

namespace Call

variable {S α β : Type}

def prog (call : Call S α) : Prog S (Except StoreError α) := ExceptT.run call

def exec (call : Call S α) (s : S) : Except StoreError α × S := call.prog.run s

def read (look : S → α) : Call S α := ExceptT.lift (Prog.read look)

def write (update : S → S) : Call S Unit := ExceptT.lift (Prog.write update)

def swap (look : S → α) (update : S → S) : Call S α := ExceptT.lift (Prog.swap look update)

def ofExcept (result : Except StoreError α) : Call S α := ExceptT.mk (pure result)

@[simp] theorem exec_pure (value : α) (s : S) : exec (pure value) s = (.ok value, s) := rfl

@[simp] theorem exec_throw (error : StoreError) (s : S) :
    exec (throw error : Call S α) s = (.error error, s) := rfl

@[simp] theorem exec_read (look : S → α) (s : S) : exec (read look) s = (.ok (look s), s) := rfl

@[simp] theorem exec_swap (look : S → α) (update : S → S) (s : S) :
    exec (swap look update) s = (.ok (look s), update s) := rfl

@[simp] theorem exec_ofExcept (result : Except StoreError α) (s : S) :
    exec (ofExcept result) s = (result, s) := rfl

theorem exec_bind (call : Call S α) (rest : α → Call S β) (s : S) :
    exec (call >>= rest) s =
      match call.exec s with
      | (.ok value, s') => (rest value).exec s'
      | (.error error, s') => (.error error, s') := by
  show (call.prog.bind _).run s = _
  rw [Prog.run_bind]
  unfold exec
  rcases call.prog.run s with ⟨result, s'⟩
  cases result <;> rfl

theorem exec_bind_ok {call : Call S α} {rest : α → Call S β} {s s' : S} {value : α}
    (succeeds : call.exec s = (.ok value, s')) :
    exec (call >>= rest) s = (rest value).exec s' := by
  rw [exec_bind, succeeds]

@[simp] theorem exec_map (f : α → β) (call : Call S α) (s : S) :
    exec (f <$> call) s = ((call.exec s).1.map f, (call.exec s).2) := by
  rw [map_eq_pure_bind, exec_bind]
  rcases call.exec s with ⟨result, s'⟩
  cases result <;> rfl

theorem runs_bind_ok {call : Call S α} {rest : α → Call S β} {s s' : S} {value : α}
    (succeeds : call.exec s = (.ok value, s')) :
    (call >>= rest).prog.Runs s (rest value).prog s' := by
  have runs := Prog.runs_bind call.prog (ExceptT.bindCont rest) s
  rwa [show call.prog.run s = (.ok value, s') from succeeds] at runs

/-! #### A store with something beside it -/

section

variable {C : Type}

def onStore (call : Call S α) : Call (S × C) α := ExceptT.mk call.prog.onFst

def beside (step : C → α × C) : Call (S × C) α := swap (fun s => (step s.2).1) fun s => (s.1, (step s.2).2)

@[simp] theorem exec_onStore (call : Call S α) (s : S × C) :
    (onStore call).exec s = ((call.exec s.1).1, (call.exec s.1).2, s.2) :=
  Prog.run_onFst call.prog s.1 s.2

@[simp] theorem exec_beside (step : C → α × C) (s : S × C) :
    (beside step : Call (S × C) α).exec s = (.ok (step s.2).1, s.1, (step s.2).2) := rfl

end

section

variable {rely guar : S → S → Prop} {post : Except StoreError β → S → Prop}

theorem safe_read {look : S → α} {rest : α → Call S β} {s : S}
    (safe : ∀ t, rely s t → guar t t ∧ (rest (look t)).prog.Safe rely guar post t) :
    (read look >>= rest).prog.Safe rely guar post s := safe

theorem safe_write {update : S → S} {rest : Unit → Call S β} {s : S}
    (safe : ∀ t, rely s t → guar t (update t) ∧ (rest ()).prog.Safe rely guar post (update t)) :
    (write update >>= rest).prog.Safe rely guar post s := safe

theorem safe_bind (refl : ∀ s, rely s s) {mid : Except StoreError α → S → Prop} {call : Call S α}
    {rest : α → Call S β} {s : S} (first : call.prog.Safe rely guar mid s)
    (second : ∀ value t, mid (.ok value) t → (rest value).prog.Safe rely guar post t)
    (fails : ∀ error t, mid (.error error) t → (throw error : Call S β).prog.Safe rely guar post t) :
    (call >>= rest).prog.Safe rely guar post s := by
  refine Prog.Safe.bind refl (ExceptT.bindCont rest) first fun result t reached => ?_
  cases result with
  | ok value => exact second value t reached
  | error error => exact fails error t reached

end

end Call

/-! ### Iterators -/

abbrev RangeItem := Except StoreError (Bytes × Bytes)

abbrev RangeIter := List RangeItem

abbrev KeysIter := List (Except StoreError Bytes)

def collectItems {α : Type} : List (Except StoreError α) → Except StoreError (List α)
  | [] => .ok []
  | .ok value :: items => (collectItems items).map (value :: ·)
  | .error error :: _ => .error error

theorem collectItems_eq_ok_iff {α : Type} {items : List (Except StoreError α)} {values : List α} :
    collectItems items = .ok values ↔ items = values.map .ok := by
  induction items generalizing values with
  | nil => cases values <;> simp [collectItems]
  | cons item items ih =>
    cases item with
    | error error => cases values <;> simp [collectItems]
    | ok value =>
      simp only [collectItems]
      cases rest : collectItems items with
      | error error =>
        refine iff_of_false (fun impossible => by cases impossible) fun split => ?_
        cases values with
        | nil => cases split
        | cons head tail =>
          rw [List.map_cons, List.cons.injEq] at split
          simp [ih.mpr split.2] at rest
      | ok found =>
        have listed := ih.mp rest
        cases values with
        | nil => simp [Except.map]
        | cons head tail =>
          rw [List.map_cons, List.cons.injEq, ← ih, rest]
          simp [Except.map]

@[simp] theorem collectItems_ok {α : Type} (values : List α) :
    collectItems (values.map .ok) = .ok values := collectItems_eq_ok_iff.mpr rfl

/-! ### The traits -/

structure KvTxn (S T : Type) where
  get : T → Bytes → Call S (Option Bytes)
  put : T → Bytes → Bytes → Call S T
  delete : T → Bytes → Call S T
  contains : T → Bytes → Call S Bool := fun txn key => do
    let value ← get txn key
    pure value.isSome
  range : T → Bytes → Bytes → Call S RangeIter := fun _ _ _ =>
    throw (.other "range not supported within this transaction type")
  commit : T → Call S Unit
  rollback : T → Call S Unit

def snapPrefixScanByRange {S : Type} (range : Bytes → Bytes → Call S RangeIter) (start : Bytes) :
    Call S RangeIter :=
  match prefixUpperBound start with
  | some high => range start high
  | none => range [] []

structure KvSnapshot (S N : Type) where
  get : N → Bytes → Call S (Option Bytes)
  range : N → Bytes → Bytes → Call S RangeIter
  prefixScan : N → Bytes → Call S RangeIter := fun snap => snapPrefixScanByRange (range snap)
  contains : N → Bytes → Call S Bool := fun snap key => do
    let value ← get snap key
    pure value.isSome

def casMatches : Option Bytes → Option Bytes → Bool
  | none, none => true
  | some current, some expected => current == expected
  | _, _ => false

theorem casMatches_iff {current expected : Option Bytes} :
    casMatches current expected = true ↔ current = expected := by
  cases current <;> cases expected <;> simp [casMatches]

def compareAndSwapByTxn {S T : Type} (transaction : Call S T) (txn : KvTxn S T) (key : Bytes)
    (expected : Option Bytes) (newValue : Bytes) : Call S Bool := do
  let opened ← transaction
  let current ← txn.get opened key
  if casMatches current expected then
    let staged ← txn.put opened key newValue
    txn.commit staged
    pure true
  else
    txn.rollback opened
    pure false

def prefixScanByScans {S : Type} (range : Bytes → Bytes → Call S RangeIter)
    (iter : Call S RangeIter) (start : Bytes) : Call S RangeIter :=
  if start.isEmpty then iter
  else match prefixUpperBound start with
    | some high => range start high
    | none => do
        let items ← iter
        pure (items.filter fun item => match item with
          | .ok (key, _) => start.isPrefixOf key
          | .error _ => true)

def countItems {S : Type} (items : RangeIter) : Call S ℕ :=
  items.foldlM (fun n item => match item with
    | .ok _ => pure (n + 1)
    | .error error => throw error) 0

theorem exec_countItems {S : Type} (items : RangeIter) (s : S) :
    (countItems items).exec s = ((collectItems items).map List.length, s) := by
  have loop : ∀ start : ℕ, Call.exec (List.foldlM (fun n (item : RangeItem) => match item with
      | .ok _ => pure (n + 1)
      | .error error => throw error) start items : Call S ℕ) s =
      ((collectItems items).map fun pairs => start + pairs.length, s) := by
    induction items with
    | nil => exact fun start => rfl
    | cons item items ih =>
      intro start
      cases item with
      | error error => rfl
      | ok pair =>
        rw [List.foldlM_cons, Call.exec_bind_ok (Call.exec_pure (start + 1) s), ih (start + 1)]
        simp only [collectItems]
        cases collectItems items with
        | error error => rfl
        | ok pairs =>
          simp only [Except.map, List.length_cons]
          congr 2
          omega
  rw [countItems, loop 0]
  simp only [Nat.zero_add]

structure KvStore (S T N : Type) where
  get : Bytes → Call S (Option Bytes)
  put : Bytes → Bytes → Call S Unit
  delete : Bytes → Call S Unit
  range : Bytes → Bytes → Call S RangeIter
  iter : Call S RangeIter
  transaction : Call S T
  txn : KvTxn S T
  snapshot : Call S N
  snap : KvSnapshot S N
  flush : Call S Unit
  getMany : List Bytes → Call S (List (Option Bytes)) := fun keys => keys.mapM get
  getRef : Bytes → Call S (Option Bytes) := get
  contains : Bytes → Call S Bool := fun key => do
    let value ← get key
    pure value.isSome
  rangeRev : Bytes → Bytes → Call S RangeIter := fun low high => do
    let items ← range low high
    pure items.reverse
  prefixScan : Bytes → Call S RangeIter := prefixScanByScans range iter
  batchWrite : List (Bytes × Bytes) → Call S Unit := fun pairs => do
    let opened ← transaction
    let staged ← pairs.foldlM (fun t pair => txn.put t pair.1 pair.2) opened
    txn.commit staged
  batchDelete : List Bytes → Call S Unit := fun keys => do
    let opened ← transaction
    let staged ← keys.foldlM txn.delete opened
    txn.commit staged
  count : Call S ℕ := do
    let items ← iter
    countItems items
  keys : Call S KeysIter := do
    let items ← iter
    pure (items.map fun item => item.map Prod.fst)
  compareAndSwap : Bytes → Option Bytes → Bytes → Call S Bool := compareAndSwapByTxn transaction txn
  putWithTtl : Bytes → Bytes → Duration → Call S Unit := fun _ _ _ =>
    throw (.unsupported "TTL not supported")
  expire : Bytes → Duration → Call S Unit := fun _ _ =>
    throw (.unsupported "TTL not supported")
  ttl : Bytes → Call S (Option Duration) := fun _ => throw (.unsupported "TTL not supported")
  persist : Bytes → Call S Bool := fun _ => throw (.unsupported "TTL not supported")
  purgeExpired : Call S ℕ := pure 0
  compact : Call S Unit := pure ()

end OxiStore
