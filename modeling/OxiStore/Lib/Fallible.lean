/-
**Step programs that may fail.**
-/

import OxiStore.Lib.Prog

namespace StepProg

abbrev Fallible (ε S α : Type) := ExceptT ε (Prog S) α

namespace Fallible

variable {ε S α β : Type}

def prog (call : Fallible ε S α) : Prog S (Except ε α) := ExceptT.run call

def exec (call : Fallible ε S α) (s : S) : Except ε α × S := call.prog.run s

def atomic (outcome : S → Except ε α × S) : Fallible ε S α :=
  ExceptT.mk (.step (fun s => .pure (outcome s).1) fun s => (outcome s).2)

def attempt (call : Fallible ε S α) : Fallible ε S (Except ε α) := ExceptT.lift call.prog

def onFst {R : Type} (call : Fallible ε S α) : Fallible ε (S × R) α := ExceptT.mk call.prog.onFst

def ofExcept (result : Except ε α) : Fallible ε S α := ExceptT.mk (pure result)

variable (outcome : S → Except ε α × S)

@[simp] theorem exec_pure (value : α) (s : S) :
    exec (pure value : Fallible ε S α) s = (.ok value, s) := rfl

@[simp] theorem exec_throw (error : ε) (s : S) :
    exec (throw error : Fallible ε S α) s = (.error error, s) := rfl

@[simp] theorem exec_atomic (s : S) :
    exec (atomic outcome) s = outcome s := rfl

@[simp] theorem exec_ofExcept (result : Except ε α) (s : S) :
    exec (ofExcept result) s = (result, s) := rfl

@[simp] theorem onFst_atomic {R : Type} : (atomic outcome).onFst =
    atomic fun s : S × R => ((outcome s.1).1, (outcome s.1).2, s.2) := rfl

theorem exec_bind (call : Fallible ε S α) (rest : α → Fallible ε S β) (s : S) :
    exec (call >>= rest) s =
      match call.exec s with
      | (.ok value, s') => (rest value).exec s'
      | (.error error, s') => (.error error, s') := by
  show (call.prog.bind _).run s = _
  rw [Prog.run_bind]
  unfold exec
  rcases call.prog.run s with ⟨result, s'⟩
  cases result <;> rfl

variable {call : Fallible ε S α} {rest : α → Fallible ε S β}

theorem exec_bind_ok {s s' : S} {value : α} (succeeds : call.exec s = (.ok value, s')) :
    exec (call >>= rest) s = (rest value).exec s' := by
  rw [exec_bind, succeeds]

theorem exec_bind_error {s s' : S} {error : ε} (fails : call.exec s = (.error error, s')) :
    exec (call >>= rest) s = (.error error, s') := by
  rw [exec_bind, fails]

theorem exec_bind_eq_ok {s s'' : S} {result : β} :
    exec (call >>= rest) s = (.ok result, s'') ↔
      ∃ value s', call.exec s = (.ok value, s') ∧ (rest value).exec s' = (.ok result, s'') := by
  rw [exec_bind]
  rcases call.exec s with ⟨_ | value, s'⟩
  all_goals simp

theorem exec_adapt {ε' : Type} (rename : ε → ε') (call : Fallible ε S α) (s : S) :
    exec (ExceptT.adapt rename call) s = ((call.exec s).1.mapError rename, (call.exec s).2) := by
  show (call.prog.bind _).run s = _
  rw [Prog.run_bind]
  rfl

theorem exec_adapt_ok {ε' : Type} {rename : ε → ε'} {s s' : S} {value : α}
    (succeeds : call.exec s = (.ok value, s')) :
    exec (ExceptT.adapt rename call) s = (.ok value, s') := by
  rw [exec_adapt, succeeds]
  rfl

@[simp] theorem exec_attempt_bind (call : Fallible ε S α) (rest : Except ε α → Fallible ε S β) (s : S) :
    exec (call.attempt >>= rest) s = (rest (call.exec s).1).exec (call.exec s).2 := by
  show ((call.prog.bind fun result => .pure (.ok result)).bind (ExceptT.bindCont rest)).run s = _
  rw [Prog.run_bind, Prog.run_bind]
  rfl

@[simp] theorem prog_atomic :
    prog (atomic outcome) = .step (fun s => .pure (outcome s).1) fun s => (outcome s).2 := rfl

theorem prog_atomic_bind (rest : α → Fallible ε S β) :
    prog (atomic outcome >>= rest) = .step (fun s =>
      match (outcome s).1 with
      | .ok value => (rest value).prog
      | .error error => .pure (.error error)) fun s => (outcome s).2 := rfl

theorem prog_atomic_map (value : α → β) :
    prog (atomic outcome >>= fun result => pure (value result)) =
      .step (fun s => .pure ((outcome s).1.map value)) fun s => (outcome s).2 := by
  rw [prog_atomic_bind]
  congr
  funext s
  cases (outcome s).1 <;> rfl

theorem prog_attempt_atomic_bind (rest : Except ε α → Fallible ε S β) :
    prog ((atomic outcome).attempt >>= rest) =
      .step (fun s => (rest (outcome s).1).prog) fun s => (outcome s).2 := rfl

theorem updates_bind {allowed : (S → S) → Prop} (first : call.prog.Updates allowed)
    (second : ∀ value, (rest value).prog.Updates allowed) :
    (call >>= rest).prog.Updates allowed := by
  refine Prog.Updates.bind first fun result => ?_
  cases result with
  | ok value => exact second value
  | error error => trivial

theorem updates_attempt {allowed : (S → S) → Prop} (first : call.prog.Updates allowed) :
    call.attempt.prog.Updates allowed :=
  Prog.Updates.bind first fun _ => trivial

variable {outcome : S → Except ε α × S}

theorem safe_atomic_bind {rely guar : S → S → Prop} {post : Except ε β → S → Prop} {s : S}
    (part : ∀ t, rely s t → guar t (outcome t).2 ∧
      (∀ error, (outcome t).1 = .error error → ∀ u, rely (outcome t).2 u → post (.error error) u) ∧
      ∀ value, (outcome t).1 = .ok value → (rest value).prog.Safe rely guar post (outcome t).2) :
    (prog (atomic outcome >>= rest)).Safe rely guar post s := by
  rw [prog_atomic_bind]
  intro t others
  obtain ⟨move, fails, succeeds⟩ := part t others
  refine ⟨move, ?_⟩
  cases result : (outcome t).1 with
  | ok value =>
    simp only [result]
    exact succeeds value result
  | error error =>
    simp only [result]
    exact fails error result

theorem safe_atomic {rely guar : S → S → Prop} {post : Except ε α → S → Prop} {s : S}
    (part : ∀ t, rely s t → guar t (outcome t).2 ∧ ∀ u, rely (outcome t).2 u → post (outcome t).1 u) :
    (prog (atomic outcome)).Safe rely guar post s := part

theorem runs_atomic_bind {s s' : S} {value : α} (succeeds : outcome s = (.ok value, s')) :
    (prog (atomic outcome >>= rest)).Runs s (rest value).prog s' := by
  rw [prog_atomic_bind]
  refine .step ?_
  rw [succeeds]
  exact .stay _ _

theorem runs_atomic (s : S) :
    (prog (atomic outcome)).Runs s (.pure (outcome s).1) (outcome s).2 := .step (.stay _ _)

end Fallible

end StepProg
