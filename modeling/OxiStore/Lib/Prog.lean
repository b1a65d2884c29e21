/-
**Programs of atomic steps: alone, and interleaved.**
-/

import Mathlib

namespace StepProg

/-- **A program cut at its atomic steps**: what a step leaves to do is chosen from the state before
its update. -/
inductive Prog (S α : Type) : Type where
  | pure (value : α) : Prog S α
  | step (next : S → Prog S α) (update : S → S) : Prog S α

namespace Prog

variable {S α β γ : Type}

def bind : Prog S α → (α → Prog S β) → Prog S β
  | .pure value, rest => rest value
  | .step next update, rest => .step (fun s => (next s).bind rest) update

instance : Monad (Prog S) where
  pure := .pure
  bind := Prog.bind

variable (program : Prog S α)

@[simp] theorem pure_bind (value : α) (rest : α → Prog S β) :
    (Prog.pure value).bind rest = rest value := rfl

@[simp] theorem step_bind (next : S → Prog S α) (update : S → S) (rest : α → Prog S β) :
    (Prog.step next update).bind rest = .step (fun s => (next s).bind rest) update := rfl

theorem bind_pure : program.bind .pure = program := by
  induction program with
  | pure value => rfl
  | step next update ih => simp only [step_bind, ih]

theorem bind_assoc (first : α → Prog S β) (second : β → Prog S γ) :
    (program.bind first).bind second = program.bind fun value => (first value).bind second := by
  induction program with
  | pure value => rfl
  | step next update ih => simp only [step_bind, ih]

instance : LawfulMonad (Prog S) :=
  LawfulMonad.mk' (Prog S) bind_pure (fun _ _ => rfl) bind_assoc

def read (look : S → α) : Prog S α := .step (fun s => .pure (look s)) id

def write (update : S → S) : Prog S Unit := .step (fun _ => .pure ()) update

def swap (look : S → α) (update : S → S) : Prog S α := .step (fun s => .pure (look s)) update

/-! ### Alone -/

def run : Prog S α → S → α × S
  | .pure value, s => (value, s)
  | .step next update, s => (next s).run (update s)

@[simp] theorem run_bind (rest : α → Prog S β) (s : S) :
    (program.bind rest).run s = (rest (program.run s).1).run (program.run s).2 := by
  induction program generalizing s with
  | pure value => rfl
  | step next update ih => exact ih s (update s)

/-! ### On a part of the state -/

def onFst {R : Type} : Prog S α → Prog (S × R) α
  | .pure value => .pure value
  | .step next update => .step (fun s => (next s.1).onFst) fun s => (update s.1, s.2)

@[simp] theorem run_onFst {R : Type} (s : S) (r : R) :
    program.onFst.run (s, r) = ((program.run s).1, (program.run s).2, r) := by
  induction program generalizing s with
  | pure value => rfl
  | step next update ih => exact ih s (update s)

/-! ### Uninterrupted stretches -/

/-- **The program, left alone, gets from `s` to `rest` at `t`.** -/
inductive Runs : Prog S α → S → Prog S α → S → Prop where
  | stay (program : Prog S α) (s : S) : Runs program s program s
  | step {next : S → Prog S α} {update : S → S} {s t : S} {rest : Prog S α}
      (runs : Runs (next s) (update s) rest t) : Runs (.step next update) s rest t

theorem Runs.trans {first second third : Prog S α} {s t u : S} (one : Runs first s second t)
    (two : Runs second t third u) : Runs first s third u := by
  induction one with
  | stay program s => exact two
  | step runs ih => exact .step (ih two)

theorem runs_bind (rest : α → Prog S β) (s : S) :
    Runs (program.bind rest) s (rest (program.run s).1) (program.run s).2 := by
  induction program generalizing s with
  | pure value => exact .stay _ s
  | step next update ih => exact .step (ih s (update s))

theorem Runs.bind {program rest : Prog S α} {s t : S} (runs : Runs program s rest t)
    (more : α → Prog S β) : Runs (program.bind more) s (rest.bind more) t := by
  induction runs with
  | stay program s => exact .stay _ s
  | step runs ih => exact .step ih

theorem runs_end (s : S) :
    Runs program s (.pure (program.run s).1) (program.run s).2 := by
  have ends := runs_bind program .pure s
  rwa [bind_pure] at ends

def advance : Prog S α → S → Prog S α × S
  | .pure value, s => (.pure value, s)
  | .step next update, s => (next s, update s)

@[simp] theorem advance_pure (value : α) (s : S) :
    (Prog.pure value).advance s = (.pure value, s) := rfl

@[simp] theorem advance_step (next : S → Prog S α) (update : S → S) (s : S) :
    (Prog.step next update).advance s = (next s, update s) := rfl

def Updates (allowed : (S → S) → Prop) : Prog S α → Prop
  | .pure _ => True
  | .step next update => allowed update ∧ ∀ s, (next s).Updates allowed

theorem Updates.bind {allowed : (S → S) → Prop} {program : Prog S α} {rest : α → Prog S β}
    (first : program.Updates allowed) (second : ∀ value, (rest value).Updates allowed) :
    (program.bind rest).Updates allowed := by
  induction program with
  | pure value => exact second value
  | step next update ih => exact ⟨first.1, fun s => ih s (first.2 s)⟩

/-! ### Among others -/

section

variable (rely guar : S → S → Prop)

def Safe (post : α → S → Prop) : Prog S α → S → Prop
  | .pure value, s => ∀ t, rely s t → post value t
  | .step next update, s => ∀ t, rely s t → guar t (update t) ∧ (next t).Safe post (update t)

variable {rely guar} {program : Prog S α}

theorem Safe.after (trans : ∀ s t u, rely s t → rely t u → rely s u) {post : α → S → Prop} {s t : S}
    (safe : program.Safe rely guar post s) (others : rely s t) :
    program.Safe rely guar post t := by
  cases program <;> exact fun u later => safe u (trans s t u others later)

theorem Safe.mono {post weaker : α → S → Prop} {s : S} (safe : program.Safe rely guar post s)
    (implies : ∀ value t, post value t → weaker value t) :
    program.Safe rely guar weaker s := by
  induction program generalizing s with
  | pure value => exact fun t others => implies value t (safe t others)
  | step next update ih =>
    intro t others
    obtain ⟨move, tail⟩ := safe t others
    exact ⟨move, ih t tail⟩

theorem Safe.bind (refl : ∀ s, rely s s) {mid : α → S → Prop} {post : β → S → Prop} (rest : α → Prog S β)
    {s : S} (first : program.Safe rely guar mid s)
    (second : ∀ value t, mid value t → (rest value).Safe rely guar post t) :
    (program.bind rest).Safe rely guar post s := by
  induction program generalizing s with
  | pure value => exact second value s (first s (refl s))
  | step next update ih =>
    intro t others
    obtain ⟨move, tail⟩ := first t others
    exact ⟨move, ih t tail⟩

end

end Prog

/-! ### Interleaved -/

structure Pool (ι S ρ : Type) where
  threads : ι → Prog S ρ
  state : S

inductive Event (ι E : Type) where
  | turn (thread : ι)
  | env (move : E)
deriving DecidableEq

namespace Pool

variable {ι S ρ E : Type} [DecidableEq ι] (envStep : E → S → S)

def step (pool : Pool ι S ρ) : Event ι E → Pool ι S ρ
  | .turn thread =>
      { threads := Function.update pool.threads thread
          ((pool.threads thread).advance pool.state).1
        state := ((pool.threads thread).advance pool.state).2 }
  | .env move => { pool with state := envStep move pool.state }

def run (pool : Pool ι S ρ) (schedule : List (Event ι E)) : Pool ι S ρ :=
  schedule.foldl (step envStep) pool

variable (pool : Pool ι S ρ)

@[simp] theorem run_nil : run envStep pool [] = pool := rfl

@[simp] theorem run_cons (event : Event ι E) (rest : List (Event ι E)) :
    run envStep pool (event :: rest) = run envStep (step envStep pool event) rest := rfl

theorem run_append (first second : List (Event ι E)) :
    run envStep pool (first ++ second) = run envStep (run envStep pool first) second :=
  List.foldl_append

def set (pool : Pool ι S ρ) (thread : ι) (program : Prog S ρ) (state : S) : Pool ι S ρ :=
  { threads := Function.update pool.threads thread program, state := state }

variable (thread : ι)

theorem step_turn :
    step envStep pool (.turn thread) = pool.set thread
      ((pool.threads thread).advance pool.state).1 ((pool.threads thread).advance pool.state).2 :=
  rfl

@[simp] theorem set_threads_self (program : Prog S ρ) (state : S) :
    (pool.set thread program state).threads thread = program := Function.update_self ..

@[simp] theorem set_threads_other {thread other : ι} (ne : other ≠ thread) (program : Prog S ρ) (state : S) :
    
    (pool.set thread program state).threads other = pool.threads other :=
  Function.update_of_ne ne ..

@[simp] theorem set_state (program : Prog S ρ) (state : S) :
    (pool.set thread program state).state = state := rfl

@[simp] theorem set_set (first second : Prog S ρ) (s t : S) :
    (pool.set thread first s).set thread second t = pool.set thread second t := by
  simp only [set, Function.update_idem]

@[simp] theorem set_self :
    pool.set thread (pool.threads thread) pool.state = pool := by
  simp only [set, Function.update_eq_self]

def EnvOnly (allowed : E → Prop) (schedule : List (Event ι E)) : Prop :=
  ∀ move, Event.env move ∈ schedule → allowed move

theorem safe_run (rely guar : ι → S → S → Prop) (post : ι → ρ → S → Prop) {allowed : E → Prop}
    (refl : ∀ i s, rely i s s) (trans : ∀ i s t u, rely i s t → rely i t u → rely i s u)
    (fits : ∀ i j, i ≠ j → ∀ s t, guar i s t → rely j s t)
    (envFits : ∀ move, allowed move → ∀ i s, rely i s (envStep move s))
    (schedule : List (Event ι E)) (moves : EnvOnly allowed schedule) (pool : Pool ι S ρ)
    (safe : ∀ i, (pool.threads i).Safe (rely i) (guar i) (post i) pool.state) (i : ι) :
    ((run envStep pool schedule).threads i).Safe (rely i) (guar i) (post i)
      (run envStep pool schedule).state := by
  induction schedule generalizing pool with
  | nil => exact safe i
  | cons event rest ih =>
    refine ih (fun move member => moves move (List.mem_cons_of_mem _ member)) _ fun j => ?_
    cases event with
    | env move =>
      exact (safe j).after (trans j) (envFits move (moves move List.mem_cons_self) j pool.state)
    | turn mover =>
      rw [step_turn, set_state]
      cases program : pool.threads mover with
      | pure value =>
        by_cases own : j = mover
        · rw [own, set_threads_self, Prog.advance_pure, ← program]
          exact safe mover
        · rw [set_threads_other _ own]
          exact safe j
      | step next update =>
        have part := safe mover
        rw [program] at part
        obtain ⟨move, tail⟩ := part pool.state (refl mover pool.state)
        by_cases own : j = mover
        · rw [own, set_threads_self]
          exact tail
        · rw [set_threads_other _ own]
          exact (safe j).after (trans j) (fits mover j (Ne.symm own) _ _ move)

/-! ### Schedules put together -/

def Reaches (allowed : E → Prop) (movers : ι → Prop) (pool pool' : Pool ι S ρ) : Prop :=
  ∃ schedule : List (Event ι E), EnvOnly allowed schedule ∧
    (∀ thread, Event.turn thread ∈ schedule → movers thread) ∧ run envStep pool schedule = pool'

variable {envStep} {allowed : E → Prop} {movers : ι → Prop}

theorem Reaches.trans {first second third : Pool ι S ρ}
    (one : Reaches envStep allowed movers first second)
    (two : Reaches envStep allowed movers second third) :
    Reaches envStep allowed movers first third := by
  obtain ⟨before, movesBefore, turnsBefore, rfl⟩ := one
  obtain ⟨after, movesAfter, turnsAfter, rfl⟩ := two
  refine ⟨before ++ after, fun move member => ?_, fun thread member => ?_,
    run_append envStep first before after⟩
  · rcases List.mem_append.mp member with early | late
    · exact movesBefore move early
    · exact movesAfter move late
  · rcases List.mem_append.mp member with early | late
    · exact turnsBefore thread early
    · exact turnsAfter thread late

theorem reaches_env {move : E} (fits : allowed move) :
    Reaches envStep allowed movers pool { pool with state := envStep move pool.state } := by
  refine ⟨[.env move], fun other member => ?_, fun thread member => ?_, rfl⟩
  · obtain rfl : other = move := by simpa using member
    exact fits
  · simp at member

theorem reaches_stretch {thread : ι} (mover : movers thread) {rest : Prog S ρ} {t : S}
    (runs : (pool.threads thread).Runs pool.state rest t) :
    Reaches envStep allowed movers pool (pool.set thread rest t) := by
  generalize running : pool.threads thread = program at runs
  generalize start : pool.state = s at runs
  induction runs generalizing pool with
  | stay program s =>
    refine ⟨[], fun move member => absurd member List.not_mem_nil,
      fun other member => absurd member List.not_mem_nil, ?_⟩
    rw [run_nil, ← running, ← start, set_self]
  | step runs ih =>
    have moved := step_turn envStep pool thread
    rw [running, start, Prog.advance_step] at moved
    obtain ⟨turns, moves, turned, finished⟩ := ih (step envStep pool (.turn thread))
      (by rw [moved, set_threads_self]) (by rw [moved, set_state])
    refine ⟨.turn thread :: turns, fun move member => ?_, fun other member => ?_, ?_⟩
    · rcases List.mem_cons.mp member with turn | later
      · cases turn
      · exact moves move later
    · rcases List.mem_cons.mp member with turn | later
      · cases turn
        exact mover
      · exact turned other later
    · rw [run_cons, finished, moved, set_set]

end Pool

end StepProg
