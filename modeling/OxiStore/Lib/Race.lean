/-
**Races: pools with a memory of who has moved.**
-/

import OxiStore.Lib.Prog

namespace StepProg

def Prog.result {S α : Type} : Prog S α → Option α
  | .pure value => some value
  | .step _ _ => none

structure Race (ι S ρ : Type) where
  moved : List ι
  pool : Pool ι S ρ

namespace Race

variable {ι S ρ : Type}

def start (threads : ι → Prog S ρ) (s : S) : Race ι S ρ := ⟨[], threads, s⟩

def thread (race : Race ι S ρ) (i : ι) : Prog S ρ := race.pool.threads i

def state (race : Race ι S ρ) : S := race.pool.state

def returned (race : Race ι S ρ) (i : ι) : Option ρ := (race.thread i).result

def UnderWay (race : Race ι S ρ) (i : ι) : Prop := i ∈ race.moved ∧ race.returned i = none

instance [DecidableEq ι] [DecidableEq ρ] (race : Race ι S ρ) (i : ι) : Decidable (race.UnderWay i) :=
  inferInstanceAs (Decidable (_ ∧ _))

theorem returned_of_pure {race : Race ι S ρ} {i : ι} {value : ρ} (done : race.thread i = .pure value) :
    race.returned i = some value := by
  rw [returned, done, Prog.result]

theorem returned_of_step {race : Race ι S ρ} {i : ι} {next : S → Prog S ρ} {update : S → S}
    (running : race.thread i = .step next update) : race.returned i = none := by
  rw [returned, running, Prog.result]

variable [DecidableEq ι]

def step (race : Race ι S ρ) (i : ι) : Unit × Race ι S ρ :=
  ((), ⟨i :: race.moved, race.pool.set i ((race.thread i).advance race.state).1
    ((race.thread i).advance race.state).2⟩)

variable (race : Race ι S ρ) {i j : ι}

theorem mem_moved_step : j ∈ (race.step i).2.moved ↔ j = i ∨ j ∈ race.moved := List.mem_cons

@[simp] theorem thread_step_self :
    (race.step i).2.thread i = ((race.thread i).advance race.state).1 := race.pool.set_threads_self ..

@[simp] theorem thread_step_other (other : j ≠ i) : (race.step i).2.thread j = race.thread j :=
  race.pool.set_threads_other other ..

@[simp] theorem returned_step_other (other : j ≠ i) : (race.step i).2.returned j = race.returned j := by
  rw [returned, thread_step_other race other, returned]

@[simp] theorem state_step : (race.step i).2.state = ((race.thread i).advance race.state).2 := rfl

theorem underWay_step_other (other : j ≠ i) : (race.step i).2.UnderWay j ↔ race.UnderWay j := by
  unfold UnderWay
  rw [mem_moved_step, returned_step_other race other, or_iff_right other]

variable {race}

theorem underWay_of_returned {value : ρ} (done : (race.step i).2.returned i = some value)
    (under : (race.step i).2.UnderWay j) : j ≠ i ∧ race.UnderWay j := by
  have other : j ≠ i := by
    rintro rfl
    simp [under.2] at done
  exact ⟨other, (race.underWay_step_other other).mp under⟩

theorem step_of_pure {value : ρ} (done : race.thread i = .pure value) :
    (∀ j, (race.step i).2.thread j = race.thread j) ∧ (race.step i).2.state = race.state := by
  constructor
  · intro j
    by_cases own : j = i
    · rw [own, thread_step_self, done, Prog.advance_pure]
    · exact thread_step_other race own
  · rw [state_step, done, Prog.advance_pure]

theorem returned_step {value : ρ} (done : race.returned j = some value) :
    (race.step i).2.returned j = some value := by
  by_cases own : j = i
  · subst own
    cases status : race.thread j with
    | pure result =>
      rw [returned, (step_of_pure status).1 j]
      exact done
    | step next update => simp [returned_of_step status] at done
  · rw [returned_step_other race own, done]

theorem step_of_step {next : S → Prog S ρ} {update : S → S}
    (running : race.thread i = .step next update) :
    (race.step i).2.thread i = next race.state ∧ (race.step i).2.state = update race.state := by
  rw [thread_step_self, state_step, running, Prog.advance_step]
  exact ⟨rfl, rfl⟩

theorem updates_step {allowed : (S → S) → Prop} (threads : ∀ j, (race.thread j).Updates allowed) (i j : ι) :
    ((race.step i).2.thread j).Updates allowed := by
  by_cases own : j = i
  · subst own
    have here := threads j
    cases program : race.thread j with
    | pure value =>
      rw [(step_of_pure program).1 j]
      exact threads j
    | step next update =>
      rw [(step_of_step program).1]
      rw [program] at here
      exact here.2 race.state
  · rw [thread_step_other race own]
    exact threads j

end Race

end StepProg
