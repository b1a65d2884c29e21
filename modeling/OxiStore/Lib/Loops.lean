/-
**Loops.**
-/

import Mathlib.Data.Nat.Basic
import Mathlib.Tactic.ByContra
import Mathlib.Tactic.SplitIfs

namespace WhileLoop

variable {σ : Type} (test : σ → Bool) (body : σ → σ)

def rounds : ℕ → σ → Option σ
  | 0, s => if test s then none else some s
  | n + 1, s => if test s then rounds n (body s) else some s

variable {test body} (holds : σ → Prop)

theorem rounds_of_measure (size : σ → ℕ)
    (smaller : ∀ s, holds s → test s = true → holds (body s) ∧ size (body s) < size s) {n : ℕ} {s : σ}
    (start : holds s) (enough : size s ≤ n) : ∃ s', rounds test body n s = some s' := by
  induction n generalizing s with
  | zero =>
    have stops : test s = false := by
      by_contra goes
      have := (smaller s start ((Bool.not_eq_false _).mp goes)).2
      omega
    exact ⟨s, by simp [rounds, stops]⟩
  | succ n ih =>
    by_cases goes : test s = true
    · obtain ⟨still, less⟩ := smaller s start goes
      obtain ⟨s', ends⟩ := ih still (by omega)
      exact ⟨s', by rw [rounds, if_pos goes, ends]⟩
    · exact ⟨s, by rw [rounds, if_neg goes]⟩

theorem rounds_invariant (keeps : ∀ s, holds s → test s = true → holds (body s)) {n : ℕ} {s s' : σ}
    (start : holds s) (ends : rounds test body n s = some s') :
    holds s' ∧ test s' = false := by
  induction n generalizing s with
  | zero =>
    rw [rounds] at ends
    split_ifs at ends with goes
    cases ends
    exact ⟨start, (Bool.not_eq_true _).mp goes⟩
  | succ n ih =>
    rw [rounds] at ends
    split_ifs at ends with goes
    · exact ih (keeps s start goes) ends
    · cases ends
      exact ⟨start, (Bool.not_eq_true _).mp goes⟩

theorem rounds_of_fixed {s : σ} (goes : test s = true) (same : body s = s) (n : ℕ) :
    rounds test body n s = none := by
  induction n with
  | zero => rw [rounds, if_pos goes]
  | succ n ih => rw [rounds, if_pos goes, same, ih]

theorem rounds_stuck (size : σ → ℕ) (progress : ∀ s, test s = true → body s = s ∨ size (body s) < size s)
    {n : ℕ} {s : σ} (enough : size s ≤ n) (never : rounds test body n s = none) (m : ℕ) :
    rounds test body m s = none := by
  induction n generalizing s m with
  | zero =>
    rw [rounds] at never
    split_ifs at never with goes
    rcases progress s goes with same | smaller
    · exact rounds_of_fixed goes same m
    · omega
  | succ n ih =>
    rw [rounds] at never
    split_ifs at never with goes
    rcases progress s goes with same | smaller
    · exact rounds_of_fixed goes same m
    · cases m with
      | zero => rw [rounds, if_pos goes]
      | succ m =>
        rw [rounds, if_pos goes]
        exact ih (by omega) never m

theorem foldlM_total {α : Type} {round : σ → α → Option σ} {items : List α}
    (works : ∀ item ∈ items, ∀ s, holds s → ∃ s', round s item = some s' ∧ holds s') {s : σ}
    (start : holds s) : ∃ s', items.foldlM round s = some s' ∧ holds s' := by
  induction items generalizing s with
  | nil => exact ⟨s, rfl, start⟩
  | cons item items ih =>
    obtain ⟨middle, first, still⟩ := works item List.mem_cons_self s start
    obtain ⟨s', rest, ends⟩ := ih (fun later member => works later (List.mem_cons_of_mem _ member)) still
    refine ⟨s', ?_, ends⟩
    rw [List.foldlM_cons, first]
    exact rest

end WhileLoop
